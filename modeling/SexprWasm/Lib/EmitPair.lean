import SexprWasm.Lib.Emit

/-!
# Two runs of emitters side by side

`Alike view m m' s s' Q` says that `m` from `s` and `m'` from `s'` emit
events that `view` does not tell apart and fail alike or succeed into
`Q`. There is a rule for each way to build an emitter; a rule for two
programs of the same shape asks for the same of their parts.
-/

namespace SexprWasm

namespace Emit

variable {ε φ σ α α' β β' γ : Type}

/-- Both fail with one failure, or both succeed into `Q`. -/
inductive Agree (Q : α → α' → σ → σ → Prop) : Except φ (α × σ) → Except φ (α' × σ) → Prop
  | ok {a : α} {a' : α'} {s s' : σ} (h : Q a a' s s') : Agree Q (.ok (a, s)) (.ok (a', s'))
  | error (e : φ) : Agree Q (.error e) (.error e)

def Alike (view : ε → γ) (m : Emit ε φ σ α) (m' : Emit ε φ σ α') (s s' : σ)
    (Q : α → α' → σ → σ → Prop) : Prop :=
  (m s).1.map view = (m' s').1.map view ∧ Agree Q (m s).2 (m' s').2

/-- All events of the run have `P`, and it succeeds or all of them have `P'`. -/
def Assured (P P' : ε → Prop) (m : Emit ε φ σ α) (s : σ) : Prop :=
  (∀ e ∈ (m s).1, P e) ∧ ((∃ r, (m s).2 = .ok r) ∨ ∀ e ∈ (m s).1, P' e)

namespace Assured

variable {P P' : ε → Prop} {s t : σ}

theorem left {m : Emit ε φ σ α} {f : α → Emit ε φ σ β} (h : Assured P P' (m.bind f) s) :
    Assured P P' m s := by
  rcases hm : m s with ⟨es, err | ⟨a, t⟩⟩
  · rw [Assured, bind_error hm] at h
    refine ⟨by rw [hm]; exact h.1, ?_⟩
    rcases h.2 with ⟨_, hr⟩ | hall
    · cases hr
    · exact .inr (by rwa [hm])
  · rw [Assured, bind_ok hm] at h
    exact ⟨by rw [hm]; exact fun e he => h.1 e (List.mem_append_left _ he), .inl ⟨(a, t), by rw [hm]⟩⟩

theorem right {m : Emit ε φ σ α} {f : α → Emit ε φ σ β} {es : List ε} {a : α}
    (h : Assured P P' (m.bind f) s) (hm : m s = (es, .ok (a, t))) : Assured P P' (f a) t := by
  rw [Assured, bind_ok hm] at h
  exact ⟨fun e he => h.1 e (List.mem_append_right _ he),
    h.2.imp id fun hall e he => hall e (List.mem_append_right _ he)⟩

end Assured

namespace Alike

variable {view : ε → γ} {s s' : σ}

theorem mono {m : Emit ε φ σ α} {m' : Emit ε φ σ α'} {Q Q' : α → α' → σ → σ → Prop}
    (h : Alike view m m' s s' Q) (hQ : ∀ a a' t t', Q a a' t t' → Q' a a' t t') :
    Alike view m m' s s' Q' := by
  obtain ⟨hes, hres⟩ := h
  refine ⟨hes, ?_⟩
  generalize (m s).2 = r at hres ⊢
  generalize (m' s').2 = r' at hres ⊢
  cases hres with
  | ok hq => exact .ok (hQ _ _ _ _ hq)
  | error e => exact .error e

theorem pure {a : α} {a' : α'} {Q : α → α' → σ → σ → Prop} (h : Q a a' s s') :
    Alike view (Emit.pure a : Emit ε φ σ α) (Emit.pure a') s s' Q := ⟨rfl, .ok h⟩

theorem bind {m : Emit ε φ σ α} {m' : Emit ε φ σ α'} {f : α → Emit ε φ σ β}
    {f' : α' → Emit ε φ σ β'} {Q : β → β' → σ → σ → Prop}
    (h : Alike view m m' s s' fun a a' t t' => Alike view (f a) (f' a') t t' Q) :
    Alike view (m.bind f) (m'.bind f') s s' Q := by
  obtain ⟨hes, hres⟩ := h
  rcases hm : m s with ⟨es, r⟩
  rcases hm' : m' s' with ⟨es', r'⟩
  rw [hm, hm'] at hes hres
  dsimp only at hes hres
  cases hres with
  | ok hf =>
    obtain ⟨hes₁, hres₁⟩ := hf
    refine ⟨?_, ?_⟩
    · rw [bind_ok hm, bind_ok hm', List.map_append, List.map_append, hes, hes₁]
    · rw [bind_ok hm, bind_ok hm']
      exact hres₁
  | error e =>
    refine ⟨?_, ?_⟩
    · rw [bind_error hm, bind_error hm', hes]
    · rw [bind_error hm, bind_error hm']
      exact .error e

/-- `bind` for a run with a property of its events that the second part relies on. -/
theorem bindOf {P P' : ε → Prop} {m : Emit ε φ σ α} {m' : Emit ε φ σ α'} {f : α → Emit ε φ σ β}
    {f' : α' → Emit ε φ σ β'} {Q : β → β' → σ → σ → Prop} (hP : Assured P P' (m.bind f) s)
    (h : Alike view m m' s s' fun a a' t t' =>
      Assured P P' (f a) t → Alike view (f a) (f' a') t t' Q) :
    Alike view (m.bind f) (m'.bind f') s s' Q := by
  obtain ⟨hes, hres⟩ := h
  refine bind ⟨hes, ?_⟩
  rcases hm : m s with ⟨es, err | ⟨a, t⟩⟩
  · rw [hm] at hres
    generalize (m' s').2 = r' at hres ⊢
    cases hres
    exact .error err
  · rw [hm] at hres
    generalize (m' s').2 = r' at hres ⊢
    cases hres with
    | ok hf => exact .ok (hf (hP.right hm))

theorem emit {e e' : ε} {Q : Unit → Unit → σ → σ → Prop} (he : view e = view e') (h : Q () () s s') :
    Alike view (Emit.emit e : Emit ε φ σ Unit) (Emit.emit e') s s' Q :=
  ⟨congrArg (fun x => [x]) he, .ok h⟩

theorem fail {e : φ} {Q : α → α' → σ → σ → Prop} :
    Alike view (Emit.fail e : Emit ε φ σ α) (Emit.fail e) s s' Q := ⟨rfl, .error e⟩

theorem get {Q : σ → σ → σ → σ → Prop} (h : Q s s' s s') :
    Alike view (Emit.get : Emit ε φ σ σ) Emit.get s s' Q := ⟨rfl, .ok h⟩

theorem modify {f f' : σ → σ} {Q : Unit → Unit → σ → σ → Prop} (h : Q () () (f s) (f' s')) :
    Alike view (Emit.modify f : Emit ε φ σ Unit) (Emit.modify f') s s' Q := ⟨rfl, .ok h⟩

theorem check {c : Bool} {e : φ} {Q : Unit → Unit → σ → σ → Prop} (h : c = true → Q () () s s') :
    Alike view (Emit.check c e : Emit ε φ σ Unit) (Emit.check c e) s s' Q := by
  unfold Emit.check
  split
  · exact pure (h ‹_›)
  · exact fail

/-- The loop rule: `I i` holds before iteration `i` of both. -/
theorem forFrom {body body' : Nat → Emit ε φ σ Unit} {I : Nat → σ → σ → Prop}
    (hbody : ∀ i s s', I i s s' → Alike view (body i) (body' i) s s' fun _ _ t t' => I (i + 1) t t') :
    ∀ {n i : Nat} {s s' : σ}, I i s s' →
      Alike view (Emit.forFrom body i n) (Emit.forFrom body' i n) s s' fun _ _ t t' => I (i + n) t t'
  | 0, _, _, _, h => pure h
  | n + 1, i, s, s', h =>
      bind ((hbody i s s' h).mono fun _ _ t t' h' =>
        (forFrom hbody h').mono fun _ _ t t' h'' => by
          rw [Nat.add_right_comm] at h''
          exact h'')

/-- The loop rule for a run with a property of its events that the body relies on. -/
theorem forFromOf {P P' : ε → Prop} {body body' : Nat → Emit ε φ σ Unit} {I : σ → σ → Prop}
    (hbody : ∀ i s s', I s s' → Assured P P' (body i) s →
      Alike view (body i) (body' i) s s' fun _ _ t t' => I t t') :
    ∀ {n i : Nat} {s s' : σ}, I s s' → Assured P P' (Emit.forFrom body i n) s →
      Alike view (Emit.forFrom body i n) (Emit.forFrom body' i n) s s' fun _ _ t t' => I t t'
  | 0, _, _, _, h, _ => pure h
  | _ + 1, i, s, s', h, hP =>
      bindOf hP ((hbody i s s' h hP.left).mono fun _ _ _ _ h' => forFromOf hbody h')

/-- The rule for `collect`: both collect the same. -/
theorem collect {m m' : Emit ε φ σ α} {I : σ → σ → Prop}
    (hm : ∀ s s', I s s' → Alike view m m' s s' fun a a' t t' => a = a' ∧ I t t') :
    ∀ {n : Nat} {s s' : σ}, I s s' →
      Alike view (Emit.collect m n) (Emit.collect m' n) s s' fun as as' t t' => as = as' ∧ I t t'
  | 0, _, _, h => pure ⟨rfl, h⟩
  | n + 1, s, s', h => by
      refine bind ((hm s s' h).mono fun a a' t t' ⟨ha, h'⟩ => ?_)
      refine bind ((collect hm h').mono fun as as' u u' ⟨has, h''⟩ => ?_)
      exact pure ⟨by rw [ha, has], h''⟩

theorem events_eq {m : Emit ε φ σ α} {m' : Emit ε φ σ α'} {Q : α → α' → σ → σ → Prop}
    (h : Alike view m m' s s' Q) : (m s).1.map view = (m' s').1.map view := h.1

end Alike

end Emit

end SexprWasm
