import Mathlib.Data.List.Basic

/-!
# Computations that emit events

A reader that calls back into its client is a computation over a
private state which hands out events in order and may fail. Whatever
the client does with the events, they are the same up to the point
where the client stops it, so the reader can be described without the
client: `Emit ε φ σ α` is a state-and-failure computation that keeps
the events of the run, and keeps them when the run fails.

`Follows` is the rule system for such computations: the events of a
run are accepted by a deterministic automaton `δ`, and a postcondition
relates the final state of the computation to the state the automaton
is left in. The rules are one per constructor of a program (`pure`,
`bind`, `emit`, `fail`, the counted loops), so a proof follows the
text of the reader.
-/

namespace SexprWasm

/-- The events of a run in order, and its result. -/
def Emit (ε φ σ α : Type) : Type := σ → List ε × Except φ (α × σ)

namespace Emit

variable {ε φ σ α β π : Type}

protected def pure (a : α) : Emit ε φ σ α := fun s => ([], .ok (a, s))

protected def bind (m : Emit ε φ σ α) (f : α → Emit ε φ σ β) : Emit ε φ σ β := fun s =>
  match m s with
  | (es, .error e) => (es, .error e)
  | (es, .ok (a, s')) => (es ++ (f a s').1, (f a s').2)

instance : Monad (Emit ε φ σ) where
  pure := Emit.pure
  bind := Emit.bind

def emit (e : ε) : Emit ε φ σ Unit := fun s => ([e], .ok ((), s))

def fail (e : φ) : Emit ε φ σ α := fun _ => ([], .error e)

def get : Emit ε φ σ σ := fun s => ([], .ok (s, s))

def modify (f : σ → σ) : Emit ε φ σ Unit := fun s => ([], .ok ((), f s))

/-- `fail` unless the condition holds. -/
def check (c : Bool) (e : φ) : Emit ε φ σ Unit := if c then Emit.pure () else fail e

/-- `for (i = start; i < start + n; ++i) body(i)`. -/
def forFrom (body : Nat → Emit ε φ σ Unit) : Nat → Nat → Emit ε φ σ Unit
  | _, 0 => Emit.pure ()
  | i, n + 1 => (body i).bind fun _ => forFrom body (i + 1) n

/-- `n` runs of `m`, with their results in order. -/
def collect (m : Emit ε φ σ α) : Nat → Emit ε φ σ (List α)
  | 0 => Emit.pure []
  | n + 1 => m.bind fun a => (collect m n).bind fun as => Emit.pure (a :: as)

/-! ## Runs -/

@[simp] theorem pure_run (a : α) (s : σ) : (pure a : Emit ε φ σ α) s = ([], .ok (a, s)) := rfl

@[simp] theorem pure_run' (a : α) (s : σ) : (Emit.pure a : Emit ε φ σ α) s = ([], .ok (a, s)) :=
  rfl

@[simp] theorem emit_run (e : ε) (s : σ) : (emit e : Emit ε φ σ Unit) s = ([e], .ok ((), s)) :=
  rfl

@[simp] theorem fail_run (e : φ) (s : σ) : (fail e : Emit ε φ σ α) s = ([], .error e) := rfl

@[simp] theorem get_run (s : σ) : (get : Emit ε φ σ σ) s = ([], .ok (s, s)) := rfl

@[simp] theorem modify_run (f : σ → σ) (s : σ) :
    (modify f : Emit ε φ σ Unit) s = ([], .ok ((), f s)) := rfl

theorem bind_eq (m : Emit ε φ σ α) (f : α → Emit ε φ σ β) : m >>= f = m.bind f := rfl

theorem bind_bind {γ : Type} (m : Emit ε φ σ α) (f : α → Emit ε φ σ β) (g : β → Emit ε φ σ γ) :
    (m >>= f) >>= g = m >>= fun a => f a >>= g := by
  funext s
  simp only [bind_eq, Emit.bind]
  rcases m s with ⟨es, e | ⟨a, s'⟩⟩
  · rfl
  · rcases hf : f a s' with ⟨es', e | ⟨b, s''⟩⟩ <;> simp [hf]

theorem bind_ok {m : Emit ε φ σ α} {f : α → Emit ε φ σ β} {s s' : σ} {a : α} {es : List ε}
    (h : m s = (es, .ok (a, s'))) : (m.bind f) s = (es ++ (f a s').1, (f a s').2) := by
  simp only [Emit.bind, h]

theorem bind_error {m : Emit ε φ σ α} {f : α → Emit ε φ σ β} {s : σ} {e : φ} {es : List ε}
    (h : m s = (es, .error e)) : (m.bind f) s = (es, .error e) := by
  simp only [Emit.bind, h]

/-- A run of `m >>= f` that succeeds splits at the result of `m`. -/
theorem bind_eq_ok {m : Emit ε φ σ α} {f : α → Emit ε φ σ β} {s s'' : σ} {b : β} {es : List ε}
    (h : (m.bind f) s = (es, .ok (b, s''))) :
    ∃ a s' es₁ es₂, m s = (es₁, .ok (a, s')) ∧ f a s' = (es₂, .ok (b, s'')) ∧
      es = es₁ ++ es₂ := by
  rcases hm : m s with ⟨es₁, e | ⟨a, s'⟩⟩
  · rw [bind_error hm] at h
    cases h
  · rw [bind_ok hm] at h
    rw [Prod.mk.injEq] at h
    exact ⟨a, s', es₁, (f a s').1, rfl, Prod.ext rfl h.2, h.1.symm⟩

/-- What a successful iteration keeps, a successful loop keeps. -/
theorem forFrom_eq_ok {body : Nat → Emit ε φ σ Unit} {I : σ → Prop}
    (hbody : ∀ i s s' es u, I s → body i s = (es, .ok (u, s')) → I s') :
    ∀ {n i : Nat} {s s' : σ} {es : List ε} {u : Unit}, I s →
      forFrom body i n s = (es, .ok (u, s')) → I s'
  | 0, _, _, _, _, _, hs, h => by
      cases h
      exact hs
  | n + 1, i, s, s', es, u, hs, h => by
      obtain ⟨_, s₁, _, _, hfirst, hrest, -⟩ := bind_eq_ok h
      exact forFrom_eq_ok hbody (hbody i s s₁ _ _ hs hfirst) hrest

/-! ## Event automata -/

/-- The state of a deterministic automaton after a list of events. -/
def accept (δ : π → ε → Option π) : π → List ε → Option π
  | p, [] => some p
  | p, e :: es => (δ p e).bind fun p' => accept δ p' es

@[simp] theorem accept_nil (δ : π → ε → Option π) (p : π) : accept δ p [] = some p := rfl

theorem accept_cons (δ : π → ε → Option π) (p : π) (e : ε) (es : List ε) :
    accept δ p (e :: es) = (δ p e).bind fun p' => accept δ p' es := rfl

theorem accept_append (δ : π → ε → Option π) : ∀ (es₁ es₂ : List ε) (p : π),
    accept δ p (es₁ ++ es₂) = (accept δ p es₁).bind fun p' => accept δ p' es₂
  | [], _, _ => rfl
  | e :: es₁, es₂, p => by
      simp only [List.cons_append, accept_cons, Option.bind_assoc]
      congr 1
      funext p'
      exact accept_append δ es₁ es₂ p'

theorem accept_append_some {δ : π → ε → Option π} {es₁ es₂ : List ε} {p p' : π}
    (h : accept δ p es₁ = some p') : accept δ p (es₁ ++ es₂) = accept δ p' es₂ := by
  rw [accept_append, h, Option.bind_some]

/-- From automaton state `p`, the events of `m` run from `s` are accepted, and a
successful run ends with `Q` between its result, its state and the automaton's. -/
def Follows (δ : π → ε → Option π) (p : π) (m : Emit ε φ σ α) (s : σ)
    (Q : α → σ → π → Prop) : Prop :=
  ∃ p', accept δ p (m s).1 = some p' ∧ ∀ a s', (m s).2 = .ok (a, s') → Q a s' p'

namespace Follows

variable {δ : π → ε → Option π} {p p' : π} {s : σ}

theorem mono {m : Emit ε φ σ α} {Q Q' : α → σ → π → Prop} (h : Follows δ p m s Q)
    (hQ : ∀ a s' p', Q a s' p' → Q' a s' p') : Follows δ p m s Q' := by
  obtain ⟨p', hp, hq⟩ := h
  exact ⟨p', hp, fun a s' ha => hQ a s' p' (hq a s' ha)⟩

theorem pure {a : α} {Q : α → σ → π → Prop} (h : Q a s p) :
    Follows δ p (Emit.pure a : Emit ε φ σ α) s Q := by
  refine ⟨p, rfl, fun a' s' ha => ?_⟩
  cases ha
  exact h

theorem bind {m : Emit ε φ σ α} {f : α → Emit ε φ σ β} {Q : β → σ → π → Prop}
    (h : Follows δ p m s fun a s' p' => Follows δ p' (f a) s' Q) :
    Follows δ p (m.bind f) s Q := by
  obtain ⟨p', hp, hq⟩ := h
  rcases hm : m s with ⟨es, e | ⟨a, s'⟩⟩
  · rw [hm] at hp
    refine ⟨p', by rw [bind_error hm]; exact hp, fun b s'' hb => ?_⟩
    rw [bind_error hm] at hb
    cases hb
  · rw [hm] at hp
    obtain ⟨p'', hp'', hq'⟩ := hq a s' (by rw [hm])
    refine ⟨p'', ?_, fun b s'' hb => hq' b s'' ?_⟩
    · rw [bind_ok hm, accept_append_some hp]
      exact hp''
    · rw [bind_ok hm] at hb
      exact hb

theorem emit {e : ε} {Q : Unit → σ → π → Prop} (he : δ p e = some p') (h : Q () s p') :
    Follows δ p (Emit.emit e : Emit ε φ σ Unit) s Q := by
  refine ⟨p', by simp [accept_cons, he], fun a' s' ha => ?_⟩
  cases ha
  exact h

theorem fail {e : φ} {Q : α → σ → π → Prop} :
    Follows δ p (Emit.fail e : Emit ε φ σ α) s Q :=
  ⟨p, rfl, fun _ _ ha => by cases ha⟩

theorem get {Q : σ → σ → π → Prop} (h : Q s s p) :
    Follows δ p (Emit.get : Emit ε φ σ σ) s Q := by
  refine ⟨p, rfl, fun a' s' ha => ?_⟩
  cases ha
  exact h

theorem modify {f : σ → σ} {Q : Unit → σ → π → Prop} (h : Q () (f s) p) :
    Follows δ p (Emit.modify f : Emit ε φ σ Unit) s Q := by
  refine ⟨p, rfl, fun a' s' ha => ?_⟩
  cases ha
  exact h

theorem check {c : Bool} {e : φ} {Q : Unit → σ → π → Prop} (h : c = true → Q () s p) :
    Follows δ p (Emit.check c e : Emit ε φ σ Unit) s Q := by
  unfold Emit.check
  split
  · exact pure (h ‹_›)
  · exact fail

/-- The loop rule: `I i` holds before iteration `i`. -/
theorem forFrom {body : Nat → Emit ε φ σ Unit} {I : Nat → σ → π → Prop} {N : Nat}
    (hbody : ∀ i s p, i < N → I i s p →
      Follows δ p (body i) s fun _ s' p' => I (i + 1) s' p') :
    ∀ {n i : Nat} {s : σ} {p : π}, i + n = N → I i s p →
      Follows δ p (Emit.forFrom body i n) s fun _ s' p' => I N s' p'
  | 0, i, s, p, hN, h => by
      obtain rfl : i = N := by omega
      exact pure h
  | n + 1, i, s, p, hN, h =>
      bind ((hbody i s p (by omega) h).mono fun _ _ _ h' =>
        forFrom hbody (by omega) h')

/-- The rule for `collect`, with an invariant that does not count. -/
theorem collect {m : Emit ε φ σ α} {I : σ → π → Prop} {R : α → Prop}
    (hm : ∀ s p, I s p → Follows δ p m s fun a s' p' => R a ∧ I s' p') :
    ∀ {n : Nat} {s : σ} {p : π}, I s p →
      Follows δ p (Emit.collect m n) s fun as s' p' =>
        as.length = n ∧ (∀ a ∈ as, R a) ∧ I s' p'
  | 0, _, _, h => pure ⟨rfl, by simp, h⟩
  | n + 1, s, p, h => by
      refine bind ((hm s p h).mono fun a s' p' ⟨ha, h'⟩ => ?_)
      refine bind ((collect hm h').mono fun as s'' p'' ⟨hl, has, h''⟩ => ?_)
      refine pure ⟨by simp [hl], fun b hb => ?_, h''⟩
      rcases List.mem_cons.mp hb with rfl | hb
      · exact ha
      · exact has b hb

end Follows

end Emit

end SexprWasm
