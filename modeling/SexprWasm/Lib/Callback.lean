import SexprWasm.Lib.Emit

/-!
# Callbacks and the runs they drive

A callback reads and updates a client state and answers `ok` or
`error`; in C it may also fail an assertion or index out of range,
which is `abort`. `runEvents` hands a list of events to a step
function one after another and stops at the first that is not `ok`.

The rules at the end are the induction principles for such runs: an
invariant that each accepted event preserves holds of the state a run
ends in (`runEvents_invariant`), and a run that aborts does so at one
event, in a state reached by the events before it (`runEvents_abort`).
-/

namespace SexprWasm

/-- `error` keeps the state: what a failing callback changed stays changed. -/
inductive Outcome (σ α : Type) where
  | ok (a : α) (s : σ)
  | error (s : σ)
  | abort
  deriving DecidableEq

def Outcome.error? {σ α : Type} : Outcome σ α → Option σ
  | .error s => some s
  | _ => none

theorem Outcome.error?_eq_some {σ α : Type} {out : Outcome σ α} {s : σ} :
    out.error? = some s ↔ out = .error s := by
  cases out <;> simp [error?]

def Outcome.ok? {σ α : Type} : Outcome σ α → Option (α × σ)
  | .ok a s => some (a, s)
  | _ => none

theorem Outcome.ok?_eq_some {σ α : Type} {out : Outcome σ α} {a : α} {s : σ} :
    out.ok? = some (a, s) ↔ out = .ok a s := by
  cases out <;> simp [ok?]

/-- A computation of a callback. -/
def Callback (σ α : Type) : Type := σ → Outcome σ α

namespace Callback

variable {σ α β : Type}

protected def pure (a : α) : Callback σ α := fun s => .ok a s

protected def bind (m : Callback σ α) (f : α → Callback σ β) : Callback σ β := fun s =>
  match m s with
  | .ok a s' => f a s'
  | .error s' => .error s'
  | .abort => .abort

instance : Monad (Callback σ) where
  pure := Callback.pure
  bind := Callback.bind

/-- `return WASM_ERROR`. -/
def error : Callback σ α := fun s => .error s

/-- A failing `assert`, or an index out of range. -/
def abort : Callback σ α := fun _ => .abort

def get : Callback σ σ := fun s => .ok s s

def modify (f : σ → σ) : Callback σ Unit := fun s => .ok () (f s)

/-- `assert(c)`. -/
def assert (c : Bool) : Callback σ Unit := if c then Callback.pure () else abort

/-- `CHECK_RESULT` of a test that holds or reports an error. -/
def ensure (c : Bool) : Callback σ Unit := if c then Callback.pure () else error

def when (c : Bool) (m : Callback σ Unit) : Callback σ Unit := if c then m else Callback.pure ()

/-- Array access under an assertion on the index. -/
def orAbort : Option α → Callback σ α
  | some a => Callback.pure a
  | none => abort

/-- `body` over a list, in order. -/
def forEach (body : α → Callback σ Unit) : List α → Callback σ Unit
  | [] => Callback.pure ()
  | a :: as => (body a).bind fun _ => forEach body as

@[simp] theorem pure_run (a : α) (s : σ) : (pure a : Callback σ α) s = .ok a s := rfl

@[simp] theorem pure_run' (a : α) (s : σ) : (Callback.pure a : Callback σ α) s = .ok a s := rfl

@[simp] theorem error_run (s : σ) : (error : Callback σ α) s = .error s := rfl

@[simp] theorem abort_run (s : σ) : (abort : Callback σ α) s = .abort := rfl

@[simp] theorem get_run (s : σ) : (get : Callback σ σ) s = .ok s s := rfl

@[simp] theorem modify_run (f : σ → σ) (s : σ) :
    (modify f : Callback σ Unit) s = .ok () (f s) := rfl

@[simp] theorem orAbort_some_run (a : α) (s : σ) :
    (orAbort (some a) : Callback σ α) s = .ok a s := rfl

@[simp] theorem orAbort_none_run (s : σ) : (orAbort none : Callback σ α) s = .abort := rfl

theorem bind_run (m : Callback σ α) (f : α → Callback σ β) (s : σ) :
    (m >>= f) s = match m s with
      | .ok a s' => f a s'
      | .error s' => .error s'
      | .abort => .abort := rfl

@[simp] theorem assert_run (c : Bool) (s : σ) :
    (assert c : Callback σ Unit) s = if c then .ok () s else .abort := by
  unfold assert
  split <;> rfl

@[simp] theorem ensure_run (c : Bool) (s : σ) :
    (ensure c : Callback σ Unit) s = if c then .ok () s else .error s := by
  unfold ensure
  split <;> rfl

theorem bind_bind {γ : Type} (m : Callback σ α) (f : α → Callback σ β) (g : β → Callback σ γ) :
    (m >>= f) >>= g = m >>= fun a => f a >>= g := by
  funext s
  simp only [bind_run]
  cases m s <;> rfl

theorem foldlM_append (f : β → α → Callback σ β) : ∀ (as as' : List α) (b : β),
    (as ++ as').foldlM f b = as.foldlM f b >>= fun b => as'.foldlM f b
  | [], _, _ => rfl
  | a :: as, as', b => by
      rw [List.cons_append, List.foldlM_cons, List.foldlM_cons, bind_bind]
      congr 1
      funext b'
      exact foldlM_append f as as' b'

/-- The inversion of a successful `bind`. -/
theorem bind_eq_ok {m : Callback σ α} {f : α → Callback σ β} {s s'' : σ} {b : β} :
    (m >>= f) s = .ok b s'' ↔ ∃ a s', m s = .ok a s' ∧ f a s' = .ok b s'' := by
  rw [bind_run]
  constructor
  · intro h
    cases hm : m s with
    | ok a s' => exact ⟨a, s', rfl, by rw [hm] at h; exact h⟩
    | error s' => rw [hm] at h; cases h
    | abort => rw [hm] at h; cases h
  · rintro ⟨a, s', hm, hf⟩
    rw [hm]
    exact hf

/-- The inversion of an aborting `bind`. -/
theorem bind_eq_abort {m : Callback σ α} {f : α → Callback σ β} {s : σ} :
    (m >>= f) s = .abort ↔ m s = .abort ∨ ∃ a s', m s = .ok a s' ∧ f a s' = .abort := by
  rw [bind_run]
  constructor
  · intro h
    cases hm : m s with
    | ok a s' => exact .inr ⟨a, s', rfl, by rw [hm] at h; exact h⟩
    | error s' => rw [hm] at h; cases h
    | abort => exact .inl rfl
  · rintro (hm | ⟨a, s', hm, hf⟩)
    · rw [hm]
    · rw [hm]
      exact hf

@[simp] theorem assert_eq_ok {c : Bool} {s s' : σ} {u : Unit} :
    (assert c : Callback σ Unit) s = .ok u s' ↔ c = true ∧ s = s' := by
  cases c <;> simp

@[simp] theorem ensure_eq_ok {c : Bool} {s s' : σ} {u : Unit} :
    (ensure c : Callback σ Unit) s = .ok u s' ↔ c = true ∧ s = s' := by
  cases c <;> simp

@[simp] theorem orAbort_eq_ok {o : Option α} {s s' : σ} {a : α} :
    (orAbort o : Callback σ α) s = .ok a s' ↔ o = some a ∧ s = s' := by
  cases o <;> simp

/-! ## Weakest preconditions -/

/-- From `s`, `m` succeeds into `Q`, fails into `E`, or aborts and `A` holds. -/
def wp (m : Callback σ α) (Q : α → σ → Prop) (E : σ → Prop) (A : Prop) (s : σ) : Prop :=
  match m s with
  | .ok a s' => Q a s'
  | .error s' => E s'
  | .abort => A

section wp

variable {Q Q' : α → σ → Prop} {E E' : σ → Prop} {A A' : Prop} {s : σ}

theorem wp.mono {m : Callback σ α} (h : wp m Q E A s) (hQ : ∀ a s', Q a s' → Q' a s')
    (hE : ∀ s', E s' → E' s') (hA : A → A') : wp m Q' E' A' s := by
  unfold wp at h ⊢
  cases hm : m s with
  | ok a s' => rw [hm] at h; exact hQ a s' h
  | error s' => rw [hm] at h; exact hE s' h
  | abort => rw [hm] at h; exact hA h

theorem wp.of_ok {m : Callback σ α} {a : α} {s' : σ} (h : wp m Q E A s) (hm : m s = .ok a s') :
    Q a s' := by
  unfold wp at h
  rw [hm] at h
  exact h

theorem wp.of_error {m : Callback σ α} {s' : σ} (h : wp m Q E A s) (hm : m s = .error s') :
    E s' := by
  unfold wp at h
  rw [hm] at h
  exact h

theorem wp.of_abort {m : Callback σ α} (h : wp m Q E A s) (hm : m s = .abort) : A := by
  unfold wp at h
  rw [hm] at h
  exact h

/-- A program that can neither fail nor abort succeeds. -/
theorem wp.exists_ok {m : Callback σ α} (h : wp m Q (fun _ => False) False s) :
    ∃ a s', m s = .ok a s' ∧ Q a s' := by
  cases hm : m s with
  | ok a s' => exact ⟨a, s', rfl, h.of_ok hm⟩
  | error s' => exact (h.of_error hm).elim
  | abort => exact (h.of_abort hm).elim

@[simp] theorem wp_pure (a : α) : wp (pure a : Callback σ α) Q E A s ↔ Q a s := Iff.rfl

@[simp] theorem wp_pure' (a : α) : wp (Callback.pure a : Callback σ α) Q E A s ↔ Q a s := Iff.rfl

@[simp] theorem wp_bind {m : Callback σ α} {f : α → Callback σ β} {Q : β → σ → Prop} :
    wp (m >>= f) Q E A s ↔ wp m (fun a s' => wp (f a) Q E A s') E A s := by
  unfold wp
  rw [bind_run]
  cases m s <;> rfl

@[simp] theorem wp_error : wp (error : Callback σ α) Q E A s ↔ E s := Iff.rfl

@[simp] theorem wp_abort : wp (abort : Callback σ α) Q E A s ↔ A := Iff.rfl

@[simp] theorem wp_get {Q : σ → σ → Prop} : wp (get : Callback σ σ) Q E A s ↔ Q s s := Iff.rfl

@[simp] theorem wp_modify {f : σ → σ} {Q : Unit → σ → Prop} :
    wp (modify f) Q E A s ↔ Q () (f s) := Iff.rfl

@[simp] theorem wp_assert {c : Bool} {Q : Unit → σ → Prop} :
    wp (assert c) Q E A s ↔ (c = true → Q () s) ∧ (c = false → A) := by
  cases c <;> simp [assert]

@[simp] theorem wp_ensure {c : Bool} {Q : Unit → σ → Prop} :
    wp (ensure c) Q E A s ↔ (c = true → Q () s) ∧ (c = false → E s) := by
  cases c <;> simp [ensure]

@[simp] theorem wp_when {c : Bool} {m : Callback σ Unit} {Q : Unit → σ → Prop} :
    wp (when c m) Q E A s ↔ (c = true → wp m Q E A s) ∧ (c = false → Q () s) := by
  cases c <;> simp [when]

@[simp] theorem wp_orAbort {o : Option α} :
    wp (orAbort o) Q E A s ↔ (∀ a, o = some a → Q a s) ∧ (o = none → A) := by
  cases o <;> simp [orAbort]

theorem wp_ite {c : Prop} [Decidable c] {m m' : Callback σ α} :
    wp (if c then m else m') Q E A s ↔ (c → wp m Q E A s) ∧ (¬c → wp m' Q E A s) := by
  split <;> simp [*]

/-- The loop rule: `I` holds before each iteration and carries what is left to do. -/
theorem wp_forEach {body : α → Callback σ Unit} {I : List α → σ → Prop} {E : σ → Prop} {A : Prop}
    (hbody : ∀ a as s, I (a :: as) s → wp (body a) (fun _ => I as) E A s) :
    ∀ {as : List α} {s : σ}, I as s → wp (forEach body as) (fun _ => I []) E A s
  | [], _, h => h
  | a :: as, s, h => wp_bind.mpr ((hbody a as s h).mono (fun _ _ h' => wp_forEach hbody h')
      (fun _ => id) id)

end wp

/-- `m` keeps an invariant, whether it succeeds or fails. -/
class Preserves (J : σ → Prop) (m : Callback σ α) : Prop where
  wp : ∀ s, J s → wp m (fun _ => J) J True s

namespace Preserves

variable {J : σ → Prop}

instance pure (a : α) : Preserves J (Pure.pure a : Callback σ α) := ⟨fun _ h => h⟩

instance pure' (a : α) : Preserves J (Callback.pure a) := ⟨fun _ h => h⟩

instance bind {m : Callback σ α} {f : α → Callback σ β} [Preserves J m]
    [∀ a, Preserves J (f a)] : Preserves J (m >>= f) :=
  ⟨fun s h => wp_bind.mpr ((wp (m := m) s h).mono (fun a s' h' => wp (m := f a) s' h')
    (fun _ => id) id)⟩

instance get : Preserves J (Callback.get : Callback σ σ) := ⟨fun _ h => h⟩

instance error : Preserves J (Callback.error : Callback σ α) := ⟨fun _ h => h⟩

instance abort : Preserves J (Callback.abort : Callback σ α) := ⟨fun _ _ => trivial⟩

instance assert (c : Bool) : Preserves J (Callback.assert c : Callback σ Unit) :=
  ⟨fun _ h => wp_assert.mpr ⟨fun _ => h, fun _ => trivial⟩⟩

instance ensure (c : Bool) : Preserves J (Callback.ensure c : Callback σ Unit) :=
  ⟨fun _ h => wp_ensure.mpr ⟨fun _ => h, fun _ => h⟩⟩

instance orAbort (o : Option α) : Preserves J (Callback.orAbort o : Callback σ α) :=
  ⟨fun _ h => wp_orAbort.mpr ⟨fun _ _ => h, fun _ => trivial⟩⟩

instance when (c : Bool) (m : Callback σ Unit) [Preserves J m] : Preserves J (Callback.when c m) :=
  ⟨fun s h => wp_when.mpr ⟨fun _ => wp s h, fun _ => h⟩⟩

instance ite {c : Prop} [Decidable c] {m m' : Callback σ α} [Preserves J m] [Preserves J m'] :
    Preserves J (if c then m else m') :=
  ⟨fun s h => wp_ite.mpr ⟨fun _ => wp s h, fun _ => wp s h⟩⟩

instance forEach {body : α → Callback σ Unit} [∀ a, Preserves J (body a)] (as : List α) :
    Preserves J (Callback.forEach body as) :=
  ⟨fun _ h => wp_forEach (I := fun _ => J) (fun a _ s h' => wp (m := body a) s h') h⟩

theorem modify {f : σ → σ} (hf : ∀ s, J s → J (f s)) : Preserves J (Callback.modify f) := ⟨hf⟩

/-- `bind` for a program whose second part is still to be looked at. -/
theorem seq {m : Callback σ α} {f : α → Callback σ β} [Preserves J m]
    (hf : ∀ a, Preserves J (f a)) : Preserves J (m >>= f) := bind

/-- One step of a program whose first part keeps the invariant. -/
theorem bind_wp {m : Callback σ α} [hm : Preserves J m] {f : α → Callback σ β}
    {Q : β → σ → Prop} {s : σ} (h : J s)
    (hf : ∀ a s', J s' → Callback.wp (f a) Q J True s') :
    Callback.wp (m >>= f) Q J True s :=
  wp_bind.mpr ((hm.wp s h).mono hf (fun _ => id) id)

end Preserves

/-! ## What a callback leaves alone -/

/-- `m` keeps `view` of the state, whether it succeeds or fails. -/
abbrev Keeps {τ : Type} (view : σ → τ) (m : Callback σ α) : Prop :=
  ∀ v, Preserves (fun s => view s = v) m

namespace Keeps

variable {τ : Type} {view : σ → τ}

theorem modify {f : σ → σ} (hf : ∀ s, view (f s) = view s) :
    Keeps view (Callback.modify f) := fun _ => Preserves.modify fun s hs => (hf s).trans hs

theorem of_ok {m : Callback σ α} (hm : Keeps view m) {s s' : σ} {a : α} (h : m s = .ok a s') :
    view s' = view s :=
  ((hm (view s)).wp s rfl).of_ok h

theorem of_error {m : Callback σ α} (hm : Keeps view m) {s s' : σ} (h : m s = .error s') :
    view s' = view s :=
  ((hm (view s)).wp s rfl).of_error h

end Keeps

end Callback

/-! ## Runs over events -/

section Run

variable {ε σ π : Type} (step : ε → Callback σ Unit)

def runEvents : List ε → Callback σ Unit
  | [] => Callback.pure ()
  | e :: es => (step e).bind fun _ => runEvents es

@[simp] theorem runEvents_nil (s : σ) : runEvents step [] s = .ok () s := rfl

theorem runEvents_cons (e : ε) (es : List ε) (s : σ) :
    runEvents step (e :: es) s = match step e s with
      | .ok _ s' => runEvents step es s'
      | .error s' => .error s'
      | .abort => .abort := by
  rw [runEvents, Callback.bind]
  cases step e s <;> rfl

theorem runEvents_append : ∀ (es₁ es₂ : List ε) (s : σ),
    runEvents step (es₁ ++ es₂) s = match runEvents step es₁ s with
      | .ok _ s' => runEvents step es₂ s'
      | .error s' => .error s'
      | .abort => .abort
  | [], _, _ => rfl
  | e :: es₁, es₂, s => by
      rw [List.cons_append, runEvents_cons, runEvents_cons]
      cases step e s with
      | ok _ s' => exact runEvents_append es₁ es₂ s'
      | error s' => rfl
      | abort => rfl

theorem runEvents_append_ok {es₁ es₂ : List ε} {s s'' : σ} :
    runEvents step (es₁ ++ es₂) s = .ok () s'' ↔
      ∃ s', runEvents step es₁ s = .ok () s' ∧ runEvents step es₂ s' = .ok () s'' := by
  rw [runEvents_append]
  cases runEvents step es₁ s with
  | ok u s' => simp
  | error s' => simp
  | abort => simp

variable {step}

theorem runEvents_map {δ : Type} (f : δ → ε) : ∀ (es : List δ) (s : σ),
    runEvents step (es.map f) s = runEvents (fun e => step (f e)) es s
  | [], _ => rfl
  | e :: es, s => by
      rw [List.map_cons, runEvents_cons, runEvents_cons]
      cases step (f e) s with
      | ok _ s' => exact runEvents_map f es s'
      | error s' => rfl
      | abort => rfl

/-- Events that the step does nothing for may be left out. -/
theorem runEvents_filter {keep : ε → Bool} (hskip : ∀ e s, keep e = false → step e s = .ok () s) :
    ∀ (es : List ε) (s : σ), runEvents step (es.filter keep) s = runEvents step es s
  | [], _ => rfl
  | e :: es, s => by
      cases hkeep : keep e with
      | false =>
        rw [List.filter_cons_of_neg (by simp [hkeep]), runEvents_cons, hskip e s hkeep]
        exact runEvents_filter hskip es s
      | true =>
        rw [List.filter_cons_of_pos hkeep, runEvents_cons, runEvents_cons]
        cases step e s with
        | ok _ s' => exact runEvents_filter hskip es s'
        | error s' => rfl
        | abort => rfl

variable (step) in
/-- `P` holds of each step of the run that succeeds, in the state before the step. -/
def AllSteps (P : σ → ε → Prop) : List ε → σ → Prop
  | [], _ => True
  | e :: es, s =>
      match step e s with
      | .ok _ s' => P s e ∧ AllSteps P es s'
      | _ => True

variable (step) in
def AllSteps.decide {P : σ → ε → Prop} [∀ s e, Decidable (P s e)] :
    (es : List ε) → (s : σ) → Decidable (AllSteps step P es s)
  | [], _ => .isTrue trivial
  | e :: es, s => by
      unfold AllSteps
      exact match step e s with
      | .ok _ s' => @instDecidableAnd _ _ _ (AllSteps.decide es s')
      | .error _ => .isTrue trivial
      | .abort => .isTrue trivial

instance {P : σ → ε → Prop} [∀ s e, Decidable (P s e)] (es : List ε) (s : σ) :
    Decidable (AllSteps step P es s) := AllSteps.decide step es s

theorem allSteps_of_forall {P : σ → ε → Prop} (h : ∀ s e, P s e) : ∀ (es : List ε) (s : σ),
    AllSteps step P es s
  | [], _ => trivial
  | e :: es, s => by
      unfold AllSteps
      split
      · exact ⟨h s e, allSteps_of_forall h es _⟩
      · trivial

theorem allSteps_map {δ : Type} (f : δ → ε) {P : σ → ε → Prop} : ∀ (es : List δ) (s : σ),
    AllSteps step P (es.map f) s ↔ AllSteps (fun e => step (f e)) (fun s e => P s (f e)) es s
  | [], _ => Iff.rfl
  | e :: es, s => by
      rw [List.map_cons, AllSteps, AllSteps]
      cases step (f e) s with
      | ok _ s' => exact and_congr_right fun _ => allSteps_map f es s'
      | error s' => rfl
      | abort => rfl

/-- The invariant rule. `J` relates the state of an event automaton to the client's
state, `E` is what is claimed of the state a failing callback leaves, and `P` what is known
of the steps that succeed. -/
theorem runEvents_invariant {δ : π → ε → Option π} {J : π → σ → Prop} {E : σ → Prop}
    {P : σ → ε → Prop}
    (hstep : ∀ p p' e s, J p s → δ p e = some p' →
      (∀ s', step e s = .ok () s' → P s e → J p' s') ∧ (∀ s', step e s = .error s' → E s')) :
    ∀ {es : List ε} {p p' : π} {s : σ}, Emit.accept δ p es = some p' → J p s →
      AllSteps step P es s → (∀ s', runEvents step es s = .ok () s' → J p' s') ∧
        ∀ s', runEvents step es s = .error s' → E s'
  | [], p, p', s, hes, hJ, _ => by
      cases hes
      refine ⟨fun s' h => ?_, fun s' h => ?_⟩
      · cases h
        exact hJ
      · cases h
  | e :: es, p, p', s, hes, hJ, hall => by
      rw [Emit.accept_cons, Option.bind_eq_some_iff] at hes
      obtain ⟨p₁, hp₁, hes⟩ := hes
      obtain ⟨hok, herr⟩ := hstep p p₁ e s hJ hp₁
      unfold AllSteps at hall
      rw [runEvents_cons]
      cases he : step e s with
      | ok u s₁ =>
          rw [he] at hall
          exact runEvents_invariant hstep hes (hok s₁ he hall.1) hall.2
      | error s₁ =>
          refine ⟨fun s' h => ?_, fun s' h => ?_⟩
          · cases h
          · cases h
            exact herr s₁ he
      | abort =>
          refine ⟨fun s' h => ?_, fun s' h => ?_⟩
          · cases h
          · cases h

/-- A run aborts exactly when, after some of its events, the next one does. -/
theorem runEvents_eq_abort : ∀ {es : List ε} {s : σ},
    runEvents step es s = .abort ↔
      ∃ es₁ e es₂ s', es = es₁ ++ e :: es₂ ∧ runEvents step es₁ s = .ok () s' ∧
        step e s' = .abort
  | [], s => by simp
  | e :: es, s => by
      rw [runEvents_cons]
      constructor
      · intro h
        cases he : step e s with
        | ok u s₁ =>
            rw [he] at h
            obtain ⟨es₁, e', es₂, s', rfl, hrun, hab⟩ := runEvents_eq_abort.mp h
            exact ⟨e :: es₁, e', es₂, s', rfl, by rw [runEvents_cons, he]; exact hrun, hab⟩
        | error s₁ => rw [he] at h; cases h
        | abort => exact ⟨[], e, es, s, rfl, rfl, he⟩
      · rintro ⟨es₁, e', es₂, s', heq, hrun, hab⟩
        cases es₁ with
        | nil =>
            cases hrun
            cases heq
            rw [hab]
        | cons e₁ es₁ =>
            cases heq
            rw [runEvents_cons] at hrun
            cases he : step e s with
            | ok u s₁ =>
                rw [he] at hrun
                exact runEvents_eq_abort.mpr ⟨es₁, e', es₂, s', rfl, hrun, hab⟩
            | error s₁ => rw [he] at hrun; cases hrun
            | abort => rfl

end Run

end SexprWasm
