import SexprWasm.Lib.Callback

/-!
# Runs with their history

What an event means can depend on the ones before it and on the states
they met. `history` keeps both. An invariant may speak of the history
(`runEvents_history`); it holds in front of every event of a run that
succeeds (`history_at`).
-/

namespace SexprWasm

variable {ε σ π : Type} {step : ε → Callback σ Unit}

variable (step) in
/-- The events of a run that succeeds, each with the state before it. -/
def history : List ε → σ → List (σ × ε)
  | [], _ => []
  | e :: es, s => (s, e) ::
    match step e s with
    | .ok _ s' => history es s'
    | _ => []

theorem history_map {δ : Type} (f : δ → ε) : ∀ (es : List δ) (s : σ),
    history step (es.map f) s =
      (history (fun e => step (f e)) es s).map fun read => (read.1, f read.2)
  | [], _ => rfl
  | e :: es, s => by
      rw [List.map_cons, history, history, List.map_cons]
      rcases step (f e) s with ⟨u, s'⟩ | s' | _
      · exact congrArg ((s, f e) :: ·) (history_map f es s')
      · rfl
      · rfl

theorem history_events : ∀ {es : List ε} {s s' : σ}, runEvents step es s = .ok () s' →
    (history step es s).map Prod.snd = es
  | [], _, _, _ => rfl
  | e :: es, s, s', hrun => by
      rw [runEvents_cons] at hrun
      rw [history, List.map_cons]
      rcases he : step e s with ⟨u, s₁⟩ | s₁ | _
      · rw [he] at hrun
        exact congrArg (e :: ·) (history_events hrun)
      · rw [he] at hrun
        cases hrun
      · rw [he] at hrun
        cases hrun

/-- The invariant rule with the history so far. -/
theorem runEvents_history {δ : π → ε → Option π} {J : List (σ × ε) → π → σ → Prop}
    (hstep : ∀ h p p' e s s', J h p s → δ p e = some p' → step e s = .ok () s' →
      J (h ++ [(s, e)]) p' s') :
    ∀ {es : List ε} {h : List (σ × ε)} {p p' : π} {s s' : σ}, Emit.accept δ p es = some p' →
      J h p s → runEvents step es s = .ok () s' → J (h ++ history step es s) p' s'
  | [], h, p, p', s, s', hes, hJ, hrun => by
      cases hes
      cases hrun
      rwa [history, List.append_nil]
  | e :: es, h, p, p', s, s', hes, hJ, hrun => by
      rw [Emit.accept_cons, Option.bind_eq_some_iff] at hes
      obtain ⟨p₁, hp₁, hes⟩ := hes
      rw [runEvents_cons] at hrun
      rw [history]
      rcases he : step e s with ⟨u, s₁⟩ | s₁ | _
      · rw [he] at hrun
        have hnext := runEvents_history hstep hes (hstep h p p₁ e s s₁ hJ hp₁ he) hrun
        rwa [List.append_assoc] at hnext
      · rw [he] at hrun
        cases hrun
      · rw [he] at hrun
        cases hrun

/-- The invariant in front of an event, with the step the event takes. -/
theorem history_at {δ : π → ε → Option π} {J : List (σ × ε) → π → σ → Prop}
    (hstep : ∀ h p p' e s s', J h p s → δ p e = some p' → step e s = .ok () s' →
      J (h ++ [(s, e)]) p' s')
    {es₁ es₂ : List ε} {e : ε} {p p' : π} {s s' : σ}
    (hes : Emit.accept δ p (es₁ ++ e :: es₂) = some p') (hJ : J [] p s)
    (hrun : runEvents step (es₁ ++ e :: es₂) s = .ok () s') :
    ∃ p₁ p₂ s₁ s₂, J (history step es₁ s) p₁ s₁ ∧ δ p₁ e = some p₂ ∧
      runEvents step es₁ s = .ok () s₁ ∧ step e s₁ = .ok () s₂ := by
  rw [Emit.accept_append, Option.bind_eq_some_iff] at hes
  obtain ⟨p₁, hes₁, hes⟩ := hes
  rw [Emit.accept_cons, Option.bind_eq_some_iff] at hes
  obtain ⟨p₂, hp₂, -⟩ := hes
  obtain ⟨s₁, hrun₁, hrun⟩ := (runEvents_append_ok step).mp hrun
  rw [runEvents_cons] at hrun
  have hJ₁ := runEvents_history hstep hes₁ hJ hrun₁
  rw [List.nil_append] at hJ₁
  rcases he : step e s₁ with ⟨u, s₂⟩ | s₂ | _
  · exact ⟨p₁, p₂, s₁, s₂, hJ₁, hp₂, hrun₁, he⟩
  · rw [he] at hrun
    cases hrun
  · rw [he] at hrun
    cases hrun

end SexprWasm
