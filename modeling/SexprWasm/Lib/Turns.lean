import SexprWasm.Lib.Callback

/-!
# Loops that take turns

A loop that takes up to `n` turns and ends early when one fails or
leaves a state in which it is no longer to run. `states` are the states
its turns are taken from. What each turn preserves under a condition
holds in all of them and at the end if they all meet the condition
(`invariant`), and the turn that fails is the last (`loop_eq_error`).
-/

namespace SexprWasm

namespace Turns

open Callback

variable {σ : Type} {step : Callback σ Unit} {running : σ → Bool}

variable (step running) in
def loop : Nat → Callback σ Unit
  | 0 => return
  | n + 1 => do
    step
    let s ← get
    when (running s) (loop n)

variable (step running) in
/-- The states before the turns. -/
def states : Nat → σ → List σ
  | 0, _ => []
  | n + 1, s => s ::
    match step s with
    | .ok _ s' => if running s' then states n s' else []
    | _ => []

/-- A loop goes on from the state a turn leaves. -/
theorem states_of_ok {n : Nat} {s s' : σ} (hstep : step s = .ok () s') :
    states step running (n + 1) s = s :: if running s' then states step running n s' else [] := by
  rw [states, hstep]

theorem invariant {I C E : σ → Prop}
    (hturn : ∀ s, I s → C s → wp step (fun _ => I) E True s) :
    ∀ (n : Nat) (s : σ), I s → (∀ t ∈ states step running n s, C t) →
      (∀ t ∈ states step running n s, I t) ∧ wp (loop step running n) (fun _ => I) E True s
  | 0, s, hI, _ => ⟨fun _ ht => (List.not_mem_nil ht).elim, hI⟩
  | n + 1, s, hI, hC => by
      have hwp := hturn s hI (hC s List.mem_cons_self)
      cases hstep : step s with
      | ok u s' =>
          have hI' : I s' := hwp.of_ok hstep
          rw [states_of_ok hstep] at hC ⊢
          have hloop : loop step running (n + 1) s = when (running s') (loop step running n) s' := by
            rw [loop, bind_run, hstep]
            rfl
          rw [wp, hloop]
          cases hrunning : running s' with
          | false => exact ⟨fun t ht => (List.mem_singleton.mp ht) ▸ hI, hI'⟩
          | true =>
              rw [hrunning, if_pos rfl] at hC
              obtain ⟨hstates, hend⟩ := invariant hturn n s' hI' fun t ht =>
                hC t (List.mem_cons_of_mem _ ht)
              refine ⟨fun t ht => ?_, hend⟩
              rcases List.mem_cons.mp ht with rfl | ht
              · exact hI
              · exact hstates t ht
      | error s' =>
          have hE : E s' := hwp.of_error hstep
          rw [wp, loop, bind_run, hstep]
          refine ⟨fun t ht => ?_, hE⟩
          rw [states, hstep] at ht
          exact (List.mem_singleton.mp ht) ▸ hI
      | abort =>
          rw [wp, loop, bind_run, hstep]
          refine ⟨fun t ht => ?_, trivial⟩
          rw [states, hstep] at ht
          exact (List.mem_singleton.mp ht) ▸ hI

/-- The turn that fails is the last. -/
theorem loop_eq_error : ∀ {n : Nat} {s t t' : σ}, t ∈ states step running n s →
    step t = .error t' → loop step running n s = .error t'
  | 0, _, _, _, ht, _ => (List.not_mem_nil ht).elim
  | n + 1, s, t, t', ht, hfail => by
      rw [loop, bind_run]
      rcases List.mem_cons.mp ht with rfl | ht
      · rw [hfail]
      · cases hstep : step s with
        | ok u s' =>
            rw [hstep] at ht
            dsimp only at ht ⊢
            rw [bind_run, get_run]
            dsimp only
            cases hrunning : running s' with
            | false =>
                rw [hrunning] at ht
                exact (List.not_mem_nil ht).elim
            | true =>
                rw [hrunning] at ht
                exact loop_eq_error ht hfail
        | error s' =>
            rw [hstep] at ht
            exact (List.not_mem_nil ht).elim
        | abort =>
            rw [hstep] at ht
            exact (List.not_mem_nil ht).elim

end Turns

end SexprWasm
