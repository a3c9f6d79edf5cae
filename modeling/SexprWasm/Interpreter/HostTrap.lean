import SexprWasm.Interpreter.StackBounds

/-!
# What becomes of the trap of a host function

`HostCallMeets` is what is expected of a turn that calls a host
function: the parameters are replaced by the results, or the run ends
with the trap `wasm_call_host` reports. As its status is dropped, that
holds exactly of the calls that do not trap (`HostCallSucceeds`); the
others go on with the parameters, and some of the results, missing.
-/

namespace SexprWasm

namespace Interpreter

namespace Machine

open Callback

/-- `m` is the machine the turn is taken from, and `m'` the one the function is called on. -/
def HostCallMeets (p : Platform) (top : Nat) (m : Machine) (func : HostFunc) (m' : Machine) : Prop :=
  match callHost (.host func) m' with
  | .ok _ _ => ∃ sig vs args results m'', m'.env.sigs[func.sigIndex]? = some sig ∧
      m'.Holds (vs ++ args) ∧ args.length = sig.paramTypes.length ∧
      func.callback sig (hostArgs sig args) = some results ∧
      step p top m = .ok () m'' ∧ m''.Holds (vs ++ results.map (·.value)) ∧
      results.map (·.type) = sig.resultTypes.map ValueType.toType
  | .error m'' => step p top m = .error m''
  | .abort => True

/-- The callback succeeds with results of the declared types, which there is room for. -/
def HostCallSucceeds (func : HostFunc) (m : Machine) : Prop :=
  ∀ sig vs args, m.env.sigs[func.sigIndex]? = some sig → m.Holds (vs ++ args) →
    args.length = sig.paramTypes.length →
    ∃ results, func.callback sig (hostArgs sig args) = some results ∧
      results.map (·.type) = sig.resultTypes.map ValueType.toType ∧
      vs.length + results.length ≤ m.thread.valueStack.length

variable {m m' : Machine} {func : HostFunc} {sig : FuncSignature} {vs args : List Nat}
  {base valueSize callSize : Nat} {p : Platform}

theorem popArgs_holds (h : m.Holds (vs ++ args)) (hlen : args.length = sig.paramTypes.length) :
    popArgs sig.paramTypes.reverse [] m = .ok (hostArgs sig args) (m.setTop vs.length) := by
  have h' : m.Holds (vs ++ args.reverse.reverse) := by rwa [List.reverse_reverse]
  rw [popArgs_run [] h' (by rw [List.length_reverse, List.length_reverse, hlen]), List.append_nil,
    ← List.reverse_zipWith hlen.symm, List.reverse_reverse]
  rfl

/-- The values in use, with the parameters apart. -/
theorem Fits.split (h : m.Fits valueSize callSize base) {n : Nat}
    (hle : n ≤ m.thread.valueStackTop) : ∃ vs args, m.Holds (vs ++ args) ∧ args.length = n := by
  have hholds := h.holds
  have hlen := hholds.top_eq
  rw [← List.take_append_drop (m.thread.valueStackTop - n)
    (m.thread.valueStack.take m.thread.valueStackTop)] at hholds
  refine ⟨_, _, hholds, ?_⟩
  rw [List.length_drop, ← hlen]
  omega

/-- The call, by the values in use. -/
theorem callHost_holds (hsig : m.env.sigs[func.sigIndex]? = some sig)
    (hholds : m.Holds (vs ++ args)) (hlen : args.length = sig.paramTypes.length) :
    callHost (.host func) m =
      match func.callback sig (hostArgs sig args) with
      | none => .error { m.setTop vs.length with result := .trapHostTrapped }
      | some results => pushResults sig.resultTypes results (m.setTop vs.length) :=
  callHost_run hsig (popArgs_holds hholds hlen)

theorem hostCallMeets_iff {top : Nat} (h : m'.Fits valueSize callSize base)
    (hcall : m.HostCall func m') (hfills : func.Fills) :
    HostCallMeets p top m func m' ↔ HostCallSucceeds func m' := by
  have hstep : step p top m = ignoreResult (callHost (.host func)) m' := step_of_hostCall hcall
  rw [ignoreResult] at hstep
  constructor
  · intro hmeets sig vs args hsig hholds hlen
    have hrun := callHost_holds hsig hholds hlen
    rcases hcallback : func.callback sig (hostArgs sig args) with _ | results
    · -- the trap would have to end the turn
      rw [hcallback] at hrun
      rw [HostCallMeets, hrun] at hmeets
      rw [hrun, hmeets] at hstep
      cases hstep
    · have hcount := hfills sig _ results hcallback
      rw [hcallback] at hrun
      dsimp only at hrun
      have hroom : (m'.setTop vs.length).thread.valueStackTop ≤
          (m'.setTop vs.length).thread.valueStack.length :=
        (List.length_append ▸ Nat.le_add_right _ _).trans hholds.length_le
      rcases hpush : pushResults sig.resultTypes results (m'.setTop vs.length) with
        ⟨u, m₁⟩ | m₁ | _
      · obtain ⟨htypes, hle⟩ := pushResults_eq_ok hcount hroom hpush
        exact ⟨results, rfl, htypes, hle⟩
      · rw [hpush] at hrun
        rw [HostCallMeets, hrun] at hmeets
        rw [hrun, hmeets] at hstep
        cases hstep
      · exact absurd hpush (pushResults_ne_abort hcount)
  · intro hsucceeds
    rcases hsig : m'.env.sigs[func.sigIndex]? with _ | sig
    · have habort := callHost_abort fun sig hsome => by rw [hsig] at hsome; cases hsome
      rw [HostCallMeets, habort.1]
      trivial
    rcases Nat.lt_or_ge m'.thread.valueStackTop sig.paramTypes.length with hlt | hle
    · have habort := callHost_abort fun sig' hsome => by
        rw [hsig] at hsome
        cases hsome
        exact popArgs_abort [] (by rwa [List.length_reverse])
      rw [HostCallMeets, habort.1]
      trivial
    · obtain ⟨vs, args, hholds, hlen⟩ := h.split hle
      obtain ⟨results, hcallback, htypes, hroom⟩ := hsucceeds sig vs args hsig hholds hlen
      have hrun := callHost_holds hsig hholds hlen
      rw [hcallback] at hrun
      dsimp only at hrun
      obtain ⟨m'', hpush, hheld, -⟩ := pushResults_run hholds.setTop htypes hroom
      rw [hpush] at hrun
      rw [hrun] at hstep
      rw [HostCallMeets, hrun]
      exact ⟨sig, vs, args, results, m'', hsig, hholds, hlen, hcallback, hstep, hheld, htypes⟩

theorem runInterpreter_hostCalls (p : Platform) (numInstructions : Nat)
    (h : m.Fits valueSize callSize base) (hassert : base < callSize) :
    ∀ t ∈ m.turns p numInstructions base,
      (∀ func m', t.HostCall func m' → func.Fills →
        (HostCallMeets p base t func m' ↔ HostCallSucceeds func m')) ∧
      ∀ t', step p base t = .error t' → runInterpreter p numInstructions base m = .error t' := by
  intro t ht
  refine ⟨fun func m' hcall hfills => ?_, fun t' hstep => ?_⟩
  · exact hostCallMeets_iff ((turns_fit h ht).hostCall hcall) hcall hfills
  · exact runInterpreter_eq_error (h.callStack_length ▸ hassert) ht hstep

/-- A function of one result that is called by the only instruction. -/
def hostFunc (callback : HostFuncCallback) : HostFunc := ⟨0, [], [], callback⟩

def callsHost (callback : HostFuncCallback) : Machine where
  env :=
    { sigs := [⟨[], [.i32]⟩]
      funcs := [.host (hostFunc callback)]
      istream := UInt8.ofNat InterpreterOpcode.callHost.code :: Buffer.leBytes 4 0 }
  thread := { valueStack := [0], callStack := [0], pc := 0 }

theorem callsHost_fits (callback : HostFuncCallback) : (callsHost callback).Fits 1 1 0 :=
  ⟨rfl, rfl, Nat.zero_le _, le_rfl, Nat.zero_le _⟩

/-- Every result is 7. -/
def answer : HostFuncCallback := fun sig _ =>
  some (sig.resultTypes.map fun type => ⟨type.toType, 7⟩)

theorem answer_fills : (hostFunc answer).Fills := by
  rintro sig args results ⟨⟩
  exact List.length_map _

theorem runInterpreter_hostCalls_answer :
    ∃ m', (callsHost answer).HostCall (hostFunc answer) m' ∧
      (HostCallMeets Platform.null 0 (callsHost answer) (hostFunc answer) m' ↔
        HostCallSucceeds (hostFunc answer) m') :=
  ⟨_, rfl, (runInterpreter_hostCalls Platform.null 1 (callsHost_fits answer) (by decide) _
    List.mem_cons_self).1 _ _ rfl answer_fills⟩

/-- The callback fails, and the run goes on without a result. -/
theorem runInterpreter_hostTrapped :
    ∃ m' m'', (callsHost fun _ _ => none).HostCall (hostFunc fun _ _ => none) m' ∧
      ¬HostCallMeets Platform.null 0 (callsHost fun _ _ => none) (hostFunc fun _ _ => none) m' ∧
      runInterpreter Platform.null 1 0 (callsHost fun _ _ => none) = .ok () m'' ∧
      m''.result = .ok ∧ m''.thread.valueStackTop = 0 := by
  refine ⟨_, _, rfl, fun hmeets => ?_, rfl, rfl, rfl⟩
  cases hmeets

end Machine

end Interpreter

end SexprWasm
