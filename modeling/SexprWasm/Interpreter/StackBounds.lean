import SexprWasm.Interpreter.HostCall
import SexprWasm.Lib.Turns

/-!
# The bounds of the stacks

What is known of a turn before it is taken: the instruction, the
function it calls, and whether its values or its call exceed what there
is room for (`ValueOverflow`, `CallOverflow`). With `RoomLeft` a turn
traps exactly where they do and both stacks stay in bounds, also after
the trap; without it `alloca` traps with the stack full or leaves its
top outside, and the trap of a host function is dropped.
-/

namespace SexprWasm

namespace Interpreter

namespace Machine

open Callback

/-! ## The next turn -/

/-- The next instruction. -/
def instruction? (m : Machine) : Option (WasmOpcode ⊕ InterpreterOpcode) :=
  match readU8 m with
  | .ok opcode _ =>
    match WasmOpcode.ofCode? opcode with
    | some op => some (.inl op)
    | none => (InterpreterOpcode.ofCode? opcode).map .inr
  | _ => none

/-- The function a `call_host` names. -/
def resolveHost : Exec Func := do
  let funcIndex ← readU32
  let m ← get
  orAbort m.env.funcs[funcIndex]?

/-- The function a `call_indirect` comes to. -/
def resolveIndirect : Exec Func := do
  let tableIndex ← readU32
  let sigIndex ← readU32
  let entryIndex ← popType .i32
  indirectFunc tableIndex sigIndex entryIndex.toNat

/-- What a `call_indirect` does with its function. -/
def callResolved : Func → Exec Unit
  | .host func => ignoreResult (callHost (.host func))
  | .defined func => do
    pushCall
    goto func.offset

/-- The function the next instruction finds, and the machine it calls it on. -/
def callee? (m : Machine) : Option (Func × Machine) :=
  match m.instruction? with
  | some (.inl .callIndirect) => ((do let _ ← readU8; resolveIndirect : Exec Func) m).ok?
  | some (.inr .callHost) => ((do let _ ← readU8; resolveHost : Exec Func) m).ok?
  | _ => none

/-- The next instruction calls a host function, on that machine. -/
def HostCall (m : Machine) (func : HostFunc) (m' : Machine) : Prop :=
  m.callee? = some (.host func, m')

/-- The number of locals the next instruction makes room for. -/
def AllocaOf (m : Machine) (count : Nat) : Prop :=
  m.instruction? = some (.inr .alloca) ∧
    ∃ m', (do let _ ← readU8; readU32 : Exec Nat) m = .ok count m'

/-- The calls the next instruction puts on the call stack. -/
def nextCalls (m : Machine) : Nat :=
  match m.instruction? with
  | some (.inl .callIndirect) =>
    match m.callee? with
    | some (.defined _, _) => 1
    | _ => 0
  | some (.inl op) => op.group.calls
  | _ => 0

/-- The height the next instruction comes to is over that of the stack. -/
def ValueOverflow (m : Machine) : Prop :=
  (∃ func m', m.HostCall func m' ∧ HostOverflow func m') ∨
  (∃ count, m.AllocaOf count ∧
    m.thread.valueStack.length < m.thread.valueStackTop + count) ∨
  (∃ op, m.instruction? = some (.inl op) ∧
    m.thread.valueStack.length + op.group.pops < m.thread.valueStackTop + op.group.pushes)

/-- The depth the next instruction comes to is over that of the call stack. -/
def CallOverflow (m : Machine) : Prop :=
  m.thread.callStack.length < m.thread.callStackTop + m.nextCalls

/-- Locals leave an entry free, and the results of host functions have room. -/
structure RoomLeft (m : Machine) : Prop where
  alloca : ∀ count, m.AllocaOf count →
    m.thread.valueStackTop + count < m.thread.valueStack.length
  host : ∀ func m', m.HostCall func m' → ¬HostOverflow func m'

variable {m m' : Machine} {op : WasmOpcode} {base valueSize callSize : Nat} {p : Platform}

theorem step_run (top : Nat) :
    step p top m =
      match m.instruction? with
      | some (.inl op) => (do let _ ← readU8; execute p top op : Exec Unit) m
      | some (.inr op) => (do let _ ← readU8; executeInterpreter op : Exec Unit) m
      | none => .abort := by
  have hstill := Still.readU8.wp m
  rw [step, instruction?, bind_run]
  rcases hread : readU8 m with ⟨opcode, m₁⟩ | m₁ | _
  · dsimp only
    rcases WasmOpcode.ofCode? opcode with _ | op
    · rcases InterpreterOpcode.ofCode? opcode with _ | op
      · rfl
      · simp [bind_run, hread]
    · simp [bind_run, hread]
  · exact (hstill.of_error hread).elim
  · rfl

theorem callHostFunc_eq : callHostFunc = (do ignoreResult (callHost (← resolveHost))) := by
  simp only [callHostFunc, resolveHost, bind_bind]

theorem callIndirect_eq : callIndirect = resolveIndirect >>= callResolved := by
  simp only [callIndirect, resolveIndirect, bind_bind]
  rfl

/-! ## One turn -/

section

variable {α : Type} {Q : α → Machine → Prop} {E : Machine → Prop} {top : Nat} {f g : Exec Unit}

/-- A program that begins with one that leaves the thread alone. -/
theorem Fits.still {f : Exec α} {β : Type} {g : α → Exec β} {Q : β → Machine → Prop} [hf : Still f]
    (h : m.Fits valueSize callSize base)
    (hg : ∀ a m', m'.Fits valueSize callSize base → m'.thread = m.thread → wp (g a) Q E True m') :
    wp (f >>= g) Q E True m :=
  wp_bind.mpr ((hf.wp m).mono (fun a m' hthread => hg a m' (h.congr hthread) hthread)
    (fun _ => False.elim) id)

theorem wp_ignoreResult {call : Exec Unit} {Q : Unit → Machine → Prop} {A : Prop} :
    wp (ignoreResult call) Q E A m ↔
      wp call Q (fun m' => Q () { m' with result := m.result }) A m := by
  unfold wp ignoreResult
  cases call m <;> rfl

theorem wp_popType {type : ValueType} {Q : BitVec type.bits → Machine → Prop}
    (hok : ∀ v, 1 ≤ m.thread.valueStackTop → Q v (m.setTop (m.thread.valueStackTop - 1))) :
    wp (popType type) Q E True m := by
  rw [popType, wp_bind]
  exact wp_pop fun v => hok _

theorem Fits.pop (h : m.Fits valueSize callSize base) :
    (m.setTop (m.thread.valueStackTop - 1)).Fits valueSize callSize base := by
  have hle := h.value_le
  exact h.setTop (by omega)

theorem wp_dropKeep (h : m.Fits valueSize callSize base) (drop keep : Nat) :
    wp (dropKeep drop keep) (fun _ m' => m'.Fits valueSize callSize base) (fun _ => False) True m := by
  have hdrop : ∀ m' : Machine, m'.Fits valueSize callSize base →
      wp (do
        let m ← get
        assert (drop ≤ m.thread.valueStackTop)
        modify fun m => m.setTop (m.thread.valueStackTop - drop) : Exec Unit)
        (fun _ m' => m'.Fits valueSize callSize base) (fun _ => False) True m' := by
    intro m' h'
    have hle := h'.value_le
    simp only [wp_bind, wp_get, wp_assert, wp_modify, implies_true, and_true]
    exact fun _ => h'.setTop (by omega)
  rw [dropKeep, wp_bind, wp_assert]
  refine ⟨fun _ => ?_, fun _ => trivial⟩
  dsimp only
  rw [wp_ite]
  refine ⟨fun _ => h.still fun v m' h' _ => ?_, fun _ => hdrop m h⟩
  exact wp_bind.mpr ((wp_setPick h' _ v).mono (fun _ m'' hok => hdrop m'' hok.1) (fun _ => id) id)

theorem wp_brTable (h : m.Fits valueSize callSize base) (top : Nat) :
    wp (execute p top .brTable) (fun _ m' => m'.Fits valueSize callSize base)
      (fun _ => False) True m := by
  refine h.still fun numTargets m₁ h₁ _ => h₁.still fun tableOffset m₂ h₂ _ => ?_
  refine wp_bind.mpr (wp_popType fun key _ => h₂.pop.still fun entry m₃ h₃ _ => ?_)
  obtain ⟨newPc, dropCount, keepCount⟩ := entry
  refine wp_bind.mpr ((wp_dropKeep h₃ dropCount keepCount).mono (fun _ m₄ h₄ => ?_) (fun _ => id) id)
  exact h₄.congr rfl

/-- The thread is left alone, and a trap is for another reason than a lack of room. -/
def Quiet (f : Exec α) : Prop :=
  ∀ m, wp f (fun _ m' => m'.thread = m.thread)
    (fun m' => m'.thread = m.thread ∧ m'.result ≠ .trapValueStackExhausted ∧
      m'.result ≠ .trapCallStackExhausted) True m

theorem Quiet.of_still {f : Exec α} [hf : Still f] : Quiet f := fun m =>
  (hf.wp m).mono (fun _ _ => id) (fun _ => False.elim) id

theorem Quiet.still {β : Type} {f : Exec α} {g : α → Exec β} [hf : Still f] (hg : ∀ a, Quiet (g a)) :
    Quiet (f >>= g) := fun m =>
  wp_bind.mpr ((hf.wp m).mono (fun a m' hthread => hthread ▸ hg a m') (fun _ => False.elim) id)

theorem Quiet.trap {result : Result} (hvalue : result ≠ .trapValueStackExhausted)
    (hcall : result ≠ .trapCallStackExhausted) : Quiet (Machine.trap result : Exec α) :=
  fun _ => ⟨rfl, hvalue, hcall⟩

theorem Quiet.trapIf {c : Bool} {result : Result} {g : Unit → Exec α}
    (hvalue : result ≠ .trapValueStackExhausted) (hcall : result ≠ .trapCallStackExhausted)
    (hg : Quiet (g ())) : Quiet (Machine.trapIf c result >>= g) := by
  intro m
  cases c with
  | false => exact hg m
  | true => exact trap hvalue hcall m

theorem indirectFunc_quiet (tableIndex sigIndex entryIndex : Nat) :
    Quiet (indirectFunc tableIndex sigIndex entryIndex) := by
  refine .still fun m => .still fun table => .still fun sig => ?_
  split
  · exact .trap (by decide) (by decide)
  · exact .trapIf (by decide) (by decide) <| .still fun func => .still fun funcSig =>
      .trapIf (by decide) (by decide) .of_still

theorem wp_resolveIndirect (h : m.Fits valueSize callSize base) :
    wp (do let _ ← readU8; resolveIndirect : Exec Func)
      (fun _ m' => m'.Fits valueSize callSize base ∧
        m'.thread.callStackTop = m.thread.callStackTop)
      (fun m' => m'.Fits valueSize callSize base ∧ m'.result ≠ .trapValueStackExhausted ∧
        m'.result ≠ .trapCallStackExhausted) True m := by
  refine h.still fun _ m₁ h₁ ht₁ => h₁.still fun tableIndex m₂ h₂ ht₂ => h₂.still fun sigIndex m₃ h₃ ht₃ => ?_
  refine wp_bind.mpr (wp_popType fun entryIndex _ => ?_)
  refine (indirectFunc_quiet tableIndex sigIndex _ _).mono (fun _ m' hthread => ?_)
    (fun m' herror => ⟨h₃.pop.congr herror.1, herror.2⟩) id
  refine ⟨h₃.pop.congr hthread, ?_⟩
  rw [hthread, ← ht₁, ← ht₂, ← ht₃]
  rfl

theorem wp_alloca (h : m.Fits valueSize callSize base) :
    wp (do let _ ← readU8; alloca : Exec Unit)
      (fun _ m' => m'.Fits valueSize callSize base)
      (fun _ => ∃ count m₁, (do let _ ← readU8; readU32 : Exec Nat) m = .ok count m₁ ∧
        valueSize ≤ m.thread.valueStackTop + count) True m := by
  have h8 := Still.readU8.wp m
  rw [wp, bind_run, bind_run]
  rcases hread : readU8 m with ⟨opcode, m₁⟩ | m₁ | _
  · have h32 := Still.readU32.wp m₁
    dsimp only
    rw [alloca, bind_run, get_run]
    dsimp only
    rw [bind_run]
    rcases hcount : readU32 m₁ with ⟨count, m₂⟩ | m₂ | _
    · have h₁ := h.congr (h8.of_ok hread)
      have h₂ := h₁.congr (h32.of_ok hcount)
      dsimp only
      rw [bind_run, modify_run]
      dsimp only
      refine wp_bind.mpr (wp_checkStack (fun hlt => ?_) fun hge => ?_)
      · have hlt : m₁.thread.valueStackTop + count < m₂.thread.valueStack.length := hlt
        have hlen := h₂.valueStack_length
        have htop : m₁.thread.valueStackTop + count ≤ valueSize := by omega
        refine ⟨?_, h₂.callStack_length, htop, h₂.base_le, h₂.call_le⟩
        refine (Buffer.length_writeAt ..).trans ?_
        rw [List.length_replicate]
        exact (Nat.max_eq_left (htop.trans_eq hlen.symm)).trans hlen
      · have hge : m₂.thread.valueStack.length ≤ m₁.thread.valueStackTop + count := hge
        rw [h₂.valueStack_length, h8.of_ok hread] at hge
        exact ⟨count, m₂, rfl, hge⟩
    · exact (h32.of_error hcount).elim
    · trivial
  · exact (h8.of_error hread).elim
  · trivial

instance Still.resolveHost : Still resolveHost := by
  unfold Machine.resolveHost
  infer_instance

/-! ## The turn -/

/-- What a turn from `m` does to the stacks. -/
def Bounded (valueSize callSize base : Nat) (m : Machine) (turn : Exec Unit) : Prop :=
  wp turn
    (fun _ m' => m'.Fits valueSize callSize base ∧
      (m.RoomLeft → ¬m.ValueOverflow ∧ ¬m.CallOverflow))
    (fun m' => m.RoomLeft → m'.Fits valueSize callSize base ∧
      (m'.result = .trapValueStackExhausted ↔ m.ValueOverflow) ∧
      (m'.result = .trapCallStackExhausted ↔ m.CallOverflow)) True m

theorem valueOverflow_inl (hop : m.instruction? = some (.inl op)) (hroom : m.RoomLeft) :
    m.ValueOverflow ↔ m.thread.valueStack.length + op.group.pops <
      m.thread.valueStackTop + op.group.pushes := by
  constructor
  · rintro (⟨func, m', hcall, hover⟩ | ⟨count, ⟨halloca, -⟩, -⟩ | ⟨op', hop', hlt⟩)
    · exact (hroom.host func m' hcall hover).elim
    · rw [hop] at halloca
      cases halloca
    · rw [hop] at hop'
      cases hop'
      exact hlt
  · exact fun hlt => .inr (.inr ⟨op, hop, hlt⟩)

theorem not_valueOverflow_inr {op : InterpreterOpcode} (hop : m.instruction? = some (.inr op))
    (hroom : m.RoomLeft) : ¬m.ValueOverflow := by
  rintro (⟨func, m', hcall, hover⟩ | ⟨count, halloca, hlt⟩ | ⟨op', hop', -⟩)
  · exact hroom.host func m' hcall hover
  · exact absurd (hroom.alloca count halloca) (by omega)
  · rw [hop] at hop'
    cases hop'

theorem nextCalls_inl (hop : m.instruction? = some (.inl op)) (hne : op ≠ .callIndirect) :
    m.nextCalls = op.group.calls := by
  rw [nextCalls, hop]
  split
  · rename_i hop'
    cases hop'
    exact absurd rfl hne
  · rename_i hop'
    cases hop'
    rfl
  · rename_i hop'
    exact absurd rfl (hop' op)

theorem nextCalls_inr {op : InterpreterOpcode} (hop : m.instruction? = some (.inr op)) :
    m.nextCalls = 0 := by
  rw [nextCalls, hop]

/-- A turn that cannot be short of room where `RoomLeft` holds. -/
theorem Bounded.of_room {turn : Exec Unit} (h : m.Fits valueSize callSize base)
    (hvalue : m.RoomLeft → ¬m.ValueOverflow) (hcalls : m.nextCalls = 0)
    (hturn : wp turn (fun _ m' => m'.Fits valueSize callSize base) (fun _ => ¬m.RoomLeft) True m) :
    Bounded valueSize callSize base m turn := by
  refine hturn.mono (fun _ m' hfits => ⟨hfits, fun hroom => ⟨hvalue hroom, ?_⟩⟩)
    (fun _ hnot hroom => absurd hroom hnot) id
  have hle := h.call_le
  rw [CallOverflow, hcalls, h.callStack_length]
  omega

theorem Bounded.of_fits {turn : Exec Unit} (h : m.Fits valueSize callSize base)
    (hvalue : m.RoomLeft → ¬m.ValueOverflow) (hcalls : m.nextCalls = 0)
    (hturn : wp turn (fun _ m' => m'.Fits valueSize callSize base) (fun _ => False) True m) :
    Bounded valueSize callSize base m turn :=
  .of_room h hvalue hcalls (hturn.mono (fun _ _ => id) (fun _ => False.elim) id)

theorem host_bounded {func : HostFunc} {turn : Exec Unit} (h : m.Fits valueSize callSize base)
    (h' : m'.Fits valueSize callSize base) (hvalue : m.RoomLeft → ¬m.ValueOverflow) (hcalls : m.nextCalls = 0)
    (hturn : turn m = ignoreResult (callHost (.host func)) m') :
    Bounded valueSize callSize base m turn := by
  refine .of_fits h hvalue hcalls ?_
  rw [wp, hturn]
  exact wp_ignoreResult.mpr ((wp_callHost func h').mono (fun _ m'' hok => hok.1)
    (fun m'' herror => herror.1.congr rfl) fun _ => trivial)

theorem callIndirect_bounded (h : m.Fits valueSize callSize base)
    (hop : m.instruction? = some (.inl .callIndirect)) :
    Bounded valueSize callSize base m (do let _ ← readU8; callIndirect) := by
  have hvalue : m.RoomLeft → ¬m.ValueOverflow := by
    intro hroom
    rw [valueOverflow_inl hop hroom, h.valueStack_length]
    have hle := h.value_le
    simp only [OpcodeGroup.pops, OpcodeGroup.pushes, WasmOpcode.group]
    omega
  have hlen := h.callStack_length
  have hle := h.call_le
  have hwp := wp_resolveIndirect h
  rw [callIndirect_eq, ← bind_bind]
  rcases hfunc : (do let _ ← readU8; resolveIndirect : Exec Func) m with ⟨func, m'⟩ | m' | _
  · obtain ⟨hfits, hdepth⟩ := hwp.of_ok hfunc
    have hcallee : m.callee? = some (func, m') := by
      rw [callee?, hop]
      exact Outcome.ok?_eq_some.mpr hfunc
    cases func with
    | host func =>
      have hturn : ((do let _ ← readU8; resolveIndirect : Exec Func) >>= callResolved) m =
          ignoreResult (callHost (.host func)) m' := by
        rw [bind_run, hfunc]
        rfl
      exact host_bounded h hfits hvalue (by rw [nextCalls, hop, hcallee]) hturn
    | defined func =>
      have hcalls : m.CallOverflow ↔ callSize < m.thread.callStackTop + 1 := by
        rw [CallOverflow, nextCalls, hop, hcallee, hlen]
      have hmoves : Moves base 0 0 0 1 (callResolved (.defined func)) :=
        .then_still pushCall_moves
      rw [Bounded, wp, bind_run, hfunc, hcalls, ← hdepth]
      refine (hmoves valueSize callSize m' hfits hfits.value_le).mono (fun _ m'' hok => ?_)
        (fun m'' herror hroom => ⟨herror.1, herror.2.1.trans ?_, herror.2.2⟩) id
      · exact ⟨hok.1, fun hroom => ⟨hvalue hroom, not_lt.mpr hok.2.2⟩⟩
      · exact iff_of_false (not_lt.mpr hfits.value_le) (hvalue hroom)
  · obtain ⟨hfits, htrap, htrap'⟩ := hwp.of_error hfunc
    have hcallee : m.callee? = none := by
      rw [callee?, hop]
      dsimp only
      rw [hfunc]
      rfl
    rw [Bounded, wp, bind_run, hfunc]
    refine fun hroom => ⟨hfits, iff_of_false htrap (hvalue hroom), iff_of_false htrap' ?_⟩
    rw [CallOverflow, nextCalls, hop, hcallee, hlen]
    exact not_lt.mpr hle
  · rw [Bounded, wp, bind_run, hfunc]
    trivial

theorem execute_bounded (p : Platform) (h : m.Fits valueSize callSize base)
    (hop : m.instruction? = some (.inl op)) :
    Bounded valueSize callSize base m (do let _ ← readU8; execute p base op) := by
  by_cases hindirect : op = .callIndirect
  · subst hindirect
    exact callIndirect_bounded h hop
  have hcalls := nextCalls_inl hop hindirect
  have hle := h.value_le
  by_cases htable : op = .brTable
  · subst htable
    refine .of_fits h (fun hroom => ?_) hcalls (h.still fun _ m' h' _ => wp_brTable h' base)
    rw [valueOverflow_inl hop hroom, h.valueStack_length]
    simp only [OpcodeGroup.pops, OpcodeGroup.pushes, WasmOpcode.group]
    omega
  have hmoves : Moves base 0 op.group.pops op.group.pushes op.group.calls
      (do let _ ← readU8; execute p base op) := .still fun _ => execute_moves p htable hindirect
  rw [Bounded, CallOverflow, hcalls, h.callStack_length]
  refine (hmoves valueSize callSize m h hle).mono (fun _ m' hok => ?_) (fun m' herror hroom => ?_) id
  · refine ⟨hok.1, fun hroom => ⟨?_, not_lt.mpr hok.2.2⟩⟩
    have hfits := hok.1.value_le
    rw [valueOverflow_inl hop hroom, h.valueStack_length]
    omega
  · rw [valueOverflow_inl hop hroom, h.valueStack_length]
    exact herror

theorem executeInterpreter_bounded {op : InterpreterOpcode} (h : m.Fits valueSize callSize base)
    (hop : m.instruction? = some (.inr op)) :
    Bounded valueSize callSize base m (do let _ ← readU8; executeInterpreter op) := by
  have hvalue : m.RoomLeft → ¬m.ValueOverflow := not_valueOverflow_inr hop
  have hcalls := nextCalls_inr hop
  cases op with
  | alloca =>
    refine .of_room h hvalue hcalls ((wp_alloca h).mono (fun _ _ => id) (fun _ herror hroom => ?_) id)
    obtain ⟨count, m₁, hcount, hge⟩ := herror
    have hlt := hroom.alloca count ⟨hop, m₁, hcount⟩
    rw [h.valueStack_length] at hlt
    omega
  | brUnless =>
    refine .of_fits h hvalue hcalls ?_
    refine h.still fun _ m₁ h₁ _ => h₁.still fun newPc m₂ h₂ _ => wp_bind.mpr (wp_popType fun v _ => ?_)
    rw [wp_ite]
    exact ⟨fun _ => h₂.pop.congr rfl, fun _ => h₂.pop⟩
  | callHost =>
    refine .of_fits h hvalue hcalls (h.still fun _ m₁ h₁ _ => ?_)
    rw [executeInterpreter, callHostFunc_eq]
    refine h₁.still fun func m₂ h₂ _ => wp_ignoreResult.mpr ?_
    cases func with
    | defined func => trivial
    | host func =>
      exact (wp_callHost func h₂).mono (fun _ _ => And.left) (fun _ herror => herror.1.congr rfl)
        fun _ => trivial
  | data => exact .of_fits h hvalue hcalls (h.still fun _ _ _ _ => trivial)
  | dropKeep =>
    exact .of_fits h hvalue hcalls <| h.still fun _ _ h₁ _ => h₁.still fun dropCount _ h₂ _ =>
      h₂.still fun keepCount _ h₃ _ => wp_dropKeep h₃ dropCount keepCount

/-- The step of the invariant, and what a trap means. -/
theorem step_bounded (p : Platform) (h : m.Fits valueSize callSize base) :
    Bounded valueSize callSize base m (step p base) := by
  rw [Bounded, wp, step_run]
  rcases hop : m.instruction? with _ | op | op
  · trivial
  · exact execute_bounded p h hop
  · exact executeInterpreter_bounded h hop

/-! ## The run -/

theorem loop_eq_turns (p : Platform) (top numInstructions : Nat) :
    loop p top numInstructions =
      Turns.loop (step p top) (fun m => m.result = .ok) numInstructions := by
  induction numInstructions with
  | zero => rfl
  | succ numInstructions ih => simp only [loop, Turns.loop, ih]

/-- The machines `wasm_run_interpreter` takes its turns from. -/
def turns (p : Platform) (numInstructions top : Nat) (m : Machine) : List Machine :=
  Turns.states (step p top) (fun m => m.result = .ok) numInstructions
    { m with result := .ok, pc := m.thread.pc }

/-- The turn that traps is the last, and what it returns is what the run returns. -/
theorem runInterpreter_eq_error {t t' : Machine} {top numInstructions : Nat}
    (hassert : top < m.thread.callStack.length) (ht : t ∈ m.turns p numInstructions top)
    (hstep : step p top t = .error t') : runInterpreter p numInstructions top m = .error t' := by
  have hloop := Turns.loop_eq_error ht hstep
  rw [← loop_eq_turns] at hloop
  rw [runInterpreter, bind_run, modify_run]
  dsimp only
  rw [bind_run, get_run]
  dsimp only
  rw [bind_run, assert_run, decide_eq_true hassert, if_pos rfl]
  dsimp only
  rw [bind_run, modify_run]
  dsimp only
  rw [bind_run, hloop]

theorem turns_fit (h : m.Fits valueSize callSize base) {t : Machine} {numInstructions : Nat}
    (ht : t ∈ m.turns p numInstructions base) : t.Fits valueSize callSize base := by
  have hturn : ∀ t : Machine, t.Fits valueSize callSize base → True →
      wp (step p base) (fun _ t' => t'.Fits valueSize callSize base) (fun _ => True) True t :=
    fun t ht _ => (step_bounded p ht).mono (fun _ _ => And.left) (fun _ _ => trivial) id
  have hstart : Fits valueSize callSize base { m with result := .ok, pc := m.thread.pc } :=
    h.congr rfl
  exact (Turns.invariant hturn numInstructions _ hstart fun _ _ => trivial).1 t ht

theorem AllocaOf.unique {count count' : Nat} (h : m.AllocaOf count) (h' : m.AllocaOf count') :
    count = count' := by
  obtain ⟨-, m₁, hcount⟩ := h
  obtain ⟨-, m₂, hcount'⟩ := h'
  cases hcount.symm.trans hcount'
  rfl

theorem Fits.hostCall {func : HostFunc} (h : m.Fits valueSize callSize base)
    (hcall : m.HostCall func m') : m'.Fits valueSize callSize base := by
  rw [HostCall, callee?] at hcall
  split at hcall
  · exact ((wp_resolveIndirect h).of_ok (Outcome.ok?_eq_some.mp hcall)).1
  · exact h.congr ((Still.wp m).of_ok (Outcome.ok?_eq_some.mp hcall))
  · cases hcall

theorem step_of_hostCall {func : HostFunc} {top : Nat} (hcall : m.HostCall func m') :
    step p top m = ignoreResult (callHost (.host func)) m' := by
  rw [HostCall, callee?] at hcall
  rw [step_run]
  split at hcall
  · rename_i hop
    rw [hop]
    dsimp only
    change (readU8 >>= fun _ => callIndirect) m = _
    rw [callIndirect_eq, ← bind_bind, bind_run, Outcome.ok?_eq_some.mp hcall]
    rfl
  · rename_i hop
    rw [hop]
    dsimp only
    change (readU8 >>= fun _ => callHostFunc) m = _
    rw [callHostFunc_eq, ← bind_bind, bind_run, Outcome.ok?_eq_some.mp hcall]
  · cases hcall

end

end Machine

end Interpreter

end SexprWasm
