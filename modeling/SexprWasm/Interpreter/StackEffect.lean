import SexprWasm.Interpreter.MachineSound

/-!
# What the instructions do to the stacks

`Moves base free pops pushes calls f` says that `f`, with at least
`free` entries free, takes so many values off and puts so many values
and calls on: where it succeeds the height is what that comes to, and it
traps for lack of room exactly where that is more than there is room
for. Programs are put together from those that leave the stacks alone
(`Still`), pops, and a push at the end.
-/

namespace SexprWasm

/-- The values an instruction takes off the stack; `brTable` drops more, and a host function takes
its parameters. -/
def OpcodeGroup.pops : OpcodeGroup → Nat
  | .select => 3
  | .store | .compare | .binary => 2
  | .brIf | .brTable | .callIndirect | .setGlobal | .setLocal | .drop => 1
  | .load | .growMemory | .convert | .unary => 1
  | _ => 0

/-- The values an instruction puts on the stack. -/
def OpcodeGroup.pushes : OpcodeGroup → Nat
  | .i32Const | .i64Const | .f32Const | .f64Const | .getGlobal | .getLocal | .currentMemory => 1
  | .select | .load | .growMemory | .convert | .unary | .compare | .binary => 1
  | _ => 0

/-- The calls an instruction puts on the call stack, where what it calls is known. -/
def OpcodeGroup.calls : OpcodeGroup → Nat
  | .call => 1
  | _ => 0

namespace Interpreter

namespace Machine

open Callback

/-- The stacks have so many entries, and those in use are among them; `base` is the depth the
run was started at. -/
structure Fits (valueSize callSize base : Nat) (m : Machine) : Prop where
  valueStack_length : m.thread.valueStack.length = valueSize
  callStack_length : m.thread.callStack.length = callSize
  value_le : m.thread.valueStackTop ≤ valueSize
  base_le : base ≤ m.thread.callStackTop
  call_le : m.thread.callStackTop ≤ callSize

/-- The thread is left alone, and there is no trap. -/
class Still {α : Type} (f : Exec α) : Prop where
  wp : ∀ m, wp f (fun _ m' => m'.thread = m.thread) (fun _ => False) True m

def Moves (base free pops pushes calls : Nat) (f : Exec Unit) : Prop :=
  ∀ (valueSize callSize : Nat) (m : Machine), m.Fits valueSize callSize base →
    m.thread.valueStackTop + free ≤ valueSize →
    wp f
      (fun _ m' => m'.Fits valueSize callSize base ∧
        m'.thread.valueStackTop + pops = m.thread.valueStackTop + pushes ∧
        m.thread.callStackTop + calls ≤ callSize)
      (fun m' => m'.Fits valueSize callSize base ∧
        (m'.result = .trapValueStackExhausted ↔
          valueSize + pops < m.thread.valueStackTop + pushes) ∧
        (m'.result = .trapCallStackExhausted ↔ callSize < m.thread.callStackTop + calls)) True m

variable {m m' : Machine} {base free pops pushes calls valueSize callSize : Nat}

theorem Fits.congr (h : m.Fits valueSize callSize base) (hthread : m'.thread = m.thread) :
    m'.Fits valueSize callSize base := by
  obtain ⟨h₁, h₂, h₃, h₄, h₅⟩ := h
  rw [← hthread] at h₁ h₂ h₃ h₄ h₅
  exact ⟨h₁, h₂, h₃, h₄, h₅⟩

/-! ## Programs that leave the thread alone -/

namespace Still

variable {α β : Type}

instance pure (a : α) : Still (Pure.pure a : Exec α) := ⟨fun _ => rfl⟩

instance pure' (a : α) : Still (Callback.pure a : Exec α) := ⟨fun _ => rfl⟩

instance get : Still (Callback.get : Exec Machine) := ⟨fun _ => rfl⟩

instance abort : Still (Callback.abort : Exec α) := ⟨fun _ => trivial⟩

instance assert (c : Bool) : Still (Callback.assert c : Exec Unit) :=
  ⟨fun _ => wp_assert.mpr ⟨fun _ => rfl, fun _ => trivial⟩⟩

instance orAbort (o : Option α) : Still (Callback.orAbort o : Exec α) :=
  ⟨fun _ => wp_orAbort.mpr ⟨fun _ _ => rfl, fun _ => trivial⟩⟩

instance bind {f : Exec α} {g : α → Exec β} [hf : Still f] [hg : ∀ a, Still (g a)] :
    Still (f >>= g) where
  wp m := by
    refine wp_bind.mpr ((hf.wp m).mono (fun a m₁ h₁ => ?_) (fun _ => id) id)
    rw [← h₁]
    exact (hg a).wp m₁

instance ite {c : Prop} [Decidable c] {f g : Exec α} [hf : Still f] [hg : Still g] :
    Still (if c then f else g) :=
  ⟨fun m => wp_ite.mpr ⟨fun _ => hf.wp m, fun _ => hg.wp m⟩⟩

theorem modify {f : Machine → Machine} (h : ∀ m, (f m).thread = m.thread) :
    Still (Callback.modify f) := ⟨h⟩

instance readBytes (size : Nat) : Still (readBytes size) := by
  have hadvance : Still (Callback.modify fun m : Machine => { m with pc := m.pc + size }) :=
    modify fun _ => rfl
  unfold Machine.readBytes
  infer_instance

instance readU8 : Still readU8 := readBytes 1

instance readU32 : Still readU32 := readBytes 4

instance readU64 : Still readU64 := readBytes 8

instance goto (offset : Nat) : Still (goto offset) := modify fun _ => rfl

instance getMemory : Still getMemory := by
  unfold Machine.getMemory
  infer_instance

instance setMemory (index : Nat) (memory : Memory) : Still (setMemory index memory) :=
  modify fun _ => rfl

instance setGlobal (index : Nat) (global : Global) : Still (setGlobal index global) :=
  modify fun _ => rfl

instance pick (depth : Nat) : Still (pick depth) := by
  unfold Machine.pick
  infer_instance

instance readTableEntryAt (at_ : Nat) : Still (readTableEntryAt at_) := by
  unfold Machine.readTableEntryAt
  infer_instance

end Still

/-! ## Pops and pushes -/

section

variable {α : Type} {Q : α → Machine → Prop} {E : Machine → Prop} {index entry height v : Nat}

theorem wp_pop {Q : Nat → Machine → Prop}
    (hok : ∀ v, 1 ≤ m.thread.valueStackTop → Q v (m.setTop (m.thread.valueStackTop - 1))) :
    wp pop Q E True m := by
  simp only [pop, pick, wp_bind, wp_get, wp_assert, wp_orAbort, wp_modify, wp_pure,
    decide_eq_true_iff, implies_true, and_true]
  exact fun htop v _ => hok v htop

theorem wp_checkStack {Q : Unit → Machine → Prop}
    (hok : m.thread.valueStackTop < m.thread.valueStack.length → Q () m)
    (herror : m.thread.valueStack.length ≤ m.thread.valueStackTop →
      E { m with result := .trapValueStackExhausted }) : wp checkStack Q E True m := by
  rw [checkStack, wp_bind, wp_get, wp, trapIf_run]
  rcases Nat.lt_or_ge m.thread.valueStackTop m.thread.valueStack.length with hlt | hge
  · rw [decide_eq_false (not_le.mpr hlt), if_neg (by decide)]
    exact hok hlt
  · rw [decide_eq_true hge, if_pos rfl]
    exact herror hge

theorem Fits.setTop (h : m.Fits valueSize callSize base) (hle : height ≤ valueSize) :
    (m.setTop height).Fits valueSize callSize base :=
  ⟨h.valueStack_length, h.callStack_length, hle, h.base_le, h.call_le⟩

theorem Fits.put (h : m.Fits valueSize callSize base) (hlt : index < valueSize) :
    (m.put index entry).Fits valueSize callSize base :=
  ⟨length_put.trans h.valueStack_length, h.callStack_length, hlt, h.base_le, h.call_le⟩

theorem wp_setPick (h : m.Fits valueSize callSize base) (depth v : Nat) :
    wp (setPick depth v) (fun _ m' => m'.Fits valueSize callSize base ∧
      m'.thread.valueStackTop = m.thread.valueStackTop) (fun _ => False) True m := by
  rw [setPick, wp_bind, wp_get, wp_bind, wp_assert]
  refine ⟨fun _ => ⟨?_, rfl⟩, fun _ => trivial⟩
  exact ⟨List.length_set.trans h.valueStack_length, h.callStack_length, h.value_le, h.base_le,
    h.call_le⟩

end

namespace Moves

variable {α : Type} {f g : Exec Unit}

theorem of_still [hf : Still f] : Moves base free 0 0 0 f := by
  intro V C m h hfree
  refine (hf.wp m).mono (fun _ m' hthread => ?_) (fun _ => False.elim) id
  exact ⟨h.congr hthread, by rw [hthread], h.call_le⟩

/-- A program that begins with one that leaves the thread alone. -/
theorem still {f : Exec α} {g : α → Exec Unit} [hf : Still f]
    (hg : ∀ a, Moves base free pops pushes calls (g a)) : Moves base free pops pushes calls (f >>= g) := by
  intro V C m h hfree
  refine wp_bind.mpr ((hf.wp m).mono (fun a m₁ hthread => ?_) (fun _ => False.elim) id)
  have hmoves := hg a V C m₁ (h.congr hthread)
  rw [hthread] at hmoves
  exact hmoves hfree

/-- A program that ends with one that leaves the thread alone. -/
theorem then_still {g : Unit → Exec Unit} (hf : Moves base free pops pushes calls f)
    [hg : Still (g ())] : Moves base free pops pushes calls (f >>= g) := by
  intro V C m h hfree
  refine wp_bind.mpr ((hf V C m h hfree).mono (fun _ m₁ h₁ => ?_) (fun _ => id) id)
  refine (hg.wp m₁).mono (fun _ m₂ hthread => ?_) (fun _ => False.elim) id
  rw [hthread]
  exact ⟨h₁.1.congr hthread, h₁.2⟩

/-- A trap for another reason than a lack of room. -/
theorem trap {result : Result} (hvalue : result ≠ .trapValueStackExhausted)
    (hcall : result ≠ .trapCallStackExhausted) (hle : pushes ≤ pops + free) :
    Moves base free pops pushes 0 (trap result) := by
  intro V C m h hfree
  refine ⟨h.congr rfl, iff_of_false hvalue ?_, iff_of_false hcall ?_⟩
  · omega
  · have := h.call_le
    omega

theorem ite {c : Prop} [Decidable c] (hf : Moves base free pops pushes calls f)
    (hg : Moves base free pops pushes calls g) : Moves base free pops pushes calls (if c then f else g) := by
  split
  · exact hf
  · exact hg

theorem trapIf {c : Bool} {result : Result} {g : Unit → Exec Unit}
    (hvalue : result ≠ .trapValueStackExhausted) (hcall : result ≠ .trapCallStackExhausted)
    (hle : pushes ≤ pops + free) (hg : Moves base free pops pushes 0 (g ())) :
    Moves base free pops pushes 0 (trapIf c result >>= g) := by
  intro V C m h hfree
  cases c with
  | false => exact hg V C m h hfree
  | true => exact trap hvalue hcall hle V C m h hfree

theorem pop {g : Nat → Exec Unit} (hg : ∀ v, Moves base (free + 1) pops pushes calls (g v)) :
    Moves base free (pops + 1) pushes calls (pop >>= g) := by
  intro V C m h hfree
  refine wp_bind.mpr (wp_pop fun v htop => ?_)
  have hle := h.value_le
  refine (hg v V C _ (h.setTop (by omega)) (by rw [setTop_valueStackTop]; omega)).mono (fun _ m' hok => ?_) (fun m' herror => ?_) id
  · obtain ⟨hfits, hvalue, hcall⟩ := hok
    rw [setTop_valueStackTop] at hvalue
    exact ⟨hfits, by omega, hcall⟩
  · obtain ⟨hfits, hvalue, hcall⟩ := herror
    rw [setTop_valueStackTop] at hvalue
    exact ⟨hfits, hvalue.trans (by omega), hcall⟩

theorem popType {type : ValueType} {g : BitVec type.bits → Exec Unit}
    (hg : ∀ v, Moves base (free + 1) pops pushes calls (g v)) :
    Moves base free (pops + 1) pushes calls (popType type >>= g) := by
  intro V C m h hfree
  have hpop := pop (g := fun v => g (BitVec.ofNat type.bits v)) (fun v => hg _) V C m h hfree
  rw [wp_bind] at hpop
  rw [Machine.popType, wp_bind, wp_bind]
  exact hpop

theorem checked {g : Unit → Exec Unit}
    (hg : ∀ V C m, m.Fits V C base → m.thread.valueStackTop < V →
      wp (g ()) (fun _ m' => m'.Fits V C base ∧
        m'.thread.valueStackTop = m.thread.valueStackTop + 1) (fun _ => False) True m) :
    Moves base free 0 1 0 (checkStack >>= g) := by
  intro V C m h hfree
  have hlen := h.valueStack_length
  refine wp_bind.mpr (wp_checkStack (fun hlt => ?_) fun hge => ?_)
  · refine (hg V C m h (by omega)).mono (fun _ m' hok => ?_) (fun _ => False.elim) id
    exact ⟨hok.1, hok.2, h.call_le⟩
  · refine ⟨h.congr rfl, iff_of_true rfl (by omega), iff_of_false (fun heq => ?_) ?_⟩
    · cases heq
    · have := h.call_le
      omega

theorem push (v : Nat) : Moves base free 0 1 0 (push v) :=
  checked fun _ _ _ h hlt => ⟨h.put hlt, rfl⟩

theorem pushType (type : ValueType) (v : Nat) : Moves base free 0 1 0 (pushType type v) :=
  checked fun _ _ _ h hlt => ⟨h.put hlt, rfl⟩

theorem setPick (depth v : Nat) : Moves base free 0 0 0 (setPick depth v) := by
  intro V C m h hfree
  refine (wp_setPick h depth v).mono (fun _ m' hok => ?_) (fun _ => False.elim) id
  exact ⟨hok.1, hok.2, h.call_le⟩

/-- A value that is taken off and put on again. -/
theorem shift (hf : Moves base free pops pushes calls f) :
    Moves base free (pops + 1) (pushes + 1) calls f := by
  intro V C m h hfree
  refine (hf V C m h hfree).mono (fun _ m' hok => ?_) (fun m' herror => ?_) id
  · exact ⟨hok.1, by omega, hok.2.2⟩
  · exact ⟨herror.1, herror.2.1.trans (by omega), herror.2.2⟩

end Moves

/-! ## The macros -/

section Macros

variable {rtype type : ValueType} {p : Platform} {t : FloatType}

theorem load_moves (memType : MemType) : Moves base free 1 1 0 (load type memType) :=
  .still fun _ => .popType fun _ => .still fun _ =>
    .trapIf (by decide) (by decide) (by omega) (.still fun _ => .pushType _ _)

theorem store_moves (memType : MemType) : Moves base free 2 0 0 (store type memType) :=
  .still fun _ => .popType fun _ => .popType fun _ => .still fun _ =>
    .trapIf (by decide) (by decide) (by omega) (.still fun _ => .of_still)

theorem currentMemory_moves : Moves base free 0 1 0 currentMemory :=
  .still fun _ => .pushType _ _

theorem growMemory_moves : Moves base free 1 1 0 (growMemory p) := by
  refine .still fun ⟨_, memory⟩ => .popType fun _ => .ite (.pushType _ _) (.ite (.pushType _ _) ?_)
  dsimp only
  split
  · exact .pushType _ _
  · exact .still fun _ => .still fun _ => .pushType _ _

theorem binop_moves (op : BitVec type.bits → BitVec type.bits → Nat) :
    Moves base free 2 1 0 (binop rtype type op) :=
  .popType fun _ => .popType fun _ => .pushType _ _

theorem binopDivRemU_moves (op : BitVec type.bits → BitVec type.bits → BitVec type.bits) :
    Moves base free 2 1 0 (binopDivRemU type op) :=
  .popType fun _ => .popType fun _ =>
    .trapIf (by decide) (by decide) (by omega) (.pushType _ _)

theorem binopDivS_moves : Moves base free 2 1 0 (binopDivS type) :=
  .popType fun _ => .popType fun _ =>
    .trapIf (by decide) (by decide) (by omega)
      (.trapIf (by decide) (by decide) (by omega) (.pushType _ _))

theorem binopRemS_moves : Moves base free 2 1 0 (binopRemS type) :=
  .popType fun _ => .popType fun _ =>
    .trapIf (by decide) (by decide) (by omega) (.ite (.pushType _ _) (.pushType _ _))

theorem unop_moves (f : BitVec type.bits → Nat) : Moves base free 1 1 0 (unop rtype type f) :=
  .popType fun _ => .pushType _ _

theorem clz_moves (type : ValueType) : Moves base free 1 1 0 (clz type) := unop_moves _

theorem ctz_moves (type : ValueType) : Moves base free 1 1 0 (ctz type) := unop_moves _

theorem popcnt_moves (type : ValueType) : Moves base free 1 1 0 (popcnt type) := unop_moves _

theorem eqz_moves (type : ValueType) : Moves base free 1 1 0 (eqz type) := unop_moves _

theorem unopFloat_moves (t : FloatType) (func : FloatUnary) :
    Moves base free 1 1 0 (unopFloat p t func) := unop_moves _

theorem convertS_moves (t : FloatType) (type : ValueType) :
    Moves base free 1 1 0 (convertS p t type) := unop_moves _

theorem convertU_moves (t : FloatType) (type : ValueType) :
    Moves base free 1 1 0 (convertU p t type) := unop_moves _

theorem modifyTop_moves (f : BitVec type.bits → BitVec type.bits) :
    Moves base free 1 1 0 (modifyTop type f) :=
  .shift (.still fun _ => .setPick _ _)

theorem floatAbs_moves (t : FloatType) : Moves base free 1 1 0 (floatAbs t) := modifyTop_moves _

theorem floatNeg_moves (t : FloatType) : Moves base free 1 1 0 (floatNeg t) := modifyTop_moves _

theorem truncFloat_moves (isInRange : Nat → Bool) (signed : Bool) :
    Moves base free 1 1 0 (truncFloat rtype t isInRange signed) :=
  .popType fun _ => .trapIf (by decide) (by decide) (by omega)
    (.trapIf (by decide) (by decide) (by omega) (.still fun _ => .pushType _ _))

end Macros

/-! ## Calls and returns -/

theorem pushCall_moves : Moves base free 0 0 1 pushCall := by
  intro V C m h hfree
  have hlen := h.callStack_length
  have hle := h.call_le
  rw [pushCall, wp_bind, wp_get, wp_bind, wp, trapIf_run]
  rcases Nat.lt_or_ge m.thread.callStackTop C with hlt | hge
  · rw [decide_eq_false (by omega), if_neg (by decide)]
    refine ⟨⟨h.valueStack_length, List.length_set.trans hlen, h.value_le, ?_, hlt⟩, rfl, hlt⟩
    exact Nat.le_succ_of_le h.base_le
  · rw [decide_eq_true (by omega), if_pos rfl]
    refine ⟨h.congr rfl, iff_of_false (fun heq => ?_) (by omega), iff_of_true rfl (by omega)⟩
    cases heq

theorem return_moves (p : Platform) : Moves base free 0 0 0 (execute p base .return_) := by
  intro V C m h hfree
  have hbase := h.base_le
  have hle := h.call_le
  rw [execute, wp_bind, wp_get, wp_ite]
  refine ⟨fun _ => ⟨h.congr rfl, rfl, hle⟩, fun hne => ?_⟩
  simp only [popCall, wp_bind, wp_get, wp_assert, wp_modify, wp_orAbort, implies_true, and_true]
  refine fun hpos v _ => ⟨⟨h.valueStack_length, h.callStack_length, h.value_le, ?_, ?_⟩, rfl, hle⟩
  · change base ≤ m.thread.callStackTop - 1
    omega
  · change m.thread.callStackTop - 1 ≤ C
    omega

/-! ## The switch -/

theorem execute_moves (p : Platform) {op : WasmOpcode} (hop : op ≠ .brTable)
    (hop' : op ≠ .callIndirect) :
    Moves base 0 op.group.pops op.group.pushes op.group.calls (execute p base op) := by
  cases op with
  | brTable => exact absurd rfl hop
  | callIndirect => exact absurd rfl hop'
  | call => exact .still fun _ => .then_still pushCall_moves
  | return_ => exact return_moves p
  | select => exact .popType fun _ => .pop fun _ => .pop fun _ => .push _
  | br => exact .still fun _ => .of_still
  | brIf => exact .still fun _ => .popType fun _ => .ite .of_still .of_still
  | unreachable => exact .trap (by decide) (by decide) (by decide)
  | i32Const | i64Const | f32Const | f64Const => exact .still fun _ => .pushType _ _
  | getGlobal => exact .still fun _ => .still fun _ => .still fun _ => .push _
  | setGlobal => exact .still fun _ => .still fun _ => .still fun _ => .pop fun _ => .of_still
  | getLocal => exact .still fun _ => .still fun _ => .push _
  | setLocal => exact .pop fun _ => .still fun _ => .setPick _ _
  | teeLocal => exact .still fun _ => .still fun _ => .setPick _ _
  | drop => exact .pop fun _ => .of_still
  | nop => exact (Moves.of_still : Moves base 0 0 0 0 (pure ()))
  | block | loop | if_ | else_ | end_ => exact (Moves.of_still : Moves base 0 0 0 0 abort)
  | currentMemory => exact currentMemory_moves
  | growMemory => exact growMemory_moves
  | i32Load8S | i32Load8U | i32Load16S | i32Load16U | i64Load8S | i64Load8U | i64Load16S
  | i64Load16U | i64Load32S | i64Load32U | i32Load | i64Load | f32Load | f64Load =>
    exact load_moves _
  | i32Store8 | i32Store16 | i64Store8 | i64Store16 | i64Store32 | i32Store | i64Store
  | f32Store | f64Store =>
    exact store_moves _
  | i32Add | i32Sub | i32Mul | i32And | i32Or | i32Xor | i32Eq | i32Ne | i32LtU | i32LeU
  | i32GtU | i32GeU | i64Add | i64Sub | i64Mul | i64And | i64Or | i64Xor | i64Eq | i64Ne
  | i64LtU | i64LeU | i64GtU | i64GeU | i32LtS | i32LeS | i32GtS | i32GeS | i64LtS | i64LeS
  | i64GtS | i64GeS | i32Shl | i32ShrU | i32ShrS | i64Shl | i64ShrU | i64ShrS | i32Rotr
  | i32Rotl | i64Rotr | i64Rotl | f32Add | f32Sub | f32Mul | f64Add | f64Sub | f64Mul | f32Div
  | f64Div | f32Eq | f32Ne | f32Lt | f32Le | f32Gt | f32Ge | f64Eq | f64Ne | f64Lt | f64Le
  | f64Gt | f64Ge | f32Min | f32Max | f64Min | f64Max | f32Copysign | f64Copysign =>
    exact binop_moves _
  | i32DivU | i32RemU | i64DivU | i64RemU =>
    exact binopDivRemU_moves _
  | i32DivS | i64DivS =>
    exact binopDivS_moves
  | i32RemS | i64RemS =>
    exact binopRemS_moves
  | i32WrapI64 | i64ExtendSI32 | i64ExtendUI32 | f32DemoteF64 | f32ReinterpretI32
  | f64PromoteF32 | f64ReinterpretI64 | i32ReinterpretF32 | i64ReinterpretF64 =>
    exact unop_moves _
  | i32Clz | i64Clz =>
    exact clz_moves _
  | i32Ctz | i64Ctz =>
    exact ctz_moves _
  | i32Popcnt | i64Popcnt =>
    exact popcnt_moves _
  | i32Eqz | i64Eqz =>
    exact eqz_moves _
  | f32Ceil | f32Floor | f32Trunc | f32Nearest | f32Sqrt | f64Ceil | f64Floor | f64Trunc
  | f64Nearest | f64Sqrt =>
    exact unopFloat_moves _ _
  | f32ConvertSI32 | f32ConvertSI64 | f64ConvertSI32 | f64ConvertSI64 =>
    exact convertS_moves _ _
  | f32ConvertUI32 | f32ConvertUI64 | f64ConvertUI32 | f64ConvertUI64 =>
    exact convertU_moves _ _
  | f32Abs => exact floatAbs_moves .f32
  | f64Abs => exact floatAbs_moves .f64
  | f32Neg => exact floatNeg_moves .f32
  | f64Neg => exact floatNeg_moves .f64
  | i32TruncSF32 | i32TruncSF64 | i32TruncUF32 | i32TruncUF64 | i64TruncSF32 | i64TruncSF64
  | i64TruncUF32 | i64TruncUF64 =>
    exact truncFloat_moves _ _

end Machine

end Interpreter

end SexprWasm
