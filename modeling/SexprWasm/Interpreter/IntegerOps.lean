import SexprWasm.Interpreter.MachineSound
import SexprWasm.Lib.Words

/-!
# The integer instructions

`integerFunction?` is what the instructions on `i32` and `i64` are to
compute, on numbers below `2 ^ 32` and `2 ^ 64`, and when they are to
trap. `Computes` says that an instruction does that: what it leaves is
read at the type the opcode table gives for the result, whatever the
bits above were, and the entries below stay.
-/

namespace SexprWasm

namespace Interpreter

open Callback

inductive IntegerFunction
  | unary (f : Nat → Nat)
  | binary (f : Nat → Nat → Except Result Nat)

namespace IntegerFunction

/-- A function that never traps. -/
def total (f : Nat → Nat → Nat) : IntegerFunction := .binary fun i j => .ok (f i j)

def compare (r : Nat → Nat → Bool) : IntegerFunction := total fun i j => (r i j).toNat

def compareS (N : Nat) (r : Int → Int → Bool) : IntegerFunction :=
  compare fun i j => r (Words.signed N i) (Words.signed N j)

/-- Shifts and rotations are by a number modulo the width. -/
def shift (N : Nat) (f : Nat → Nat → Nat) : IntegerFunction := total fun i j => f i (j % N)

def divU (f : Nat → Nat → Nat) : IntegerFunction :=
  .binary fun i j => if j = 0 then .error .trapIntegerDivideByZero else .ok (f i j)

/-- The quotient may be one too large for its type. -/
def divS (N : Nat) : IntegerFunction :=
  .binary fun i j =>
    if j = 0 then .error .trapIntegerDivideByZero
    else if (Words.signed N i).tdiv (Words.signed N j) = 2 ^ (N - 1) then .error .trapIntegerOverflow
    else .ok (Words.divS N i j)

def remS (N : Nat) : IntegerFunction :=
  .binary fun i j => if j = 0 then .error .trapIntegerDivideByZero else .ok (Words.remS N i j)

end IntegerFunction

open IntegerFunction in
/-- What the integer instructions compute. -/
def integerFunction? : WasmOpcode → Option IntegerFunction
  | .i32Add => some (total (Words.add 32))
  | .i32Sub => some (total (Words.sub 32))
  | .i32Mul => some (total (Words.mul 32))
  | .i32DivS => some (divS 32)
  | .i32DivU => some (divU (· / ·))
  | .i32RemS => some (remS 32)
  | .i32RemU => some (divU (· % ·))
  | .i32And => some (total (· &&& ·))
  | .i32Or => some (total (· ||| ·))
  | .i32Xor => some (total (· ^^^ ·))
  | .i32Shl => some (shift 32 (Words.shl 32))
  | .i32ShrS => some (shift 32 (Words.shrS 32))
  | .i32ShrU => some (shift 32 Words.shrU)
  | .i32Rotl => some (shift 32 (Words.rotl 32))
  | .i32Rotr => some (shift 32 (Words.rotr 32))
  | .i32Clz => some (.unary (Words.clz 32))
  | .i32Ctz => some (.unary (Words.ctz 32))
  | .i32Popcnt => some (.unary (Words.popcnt 32))
  | .i32Eqz => some (.unary fun i => (i = 0 : Bool).toNat)
  | .i32Eq => some (compare (· = ·))
  | .i32Ne => some (compare (· ≠ ·))
  | .i32LtU => some (compare (· < ·))
  | .i32LeU => some (compare (· ≤ ·))
  | .i32GtU => some (compare (· > ·))
  | .i32GeU => some (compare (· ≥ ·))
  | .i32LtS => some (compareS 32 (· < ·))
  | .i32LeS => some (compareS 32 (· ≤ ·))
  | .i32GtS => some (compareS 32 (· > ·))
  | .i32GeS => some (compareS 32 (· ≥ ·))
  | .i64Add => some (total (Words.add 64))
  | .i64Sub => some (total (Words.sub 64))
  | .i64Mul => some (total (Words.mul 64))
  | .i64DivS => some (divS 64)
  | .i64DivU => some (divU (· / ·))
  | .i64RemS => some (remS 64)
  | .i64RemU => some (divU (· % ·))
  | .i64And => some (total (· &&& ·))
  | .i64Or => some (total (· ||| ·))
  | .i64Xor => some (total (· ^^^ ·))
  | .i64Shl => some (shift 64 (Words.shl 64))
  | .i64ShrS => some (shift 64 (Words.shrS 64))
  | .i64ShrU => some (shift 64 Words.shrU)
  | .i64Rotl => some (shift 64 (Words.rotl 64))
  | .i64Rotr => some (shift 64 (Words.rotr 64))
  | .i64Clz => some (.unary (Words.clz 64))
  | .i64Ctz => some (.unary (Words.ctz 64))
  | .i64Popcnt => some (.unary (Words.popcnt 64))
  | .i64Eqz => some (.unary fun i => (i = 0 : Bool).toNat)
  | .i64Eq => some (compare (· = ·))
  | .i64Ne => some (compare (· ≠ ·))
  | .i64LtU => some (compare (· < ·))
  | .i64LeU => some (compare (· ≤ ·))
  | .i64GtU => some (compare (· > ·))
  | .i64GeU => some (compare (· ≥ ·))
  | .i64LtS => some (compareS 64 (· < ·))
  | .i64LeS => some (compareS 64 (· ≤ ·))
  | .i64GtS => some (compareS 64 (· > ·))
  | .i64GeS => some (compareS 64 (· ≥ ·))
  | .i32WrapI64 => some (.unary fun i => i % 2 ^ 32)
  | .i64ExtendSI32 => some (.unary fun i => Words.wrap 64 (Words.signed 32 i))
  | .i64ExtendUI32 => some (.unary fun i => i)
  | _ => none

namespace Machine

/-- An instruction takes its operands at `type` and leaves `fn` of them to be read at `rtype`, or
traps where `fn` does. -/
def Computes (fn : IntegerFunction) (rtype type : ValueType) (instr : Exec Unit) : Prop :=
  match fn with
  | .unary f => ∀ (m : Machine) (vs : List Nat) (a : Nat), m.Holds (vs ++ [a]) →
      ∃ entry, instr m = .ok () (m.put vs.length entry) ∧
        entry % 2 ^ rtype.bits = f (a % 2 ^ type.bits)
  | .binary f => ∀ (m : Machine) (vs : List Nat) (a b : Nat), m.Holds (vs ++ [a, b]) →
      match f (a % 2 ^ type.bits) (b % 2 ^ type.bits) with
      | .ok v => ∃ entry, instr m = .ok () (m.put vs.length entry) ∧ entry % 2 ^ rtype.bits = v
      | .error result => instr m = .error { m.setTop vs.length with result }

/-! ## Instructions that do not trap -/

theorem overlay_mod_of_le {rtype ptype : ValueType} {entry v : Nat} (hle : rtype.bits ≤ ptype.bits) :
    ptype.overlay entry v % 2 ^ rtype.bits = v % 2 ^ rtype.bits := by
  have hdvd : 2 ^ rtype.bits ∣ 2 ^ ptype.bits := Nat.pow_dvd_pow 2 hle
  rw [← Nat.mod_mod_of_dvd _ hdvd, ValueType.overlay_mod, Nat.mod_mod_of_dvd _ hdvd]

theorem computes_unop {rtype ptype type : ValueType} {f : Nat → Nat} {g : BitVec type.bits → Nat}
    (hle : rtype.bits ≤ ptype.bits) (hg : ∀ x, g x % 2 ^ rtype.bits = f x.toNat) :
    Computes (.unary f) rtype type (unop ptype type g) := by
  intro m vs a h
  refine ⟨_, unop_run h, ?_⟩
  rw [overlay_mod_of_le hle, hg, BitVec.toNat_ofNat]

theorem computes_binop {rtype type : ValueType} {f : Nat → Nat → Nat}
    {g : BitVec type.bits → BitVec type.bits → Nat}
    (hg : ∀ x y, g x y % 2 ^ rtype.bits = f x.toNat y.toNat) :
    Computes (.total f) rtype type (binop rtype type g) := by
  intro m vs a b h
  refine ⟨_, binop_run h, ?_⟩
  rw [ValueType.overlay_mod, hg, BitVec.toNat_ofNat, BitVec.toNat_ofNat]

theorem computes_compare {rtype type : ValueType} {r : Nat → Nat → Bool}
    {g : BitVec type.bits → BitVec type.bits → Bool} (hg : ∀ x y, g x y = r x.toNat y.toNat) :
    Computes (.compare r) rtype type (binop rtype type fun x y => (g x y).toNat) := by
  refine computes_binop fun x y => ?_
  have hlt : (g x y).toNat < 2 ^ rtype.bits :=
    lt_of_le_of_lt (Bool.toNat_le _) (Nat.one_lt_two_pow (by cases rtype <;> decide))
  rw [Nat.mod_eq_of_lt hlt, hg]

theorem beq_eq {w : Nat} {x y : BitVec w} : (x == y) = decide (x.toNat = y.toNat) :=
  Bool.eq_iff_iff.mpr (by rw [beq_iff_eq, decide_eq_true_iff, BitVec.toNat_inj])

theorem computes_signed (rtype type : ValueType) {r : Int → Int → Bool} :
    Computes (.compareS type.bits r) rtype type (binopSigned rtype type r) :=
  computes_compare fun x y => by rw [Words.toInt_eq, Words.toInt_eq]

theorem and_shiftMask {type : ValueType} (n : Nat) : n &&& shiftMask type = n % type.bits := by
  obtain ⟨k, hk⟩ : ∃ k, type.bits = 2 ^ k := by
    cases type
    exacts [⟨5, rfl⟩, ⟨6, rfl⟩, ⟨5, rfl⟩, ⟨6, rfl⟩]
  rw [shiftMask, hk, Nat.and_two_pow_sub_one_eq_mod]

theorem computes_shift {type : ValueType} {f : Nat → Nat → Nat}
    {g : BitVec type.bits → Nat → BitVec type.bits} (hg : ∀ x k, (g x k).toNat = f x.toNat k) :
    Computes (.shift type.bits f) type type (binopShift type g) :=
  computes_binop fun x y => by
    rw [Nat.mod_eq_of_lt (BitVec.isLt _), and_shiftMask, hg]

theorem computes_rot {type : ValueType} {f : Nat → Nat → Nat}
    {shift0 shift1 : BitVec type.bits → Nat → BitVec type.bits}
    (hf : ∀ x : BitVec type.bits, f x.toNat 0 = x.toNat)
    (hg : ∀ x k, k ≤ type.bits →
      (shift0 x k ||| shift1 x (type.bits - k)).toNat = f x.toNat k) :
    Computes (.shift type.bits f) type type (binopRot type shift0 shift1) :=
  computes_binop fun x y => by
    have hbits : shiftMask type + 1 = type.bits := by cases type <;> rfl
    have hlt : y.toNat % type.bits < type.bits := Nat.mod_lt _ (by omega)
    dsimp only
    rw [and_shiftMask, hbits]
    split
    · rw [Nat.mod_eq_of_lt (BitVec.isLt _), hg x _ hlt.le]
    · rename_i hzero
      rw [Nat.mod_eq_of_lt (BitVec.isLt _), not_not.mp hzero, hf]

/-! ## Division -/

/-- The pops at the start of an instruction with two operands. -/
theorem pop2_run {m : Machine} {vs : List Nat} {a b : Nat} {type : ValueType} {α : Type}
    {k : BitVec type.bits → BitVec type.bits → Exec α} (h : m.Holds (vs ++ [a, b])) :
    (do
      let rhs ← popType type
      let lhs ← popType type
      k lhs rhs : Exec α) m =
      k (BitVec.ofNat type.bits a) (BitVec.ofNat type.bits b) (m.setTop vs.length) := by
  have hrhs : m.Holds ((vs ++ [a]) ++ [b]) := by simpa using h
  rw [bind_run, popType_run hrhs]
  dsimp only
  rw [bind_run, popType_run hrhs.setTop]
  rfl

theorem ofNat_eq_zero {w n : Nat} : BitVec.ofNat w n = 0 ↔ n % 2 ^ w = 0 := by
  rw [← BitVec.toNat_inj, BitVec.toNat_ofNat]
  simp

variable {type : ValueType} {f : Nat → Nat → Nat}

theorem computes_divU {g : BitVec type.bits → BitVec type.bits → BitVec type.bits}
    (hg : ∀ x y, (g x y).toNat = f x.toNat y.toNat) :
    Computes (.divU f) type type (binopDivRemU type g) := by
  intro m vs a b h
  rw [binopDivRemU, pop2_run h, bind_run, trapIf_run]
  by_cases hzero : b % 2 ^ type.bits = 0
  · rw [if_pos (by simpa using ofNat_eq_zero.mpr hzero)]
    simp [hzero]
  · rw [if_neg (by simpa using mt ofNat_eq_zero.mp hzero)]
    simp only [hzero, if_false]
    refine ⟨_, pushType_run rfl h.getElem?, ?_⟩
    rw [ValueType.overlay_mod, Nat.mod_eq_of_lt (BitVec.isLt _), hg, BitVec.toNat_ofNat,
      BitVec.toNat_ofNat]

theorem bits_pos : 0 < type.bits := by cases type <;> decide

theorem computes_divS : Computes (.divS type.bits) type type (binopDivS type) := by
  intro m vs a b h
  have hover := Words.tdiv_eq_iff (x := BitVec.ofNat type.bits a) (y := BitVec.ofNat type.bits b)
    bits_pos
  rw [BitVec.toNat_ofNat, BitVec.toNat_ofNat] at hover
  rw [binopDivS, pop2_run h, bind_run, trapIf_run]
  by_cases hzero : b % 2 ^ type.bits = 0
  · rw [if_pos (by simpa using ofNat_eq_zero.mpr hzero)]
    simp [hzero]
  · rw [if_neg (by simpa using mt ofNat_eq_zero.mp hzero)]
    simp only [hzero, if_false]
    rw [bind_run, trapIf_run]
    by_cases hmax : BitVec.ofNat type.bits a = BitVec.intMin type.bits ∧
        BitVec.ofNat type.bits b = BitVec.allOnes type.bits
    · rw [if_pos (hover.mpr hmax), if_pos (by simpa using hmax)]
    · rw [if_neg (mt hover.mp hmax), if_neg (by simpa using hmax)]
      refine ⟨_, pushType_run rfl h.getElem?, ?_⟩
      rw [ValueType.overlay_mod, Nat.mod_eq_of_lt (BitVec.isLt _), Words.toNat_sdiv,
        BitVec.toNat_ofNat, BitVec.toNat_ofNat]

theorem computes_remS : Computes (.remS type.bits) type type (binopRemS type) := by
  intro m vs a b h
  rw [binopRemS, pop2_run h, bind_run, trapIf_run]
  by_cases hzero : b % 2 ^ type.bits = 0
  · rw [if_pos (by simpa using ofNat_eq_zero.mpr hzero)]
    simp [hzero]
  · rw [if_neg (by simpa using mt ofNat_eq_zero.mp hzero)]
    simp only [hzero, if_false]
    by_cases hmax : BitVec.ofNat type.bits a = BitVec.intMin type.bits ∧
        BitVec.ofNat type.bits b = BitVec.allOnes type.bits
    · have hrem := Words.remS_intMin (N := type.bits) bits_pos
      rw [← hmax.1, ← hmax.2, BitVec.toNat_ofNat, BitVec.toNat_ofNat] at hrem
      rw [if_pos hmax]
      refine ⟨_, pushType_run rfl h.getElem?, ?_⟩
      rw [ValueType.overlay_mod, Nat.zero_mod, hrem]
    · rw [if_neg hmax]
      refine ⟨_, pushType_run rfl h.getElem?, ?_⟩
      rw [ValueType.overlay_mod, Nat.mod_eq_of_lt (BitVec.isLt _), Words.toNat_srem,
        BitVec.toNat_ofNat, BitVec.toNat_ofNat]

/-! ## All of them -/

theorem computes_arith {g : BitVec type.bits → BitVec type.bits → BitVec type.bits}
    (hg : ∀ x y, (g x y).toNat = f x.toNat y.toNat) :
    Computes (.total f) type type (binop type type fun x y => (g x y).toNat) :=
  computes_binop fun x y => by rw [Nat.mod_eq_of_lt (BitVec.isLt _), hg]

theorem computes_rotl :
    Computes (.shift type.bits (Words.rotl type.bits)) type type
      (binopRot type (· <<< ·) (· >>> ·)) := by
  refine computes_rot (fun x => ?_) fun _ _ hk => Words.toNat_rotl hk
  rw [Words.rotl, pow_zero, Nat.mul_one, Nat.mod_eq_of_lt x.isLt, Nat.div_eq_of_lt x.isLt,
    Nat.add_zero]

theorem computes_rotr :
    Computes (.shift type.bits (Words.rotr type.bits)) type type
      (binopRot type (· >>> ·) (· <<< ·)) := by
  refine computes_rot (fun x => ?_) fun _ _ hk => Words.toNat_rotr hk
  rw [Words.rotr, pow_zero, Nat.div_one, Nat.mod_one, Nat.zero_mul, Nat.add_zero]

/-- A number of bits of a word is a word. -/
theorem count_mod {n : Nat} (hle : n ≤ type.bits) : n % 2 ^ type.bits = n :=
  Nat.mod_eq_of_lt (lt_of_le_of_lt hle Nat.lt_two_pow_self)

theorem computes_clz : Computes (.unary (Words.clz type.bits)) type type (clz type) := by
  refine computes_unop le_rfl fun x => ?_
  split
  · rename_i hx
    rw [Nat.mod_eq_of_lt (BitVec.isLt _), Words.toNat_clz hx]
  · rename_i hx
    rw [not_not.mp hx, count_mod le_rfl]
    exact (Words.clz_zero _).symm

theorem computes_ctz : Computes (.unary (Words.ctz type.bits)) type type (ctz type) := by
  refine computes_unop le_rfl fun x => ?_
  split
  · rename_i hx
    rw [Nat.mod_eq_of_lt (BitVec.isLt _), Words.toNat_ctz hx]
  · rename_i hx
    rw [not_not.mp hx, count_mod le_rfl]
    exact (Words.ctz_zero _).symm

theorem computes_popcnt : Computes (.unary (Words.popcnt type.bits)) type type (popcnt type) :=
  computes_unop le_rfl fun x => by rw [Nat.mod_eq_of_lt (BitVec.isLt _), Words.toNat_cpop]

/-- What `eqz` pushes at the type of its operand is read as an `i32`. -/
theorem computes_eqz (hle : ValueType.i32.bits ≤ type.bits) :
    Computes (.unary fun i => (i = 0 : Bool).toNat) .i32 type (eqz type) := by
  refine computes_unop hle fun x => ?_
  have hlt : (x == 0).toNat < 2 ^ ValueType.i32.bits :=
    lt_of_le_of_lt (Bool.toNat_le _) (by decide)
  rw [Nat.mod_eq_of_lt hlt, beq_eq]
  rfl

theorem computes_conversions (p : Platform) (top : Nat) :
    Computes (.unary fun i => i % 2 ^ 32) .i32 .i64 (execute p top .i32WrapI64) ∧
      Computes (.unary fun i => Words.wrap 64 (Words.signed 32 i)) .i64 .i32
        (execute p top .i64ExtendSI32) ∧
      Computes (.unary fun i => i) .i64 .i32 (execute p top .i64ExtendUI32) := by
  refine ⟨computes_unop le_rfl fun x => ?_, computes_unop le_rfl fun x => ?_,
    computes_unop le_rfl fun x => ?_⟩
  · rw [BitVec.toNat_setWidth, Nat.mod_mod]
  · rw [Nat.mod_eq_of_lt (BitVec.isLt _), ← Words.toInt_eq, ← Words.toNat_ofInt,
      BitVec.signExtend]
  · rw [BitVec.toNat_setWidth, Nat.mod_mod, Nat.mod_eq_of_lt]
    exact lt_trans x.isLt (by decide)

theorem exists_computes (p : Platform) (top : Nat) {op : WasmOpcode} {fn : IntegerFunction}
    (hfn : integerFunction? op = some fn) :
    ∃ rtype type : ValueType, op.info.resultType = rtype ∧ op.info.param1Type = type ∧
      Computes fn rtype type (execute p top op) := by
  cases op with
  | i32Add => cases hfn; exact ⟨.i32, .i32, rfl, rfl, computes_arith fun _ _ => Words.toNat_add⟩
  | i64Add => cases hfn; exact ⟨.i64, .i64, rfl, rfl, computes_arith fun _ _ => Words.toNat_add⟩
  | i32Sub => cases hfn; exact ⟨.i32, .i32, rfl, rfl, computes_arith fun _ _ => Words.toNat_sub⟩
  | i64Sub => cases hfn; exact ⟨.i64, .i64, rfl, rfl, computes_arith fun _ _ => Words.toNat_sub⟩
  | i32Mul => cases hfn; exact ⟨.i32, .i32, rfl, rfl, computes_arith fun _ _ => Words.toNat_mul⟩
  | i64Mul => cases hfn; exact ⟨.i64, .i64, rfl, rfl, computes_arith fun _ _ => Words.toNat_mul⟩
  | i32DivS => cases hfn; exact ⟨.i32, .i32, rfl, rfl, computes_divS⟩
  | i64DivS => cases hfn; exact ⟨.i64, .i64, rfl, rfl, computes_divS⟩
  | i32DivU => cases hfn; exact ⟨.i32, .i32, rfl, rfl, computes_divU fun _ _ => BitVec.toNat_udiv⟩
  | i64DivU => cases hfn; exact ⟨.i64, .i64, rfl, rfl, computes_divU fun _ _ => BitVec.toNat_udiv⟩
  | i32RemS => cases hfn; exact ⟨.i32, .i32, rfl, rfl, computes_remS⟩
  | i64RemS => cases hfn; exact ⟨.i64, .i64, rfl, rfl, computes_remS⟩
  | i32RemU => cases hfn; exact ⟨.i32, .i32, rfl, rfl, computes_divU fun _ _ => BitVec.toNat_umod⟩
  | i64RemU => cases hfn; exact ⟨.i64, .i64, rfl, rfl, computes_divU fun _ _ => BitVec.toNat_umod⟩
  | i32And => cases hfn; exact ⟨.i32, .i32, rfl, rfl, computes_arith BitVec.toNat_and⟩
  | i64And => cases hfn; exact ⟨.i64, .i64, rfl, rfl, computes_arith BitVec.toNat_and⟩
  | i32Or => cases hfn; exact ⟨.i32, .i32, rfl, rfl, computes_arith BitVec.toNat_or⟩
  | i64Or => cases hfn; exact ⟨.i64, .i64, rfl, rfl, computes_arith BitVec.toNat_or⟩
  | i32Xor => cases hfn; exact ⟨.i32, .i32, rfl, rfl, computes_arith BitVec.toNat_xor⟩
  | i64Xor => cases hfn; exact ⟨.i64, .i64, rfl, rfl, computes_arith BitVec.toNat_xor⟩
  | i32Shl => cases hfn; exact ⟨.i32, .i32, rfl, rfl, computes_shift fun _ _ => Words.toNat_shiftLeft⟩
  | i64Shl => cases hfn; exact ⟨.i64, .i64, rfl, rfl, computes_shift fun _ _ => Words.toNat_shiftLeft⟩
  | i32ShrS => cases hfn; exact ⟨.i32, .i32, rfl, rfl, computes_shift fun _ _ => Words.toNat_sshiftRight⟩
  | i64ShrS => cases hfn; exact ⟨.i64, .i64, rfl, rfl, computes_shift fun _ _ => Words.toNat_sshiftRight⟩
  | i32ShrU => cases hfn; exact ⟨.i32, .i32, rfl, rfl, computes_shift fun _ _ => Words.toNat_ushiftRight⟩
  | i64ShrU => cases hfn; exact ⟨.i64, .i64, rfl, rfl, computes_shift fun _ _ => Words.toNat_ushiftRight⟩
  | i32Rotl => cases hfn; exact ⟨.i32, .i32, rfl, rfl, computes_rotl⟩
  | i64Rotl => cases hfn; exact ⟨.i64, .i64, rfl, rfl, computes_rotl⟩
  | i32Rotr => cases hfn; exact ⟨.i32, .i32, rfl, rfl, computes_rotr⟩
  | i64Rotr => cases hfn; exact ⟨.i64, .i64, rfl, rfl, computes_rotr⟩
  | i32Clz => cases hfn; exact ⟨.i32, .i32, rfl, rfl, computes_clz⟩
  | i64Clz => cases hfn; exact ⟨.i64, .i64, rfl, rfl, computes_clz⟩
  | i32Ctz => cases hfn; exact ⟨.i32, .i32, rfl, rfl, computes_ctz⟩
  | i64Ctz => cases hfn; exact ⟨.i64, .i64, rfl, rfl, computes_ctz⟩
  | i32Popcnt => cases hfn; exact ⟨.i32, .i32, rfl, rfl, computes_popcnt⟩
  | i64Popcnt => cases hfn; exact ⟨.i64, .i64, rfl, rfl, computes_popcnt⟩
  | i32Eqz => cases hfn; exact ⟨.i32, .i32, rfl, rfl, computes_eqz (by decide)⟩
  | i64Eqz => cases hfn; exact ⟨.i32, .i64, rfl, rfl, computes_eqz (by decide)⟩
  | i32Eq => cases hfn; exact ⟨.i32, .i32, rfl, rfl, computes_compare fun _ _ => beq_eq⟩
  | i64Eq => cases hfn; exact ⟨.i32, .i64, rfl, rfl, computes_compare fun _ _ => beq_eq⟩
  | i32Ne => cases hfn; exact ⟨.i32, .i32, rfl, rfl, computes_compare fun _ _ => by rw [bne, beq_eq, decide_not]⟩
  | i64Ne => cases hfn; exact ⟨.i32, .i64, rfl, rfl, computes_compare fun _ _ => by rw [bne, beq_eq, decide_not]⟩
  | i32LtU => cases hfn; exact ⟨.i32, .i32, rfl, rfl, computes_compare fun _ _ => rfl⟩
  | i64LtU => cases hfn; exact ⟨.i32, .i64, rfl, rfl, computes_compare fun _ _ => rfl⟩
  | i32LeU => cases hfn; exact ⟨.i32, .i32, rfl, rfl, computes_compare fun _ _ => rfl⟩
  | i64LeU => cases hfn; exact ⟨.i32, .i64, rfl, rfl, computes_compare fun _ _ => rfl⟩
  | i32GtU => cases hfn; exact ⟨.i32, .i32, rfl, rfl, computes_compare fun _ _ => rfl⟩
  | i64GtU => cases hfn; exact ⟨.i32, .i64, rfl, rfl, computes_compare fun _ _ => rfl⟩
  | i32GeU => cases hfn; exact ⟨.i32, .i32, rfl, rfl, computes_compare fun _ _ => rfl⟩
  | i64GeU => cases hfn; exact ⟨.i32, .i64, rfl, rfl, computes_compare fun _ _ => rfl⟩
  | i32LtS => cases hfn; exact ⟨.i32, .i32, rfl, rfl, computes_signed .i32 .i32⟩
  | i64LtS => cases hfn; exact ⟨.i32, .i64, rfl, rfl, computes_signed .i32 .i64⟩
  | i32LeS => cases hfn; exact ⟨.i32, .i32, rfl, rfl, computes_signed .i32 .i32⟩
  | i64LeS => cases hfn; exact ⟨.i32, .i64, rfl, rfl, computes_signed .i32 .i64⟩
  | i32GtS => cases hfn; exact ⟨.i32, .i32, rfl, rfl, computes_signed .i32 .i32⟩
  | i64GtS => cases hfn; exact ⟨.i32, .i64, rfl, rfl, computes_signed .i32 .i64⟩
  | i32GeS => cases hfn; exact ⟨.i32, .i32, rfl, rfl, computes_signed .i32 .i32⟩
  | i64GeS => cases hfn; exact ⟨.i32, .i64, rfl, rfl, computes_signed .i32 .i64⟩
  | i32WrapI64 => cases hfn; exact ⟨.i32, .i64, rfl, rfl, (computes_conversions p top).1⟩
  | i64ExtendSI32 => cases hfn; exact ⟨.i64, .i32, rfl, rfl, (computes_conversions p top).2.1⟩
  | i64ExtendUI32 => cases hfn; exact ⟨.i64, .i32, rfl, rfl, (computes_conversions p top).2.2⟩
  | _ => cases hfn

/-- The integer instructions compute what they are to compute, read at the types of the opcode
table, and trap where they are to trap. -/
theorem execute_integer (p : Platform) (top : Nat) {op : WasmOpcode} {fn : IntegerFunction}
    (hfn : integerFunction? op = some fn) {rtype type : ValueType}
    (hresult : op.info.resultType = rtype) (hparam : op.info.param1Type = type) :
    Computes fn rtype type (execute p top op) := by
  obtain ⟨rtype', type', hresult', hparam', h⟩ := exists_computes p top hfn
  obtain rfl := ValueType.toType_injective (hresult.symm.trans hresult')
  obtain rfl := ValueType.toType_injective (hparam.symm.trans hparam')
  exact h

theorem execute_integer_div_s : Computes (.divS 32) .i32 .i32 (execute .null 0 .i32DivS) :=
  execute_integer .null 0 rfl rfl rfl

end Machine

end Interpreter

end SexprWasm
