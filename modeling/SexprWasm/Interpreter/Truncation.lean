import SexprWasm.Interpreter.MachineSound
import SexprWasm.Interpreter.FloatValue
import SexprWasm.Lib.Words

/-!
# Truncation to integers

The eight instructions that make an integer of a float. Their tests for
the range are on the bits; `Boundary` says which patterns have their
numbers in range, so that a test is right if it has the bounds of the
boundary. Two tests for `double` stop at the last integer in range
instead, and trap at the numbers between it and the next.
-/

namespace SexprWasm

namespace Interpreter

open Literal Callback

/-- Toward zero. -/
def truncate (x : ℚ) : ℤ := if 0 ≤ x then ⌊x⌋ else ⌈x⌉

theorem truncate_neg {x : ℚ} (hx : 0 ≤ x) : truncate (-x) = -⌊x⌋ := by
  rcases hx.eq_or_lt with rfl | hpos
  · simp [truncate]
  · rw [truncate, if_neg (by linarith), Int.ceil_neg]

/-! ## The cast -/

theorem floor_mul_zpow (n : Nat) (k : ℤ) :
    ⌊(n : ℚ) * 2 ^ k⌋ = ((n <<< k.toNat >>> (-k).toNat : Nat) : ℤ) := by
  rw [Nat.shiftLeft_eq, Nat.shiftRight_eq_div_pow]
  obtain ⟨j, rfl | rfl⟩ := k.eq_nat_or_neg
  · have hneg : (-(j : ℤ)).toNat = 0 := by omega
    rw [Int.toNat_natCast, hneg, pow_zero, Nat.div_one, zpow_natCast]
    exact_mod_cast Int.floor_natCast (R := ℚ) (n * 2 ^ j)
  · have hneg : (-(j : ℤ)).toNat = 0 := by omega
    rw [neg_neg, Int.toNat_natCast, hneg, pow_zero, Nat.mul_one, zpow_neg, zpow_natCast,
      ← div_eq_mul_inv]
    exact_mod_cast Rat.floor_natCast_div_natCast n (2 ^ j)

namespace FloatType

variable {t : FloatType} {bits b : Nat}

theorem unit_le : t.format.unit ≤ -t.format.sigBits := by cases t <;> decide

/-- The fields of `truncated` are those of the pattern. -/
theorem fields_mag (t : FloatType) (bits : Nat) :
    (bits >>> t.format.sigBits &&& t.format.expMask) = t.mag bits / 2 ^ t.format.sigBits ∧
      (bits &&& t.format.sigMask) = t.mag bits % 2 ^ t.format.sigBits := by
  have hle : t.format.sigBits ≤ t.format.signShift := by cases t <;> decide
  have hpow : 2 ^ t.format.signShift =
      2 ^ t.format.sigBits * 2 ^ (t.format.signShift - t.format.sigBits) := by
    rw [← pow_add, Nat.add_sub_cancel' hle]
  constructor
  · rw [Format.expMask, Nat.and_two_pow_sub_one_eq_mod, Nat.shiftRight_eq_div_pow, mag, hpow,
      Nat.mod_mul_right_div_self]
  · rw [Format.and_sigMask, mag, hpow, Nat.mod_mul_right_mod]

theorem floor_magnitude (t : FloatType) (b : Nat) :
    ⌊t.magnitude b⌋ =
      (truncatedMagnitude t.format (b / 2 ^ t.format.sigBits) (b % 2 ^ t.format.sigBits) : ℤ) := by
  unfold magnitude Nearest.magnitude truncatedMagnitude
  by_cases hzero : b / 2 ^ t.format.sigBits = 0
  · rw [if_pos hzero, if_pos hzero, Nat.cast_zero, Int.floor_eq_iff, Int.cast_zero, zero_add]
    -- the unit times less than `2 ^ sigBits`
    have hlt : b < 2 ^ t.format.sigBits := by
      rwa [Nat.div_eq_zero_iff_lt (Nat.two_pow_pos _)] at hzero
    have hcast : (b : ℚ) < 2 ^ t.format.sigBits := by exact_mod_cast hlt
    have hunit : (2 : ℚ) ^ t.format.unit ≤ 2 ^ (-(t.format.sigBits : ℤ)) :=
      zpow_le_zpow_right₀ one_le_two unit_le
    have hpos : (0 : ℚ) < 2 ^ (-(t.format.sigBits : ℤ)) := zpow_pos two_pos _
    refine ⟨mul_nonneg (Nat.cast_nonneg b) (zpow_pos two_pos _).le, ?_⟩
    calc (b : ℚ) * 2 ^ t.format.unit ≤ b * 2 ^ (-(t.format.sigBits : ℤ)) :=
          mul_le_mul_of_nonneg_left hunit (Nat.cast_nonneg b)
      _ < 2 ^ t.format.sigBits * 2 ^ (-(t.format.sigBits : ℤ)) := mul_lt_mul_of_pos_right hcast hpos
      _ = 1 := by rw [zpow_neg, zpow_natCast, mul_inv_cancel₀ (by positivity)]
  · have hshift : t.format.unit + (b / 2 ^ t.format.sigBits : ℕ) - 1 =
        (b / 2 ^ t.format.sigBits : ℕ) - t.format.expBias - t.format.sigBits := by
      simp only [Format.unit, Format.minExp]
      ring
    rw [if_neg hzero, if_neg hzero, hshift, floor_mul_zpow]

theorem truncated_eq (t : FloatType) (bits : Nat) :
    truncated t.format bits = truncate (t.toRat bits) := by
  obtain ⟨hexp, hsig⟩ := fields_mag t bits
  have hfloor := floor_magnitude t (t.mag bits)
  rw [truncated, hexp, hsig, toRat, neg]
  split
  · rw [truncate_neg magnitude_nonneg, hfloor]
  · rw [truncate, if_pos magnitude_nonneg, hfloor]

/-! ## Boundaries -/

/-- The patterns with numbers that are truncated into an integer type: those below `pos`, and for
negative numbers those below `neg`. -/
structure Boundary (t : FloatType) (signed : Bool) (width pos neg : Nat) : Prop where
  pos : t.Bound pos (if signed then 2 ^ (width - 1) else 2 ^ width)
  neg : t.Bound neg (if signed then 2 ^ (width - 1) + 1 else 1)

theorem Boundary.inIntRange_iff {signed : Bool} {width pos neg : Nat}
    (hb : t.Boundary signed width pos neg) :
    InIntRange signed width (truncate (t.toRat bits)) ↔
      if t.neg bits then t.mag bits < neg else t.mag bits < pos := by
  have hnonneg : 0 ≤ ⌊t.magnitude (t.mag bits)⌋ := Int.floor_nonneg.mpr magnitude_nonneg
  have hpos := hb.pos (t.mag bits)
  have hneg := hb.neg (t.mag bits)
  have hpow : (0 : ℤ) < 2 ^ (width - 1) := by positivity
  have hwide : (0 : ℤ) < 2 ^ width := by positivity
  have hlt : ∀ z : ℤ, ⌊t.magnitude (t.mag bits)⌋ < z ↔ t.magnitude (t.mag bits) < z :=
    fun _ => Int.floor_lt
  rw [toRat, InIntRange]
  cases signed with
  | true =>
    simp only [if_true] at hpos hneg ⊢
    have h₁ := hlt (2 ^ (width - 1))
    have h₂ := hlt (2 ^ (width - 1) + 1)
    push_cast at h₁ h₂
    cases t.neg bits with
    | true =>
      rw [if_pos rfl, if_pos rfl, truncate_neg magnitude_nonneg, ← hneg, ← h₂]
      omega
    | false =>
      rw [if_neg (by decide), if_neg (by decide), truncate, if_pos magnitude_nonneg, ← hpos, ← h₁]
      omega
  | false =>
    simp only [Bool.false_eq_true, if_false] at hpos hneg ⊢
    have h₁ := hlt (2 ^ width)
    have h₂ := hlt 1
    push_cast at h₁ h₂
    cases t.neg bits with
    | true =>
      rw [if_pos rfl, if_pos rfl, truncate_neg magnitude_nonneg, ← hneg, ← h₂]
      omega
    | false =>
      rw [if_neg (by decide), if_neg (by decide), truncate, if_pos magnitude_nonneg, ← hpos, ← h₁]
      omega

/-- The patterns from that of a power of 2 up to the next. -/
theorem magnitude_two_pow_add (t : FloatType) {k r : Nat} (hr : r ≤ 2 ^ t.format.sigBits) :
    t.magnitude ((k + t.format.expBias) * 2 ^ t.format.sigBits + r) =
      (2 ^ t.format.sigBits + r : ℕ) * 2 ^ ((k : ℤ) - t.format.sigBits) := by
  obtain ⟨e, he⟩ : ∃ e, k + t.format.expBias = e + 1 :=
    ⟨k + t.format.expBias - 1, by have := Format.expBias_pos (f := t.format); omega⟩
  have hexp : (k : ℤ) - t.format.sigBits = t.format.unit + e := by
    simp only [Format.unit, Format.minExp]
    omega
  rw [he, Nat.succ_mul, Nat.add_assoc, hexp]
  exact Nearest.magnitude_block (.inr (Nat.le_add_right _ _)) (by rw [pow_succ]; omega)

theorem magnitude_two_pow (t : FloatType) (k : Nat) :
    t.magnitude ((k + t.format.expBias) * 2 ^ t.format.sigBits) = 2 ^ k := by
  have h := magnitude_two_pow_add t (k := k) (Nat.zero_le _)
  rw [Nat.add_zero, Nat.add_zero] at h
  rw [h]
  push_cast
  rw [← zpow_natCast, ← zpow_natCast, ← zpow_add₀ two_ne_zero, add_sub_cancel]

theorem bound_two_pow (t : FloatType) (k : Nat) :
    t.Bound ((k + t.format.expBias) * 2 ^ t.format.sigBits) (2 ^ k) :=
  .of_eq (magnitude_two_pow t k)

theorem bound_one (t : FloatType) : t.Bound (t.format.expBias * 2 ^ t.format.sigBits) 1 := by
  simpa using bound_two_pow t 0

/-- From `2 ^ sigBits` on the integers are not all there. -/
theorem bound_two_pow_succ (t : FloatType) {k : Nat} (hk : t.format.sigBits ≤ k) :
    t.Bound ((k + t.format.expBias) * 2 ^ t.format.sigBits + 1) (2 ^ k + 1) := by
  refine .of_between ?_ ?_
  · rw [magnitude_two_pow]
    exact lt_add_one _
  · obtain ⟨j, rfl⟩ := Nat.exists_eq_add_of_le hk
    have hshift : ((t.format.sigBits + j : ℕ) : ℤ) - t.format.sigBits = (j : ℕ) := by
      push_cast
      ring
    have hone : (1 : ℚ) ≤ 2 ^ j := one_le_pow₀ one_le_two
    rw [magnitude_two_pow_add t Nat.one_le_two_pow, hshift, zpow_natCast]
    push_cast
    rw [pow_add, add_mul, one_mul]
    linarith

/-- The test for the range, by the patterns below which it takes a positive or a negative float. -/
structure Test (t : FloatType) (isInRange : Nat → Bool) (pos neg : Nat) : Prop where
  iff : ∀ bits, isInRange bits = true ↔
    bits < pos ∨ (t.negZero ≤ bits ∧ bits < t.negZero + neg)
  pos_le : pos ≤ t.negZero

theorem Test.iff_mag {isInRange : Nat → Bool} {pos neg : Nat} (h : t.Test isInRange pos neg)
    (hbits : bits < 2 ^ t.format.bits) :
    isInRange bits = true ↔ if t.neg bits then t.mag bits < neg else t.mag bits < pos := by
  have hsplit := split hbits
  have hmag := mag_lt t bits
  have hle := h.pos_le
  rw [h.iff]
  cases hneg : t.neg bits with
  | true =>
    rw [hneg, Bool.toNat_true, Nat.one_mul] at hsplit
    rw [if_pos rfl]
    omega
  | false =>
    rw [hneg, Bool.toNat_false, Nat.zero_mul, Nat.zero_add] at hsplit
    rw [if_neg (by decide)]
    omega

end FloatType

/-! ## The instructions -/

namespace Machine

variable {m : Machine} {vs : List Nat} {a : Nat} {rtype : ValueType} {t : FloatType}
  {isInRange : Nat → Bool} {signed : Bool}

/-- From `bits` on top of `vs` an instruction pushes the truncated number, and traps where there
is none or it is out of range. -/
def Truncates (rtype : ValueType) (t : FloatType) (signed : Bool) (instr : Exec Unit) (m : Machine)
    (vs : List Nat) (bits : Nat) : Prop :=
  if t.inf < t.mag bits then
    instr m = .error { m.setTop vs.length with result := .trapInvalidConversionToInteger }
  else if t.mag bits = t.inf ∨ ¬ InIntRange signed rtype.bits (truncate (t.toRat bits)) then
    instr m = .error { m.setTop vs.length with result := .trapIntegerOverflow }
  else ∃ entry, instr m = .ok () (m.put vs.length entry) ∧
    entry % 2 ^ rtype.bits = Words.wrap rtype.bits (truncate (t.toRat bits))

theorem truncFloat_run (h : m.Holds (vs ++ [a])) :
    truncFloat rtype t isInRange signed m =
      if t.isNan (a % 2 ^ t.valueType.bits) then
        .error { m.setTop vs.length with result := .trapInvalidConversionToInteger }
      else if isInRange (a % 2 ^ t.valueType.bits) then
        match castToInt t.format signed rtype.bits (a % 2 ^ t.valueType.bits) with
        | none => .abort
        | some x => .ok () (m.put vs.length (rtype.overlay a (BitVec.ofInt rtype.bits x).toNat))
      else .error { m.setTop vs.length with result := .trapIntegerOverflow } := by
  have hbits : (BitVec.ofNat t.valueType.bits a).toNat = a % 2 ^ t.valueType.bits :=
    BitVec.toNat_ofNat _ _
  rw [truncFloat, bind_run, popType_run h]
  simp only [hbits, bind_run, trapIf_run, trapUnless_run]
  cases t.isNan (a % 2 ^ t.valueType.bits) with
  | true => rfl
  | false =>
    cases isInRange (a % 2 ^ t.valueType.bits) with
    | false => rfl
    | true =>
      cases castToInt t.format signed rtype.bits (a % 2 ^ t.valueType.bits) with
      | none => rfl
      | some x => exact pushType_run rfl h.getElem?

/-- An instruction whose test stops before the boundary misses the numbers between. -/
theorem truncFloat_iff {pos neg pos' neg' : Nat} (h : m.Holds (vs ++ [a]))
    (hb : t.Boundary signed rtype.bits pos neg) (ht : t.Test isInRange pos' neg')
    (hpos : pos' ≤ pos ∧ pos ≤ t.inf) (hneg : neg' ≤ neg ∧ neg ≤ t.inf) :
    Truncates rtype t signed (truncFloat rtype t isInRange signed) m vs (a % 2 ^ t.valueType.bits) ↔
      ¬ if t.neg (a % 2 ^ t.valueType.bits) then
          neg' ≤ t.mag (a % 2 ^ t.valueType.bits) ∧ t.mag (a % 2 ^ t.valueType.bits) < neg
        else pos' ≤ t.mag (a % 2 ^ t.valueType.bits) ∧ t.mag (a % 2 ^ t.valueType.bits) < pos := by
  rw [Truncates, truncFloat_run h]
  generalize hbits : a % 2 ^ t.valueType.bits = bits
  have hlt : bits < 2 ^ t.format.bits := by
    have hwidth : t.format.bits = t.valueType.bits := by cases t <;> rfl
    rw [hwidth, ← hbits]
    exact Nat.mod_lt _ (Nat.two_pow_pos _)
  have hnan := t.isNan_iff hlt
  -- the bounds on the side of the sign
  obtain ⟨lo, hi, htest, hrange, hmissed, hle, hinf⟩ : ∃ lo hi,
      (isInRange bits = true ↔ t.mag bits < lo) ∧
      (InIntRange signed rtype.bits (truncate (t.toRat bits)) ↔ t.mag bits < hi) ∧
      ((if t.neg bits then neg' ≤ t.mag bits ∧ t.mag bits < neg
        else pos' ≤ t.mag bits ∧ t.mag bits < pos) ↔ lo ≤ t.mag bits ∧ t.mag bits < hi) ∧
      lo ≤ hi ∧ hi ≤ t.inf := by
    rw [ht.iff_mag hlt, hb.inIntRange_iff]
    cases t.neg bits with
    | true => exact ⟨neg', neg, by simp, by simp, by simp, hneg⟩
    | false => exact ⟨pos', pos, by simp, by simp, by simp, hpos⟩
  rw [hmissed]
  by_cases hn : t.inf < t.mag bits
  · rw [if_pos hn, if_pos (hnan.mpr hn)]
    simp only [true_iff]
    omega
  rw [if_neg hn, if_neg (mt hnan.mp hn)]
  by_cases hin : t.mag bits < hi
  · have hnumber : ¬ (t.mag bits = t.inf ∨
        ¬ InIntRange signed rtype.bits (truncate (t.toRat bits))) := by
      rw [hrange]
      omega
    rw [if_neg hnumber]
    by_cases htrue : isInRange bits = true
    · -- the cast is defined
      have hcast : castToInt t.format signed rtype.bits bits = some (truncate (t.toRat bits)) := by
        rw [castToInt, t.truncated_eq, if_pos (hrange.mpr hin)]
      have hbelow := htest.mp htrue
      rw [if_pos htrue, hcast]
      refine ⟨fun _ => by omega, fun _ => ⟨_, rfl, ?_⟩⟩
      rw [ValueType.overlay_mod, Nat.mod_eq_of_lt (BitVec.isLt _), Words.toNat_ofInt]
    · have habove := mt htest.mpr htrue
      rw [if_neg htrue]
      constructor
      · rintro ⟨entry, hok, -⟩
        cases hok
      · intro hnot
        omega
  · have hfalse : isInRange bits ≠ true := by
      rw [Ne, htest]
      omega
    rw [if_pos (.inr (by rwa [hrange])), if_neg hfalse]
    simp only [true_iff]
    omega

theorem truncates_of_test {pos neg : Nat} (h : m.Holds (vs ++ [a]))
    (hb : t.Boundary signed rtype.bits pos neg) (ht : t.Test isInRange pos neg) (hpos : pos ≤ t.inf)
    (hneg : neg ≤ t.inf) :
    Truncates rtype t signed (truncFloat rtype t isInRange signed) m vs
      (a % 2 ^ t.valueType.bits) := by
  rw [truncFloat_iff h hb ht ⟨le_rfl, hpos⟩ ⟨le_rfl, hneg⟩]
  split <;> omega

end Machine

/-! ## The eight boundaries and tests -/

namespace FloatType

theorem boundary_i32_s_f32 : f32.Boundary true 32 0x4f000000 0x4f000001 :=
  ⟨bound_two_pow f32 31, bound_two_pow_succ f32 (k := 31) (by decide)⟩

theorem boundary_i64_s_f32 : f32.Boundary true 64 0x5f000000 0x5f000001 :=
  ⟨bound_two_pow f32 63, bound_two_pow_succ f32 (k := 63) (by decide)⟩

theorem boundary_i32_u_f32 : f32.Boundary false 32 0x4f800000 0x3f800000 :=
  ⟨bound_two_pow f32 32, bound_one f32⟩

theorem boundary_i64_u_f32 : f32.Boundary false 64 0x5f800000 0x3f800000 :=
  ⟨bound_two_pow f32 64, bound_one f32⟩

theorem boundary_i64_s_f64 : f64.Boundary true 64 0x43e0000000000000 0x43e0000000000001 :=
  ⟨bound_two_pow f64 63, bound_two_pow_succ f64 (k := 63) (by decide)⟩

theorem boundary_i32_u_f64 : f64.Boundary false 32 0x41f0000000000000 0x3ff0000000000000 :=
  ⟨bound_two_pow f64 32, bound_one f64⟩

theorem boundary_i64_u_f64 : f64.Boundary false 64 0x43f0000000000000 0x3ff0000000000000 :=
  ⟨bound_two_pow f64 64, bound_one f64⟩

/-- A `double` can be `2 ^ 31 + 1`. -/
theorem boundary_i32_s_f64 : f64.Boundary true 32 0x41e0000000000000 0x41e0000000200000 := by
  refine ⟨bound_two_pow f64 31, .of_eq ?_⟩
  have h := magnitude_two_pow_add f64 (k := 31) (r := 2 ^ 21) (by decide)
  refine Eq.trans h ?_
  norm_num [format, Literal.f64]

theorem test_i32_s_f32 : f32.Test isInRangeI32TruncSF32 0x4f000000 0x4f000001 :=
  ⟨fun _ => by rw [isInRangeI32TruncSF32, decide_eq_true_iff]; simp only [negZero]; omega, by decide⟩

theorem test_i64_s_f32 : f32.Test isInRangeI64TruncSF32 0x5f000000 0x5f000001 :=
  ⟨fun _ => by rw [isInRangeI64TruncSF32, decide_eq_true_iff]; simp only [negZero]; omega, by decide⟩

theorem test_i32_u_f32 : f32.Test isInRangeI32TruncUF32 0x4f800000 0x3f800000 :=
  ⟨fun _ => by rw [isInRangeI32TruncUF32, decide_eq_true_iff]; simp only [negZero, negOne],
    by decide⟩

theorem test_i64_u_f32 : f32.Test isInRangeI64TruncUF32 0x5f800000 0x3f800000 :=
  ⟨fun _ => by rw [isInRangeI64TruncUF32, decide_eq_true_iff]; simp only [negZero, negOne],
    by decide⟩

theorem test_i32_s_f64 : f64.Test isInRangeI32TruncSF64 0x41dfffffffc00001 0x41e0000000000001 :=
  ⟨fun _ => by rw [isInRangeI32TruncSF64, decide_eq_true_iff]; simp only [negZero]; omega, by decide⟩

theorem test_i64_s_f64 : f64.Test isInRangeI64TruncSF64 0x43e0000000000000 0x43e0000000000001 :=
  ⟨fun _ => by rw [isInRangeI64TruncSF64, decide_eq_true_iff]; simp only [negZero]; omega, by decide⟩

theorem test_i32_u_f64 : f64.Test isInRangeI32TruncUF64 0x41efffffffe00001 0x3ff0000000000000 :=
  ⟨fun _ => by rw [isInRangeI32TruncUF64, decide_eq_true_iff]; simp only [negZero, negOne]; omega,
    by decide⟩

theorem test_i64_u_f64 : f64.Test isInRangeI64TruncUF64 0x43f0000000000000 0x3ff0000000000000 :=
  ⟨fun _ => by rw [isInRangeI64TruncUF64, decide_eq_true_iff]; simp only [negZero, negOne],
    by decide⟩

end FloatType

/-! ## All of them -/

/-- The type of the result, that of the operand, and whether the result is signed. -/
def truncInstruction? : WasmOpcode → Option (ValueType × FloatType × Bool)
  | .i32TruncSF32 => some (.i32, .f32, true)
  | .i32TruncSF64 => some (.i32, .f64, true)
  | .i32TruncUF32 => some (.i32, .f32, false)
  | .i32TruncUF64 => some (.i32, .f64, false)
  | .i64TruncSF32 => some (.i64, .f32, true)
  | .i64TruncSF64 => some (.i64, .f64, true)
  | .i64TruncUF32 => some (.i64, .f32, false)
  | .i64TruncUF64 => some (.i64, .f64, false)
  | _ => none

/-- The operands between the last integer in range and the next. -/
def TruncMissed : WasmOpcode → Nat → Prop
  | .i32TruncSF64, bits =>
    (0x41dfffffffc00000 < bits ∧ bits < 0x41e0000000000000) ∨
      (0xc1e0000000000000 < bits ∧ bits < 0xc1e0000000200000)
  | .i32TruncUF64, bits => 0x41efffffffe00000 < bits ∧ bits < 0x41f0000000000000
  | _, _ => False

namespace FloatType

theorem missed_s_iff {bits : Nat} (h : bits < 2 ^ f64.format.bits) :
    (if f64.neg bits then 0x41e0000000000001 ≤ f64.mag bits ∧ f64.mag bits < 0x41e0000000200000
      else 0x41dfffffffc00001 ≤ f64.mag bits ∧ f64.mag bits < 0x41e0000000000000) ↔
      TruncMissed .i32TruncSF64 bits := by
  have hsplit := split h
  have hmag := mag_lt f64 bits
  simp only [negZero] at hsplit hmag
  rw [TruncMissed]
  cases hneg : f64.neg bits with
  | true =>
    rw [hneg, Bool.toNat_true] at hsplit
    rw [if_pos rfl]
    omega
  | false =>
    rw [hneg, Bool.toNat_false] at hsplit
    rw [if_neg (by decide)]
    omega

theorem missed_u_iff {bits : Nat} (h : bits < 2 ^ f64.format.bits) :
    (if f64.neg bits then 0x3ff0000000000000 ≤ f64.mag bits ∧ f64.mag bits < 0x3ff0000000000000
      else 0x41efffffffe00001 ≤ f64.mag bits ∧ f64.mag bits < 0x41f0000000000000) ↔
      TruncMissed .i32TruncUF64 bits := by
  have hsplit := split h
  have hmag := mag_lt f64 bits
  simp only [negZero] at hsplit hmag
  rw [TruncMissed]
  cases hneg : f64.neg bits with
  | true =>
    rw [hneg, Bool.toNat_true] at hsplit
    rw [if_pos rfl]
    omega
  | false =>
    rw [hneg, Bool.toNat_false] at hsplit
    rw [if_neg (by decide)]
    omega

end FloatType

namespace Machine

theorem execute_trunc_iff (p : Platform) (top : Nat) {op : WasmOpcode} {rtype : ValueType}
    {t : FloatType} {signed : Bool} (hop : truncInstruction? op = some (rtype, t, signed))
    {m : Machine} {vs : List Nat} {a : Nat} (h : m.Holds (vs ++ [a])) :
    Truncates rtype t signed (execute p top op) m vs (a % 2 ^ t.valueType.bits) ↔
      ¬ TruncMissed op (a % 2 ^ t.valueType.bits) := by
  have hlt : ∀ t : FloatType, a % 2 ^ t.valueType.bits < 2 ^ t.format.bits := fun t => by
    have hwidth : t.format.bits = t.valueType.bits := by cases t <;> rfl
    rw [hwidth]
    exact Nat.mod_lt _ (Nat.two_pow_pos _)
  cases op with
  | i32TruncSF32 =>
    cases hop
    exact iff_of_true (truncates_of_test h FloatType.boundary_i32_s_f32 FloatType.test_i32_s_f32
      (by decide) (by decide)) id
  | i64TruncSF32 =>
    cases hop
    exact iff_of_true (truncates_of_test h FloatType.boundary_i64_s_f32 FloatType.test_i64_s_f32
      (by decide) (by decide)) id
  | i32TruncUF32 =>
    cases hop
    exact iff_of_true (truncates_of_test h FloatType.boundary_i32_u_f32 FloatType.test_i32_u_f32
      (by decide) (by decide)) id
  | i64TruncUF32 =>
    cases hop
    exact iff_of_true (truncates_of_test h FloatType.boundary_i64_u_f32 FloatType.test_i64_u_f32
      (by decide) (by decide)) id
  | i64TruncSF64 =>
    cases hop
    exact iff_of_true (truncates_of_test h FloatType.boundary_i64_s_f64 FloatType.test_i64_s_f64
      (by decide) (by decide)) id
  | i64TruncUF64 =>
    cases hop
    exact iff_of_true (truncates_of_test h FloatType.boundary_i64_u_f64 FloatType.test_i64_u_f64
      (by decide) (by decide)) id
  | i32TruncSF64 =>
    cases hop
    refine (truncFloat_iff h FloatType.boundary_i32_s_f64 FloatType.test_i32_s_f64
      ⟨by decide, by decide⟩ ⟨by decide, by decide⟩).trans (not_congr ?_)
    exact FloatType.missed_s_iff (hlt .f64)
  | i32TruncUF64 =>
    cases hop
    refine (truncFloat_iff h FloatType.boundary_i32_u_f64 FloatType.test_i32_u_f64
      ⟨by decide, by decide⟩ ⟨by decide, by decide⟩).trans (not_congr ?_)
    exact FloatType.missed_u_iff (hlt .f64)
  | _ => cases hop

theorem execute_trunc_one :
    Truncates .i32 .f64 true (execute .null 0 .i32TruncSF64) (ofStack [0x3ff0000000000000]) []
      0x3ff0000000000000 := by
  have h : (ofStack [0x3ff0000000000000]).Holds ([] ++ [0x3ff0000000000000]) := ofStack_holds _
  have hop : truncInstruction? .i32TruncSF64 = some (.i32, .f64, true) := rfl
  exact (execute_trunc_iff .null 0 hop h).mpr (by simp [TruncMissed, FloatType.valueType, ValueType.bits])

/-- 2147483647.5 is truncated to an integer in range, and the instruction traps. -/
theorem execute_trunc_half :
    ¬ Truncates .i32 .f64 true (execute .null 0 .i32TruncSF64) (ofStack [0x41dfffffffe00000]) []
      0x41dfffffffe00000 := by
  have h : (ofStack [0x41dfffffffe00000]).Holds ([] ++ [0x41dfffffffe00000]) := ofStack_holds _
  have hb : FloatType.f64.Boundary true ValueType.i32.bits 0x41e0000000000000 0x41e0000000200000 :=
    FloatType.boundary_i32_s_f64
  have hiff := truncFloat_iff h hb FloatType.test_i32_s_f64 ⟨by decide, by decide⟩
    ⟨by decide, by decide⟩
  rw [FloatType.missed_s_iff (by decide)] at hiff
  exact mt hiff.mp (not_not.mpr (.inl (by simp [FloatType.valueType, ValueType.bits])))

end Machine

end Interpreter

end SexprWasm
