import SexprWasm.Lib.Nearest
import SexprWasm.Literal.Float

/-!
# The rounding of the hex float parsers

`shift_float_and_round_to_nearest` adds a half only where the number
that is left is odd, so it rounds up from a half on there and never
elsewhere (`roundOdd`). A subnormal is rounded twice. `Misrounds` says
for which numbers that is not the nearest float.
-/

namespace SexprWasm

namespace Literal

namespace Format

variable {f : Format} {m s p exp sig : Nat} {E : Int}

/-- The exponent of the smallest float. -/
def unit (f : Format) : Int := f.minExp + 1 - f.sigBits

/-- The pattern of infinity, without the sign. -/
def infinityBits (f : Format) : Nat := f.expMask * 2 ^ f.sigBits

/-- The bit of the sign. -/
def signBits (f : Format) (isNeg : Bool) : Nat := isNeg.toNat * 2 ^ f.signShift

/-! ## Words -/

theorem expMask_eq : f.expMask = 2 * f.expBias + 1 := by
  have hle := f.le_bits
  have hpow : 2 ^ (f.signShift - f.sigBits) = 2 * 2 ^ (f.signShift - f.sigBits - 1) := by
    rw [← pow_succ']
    congr 1
    unfold signShift
    omega
  have hpos := Nat.two_pow_pos (f.signShift - f.sigBits - 1)
  unfold expMask expBias
  omega

theorem two_pow_signShift : 2 ^ f.signShift = (f.expMask + 1) * 2 ^ f.sigBits := by
  have hle := f.le_bits
  have hmask : f.expMask + 1 = 2 ^ (f.signShift - f.sigBits) :=
    Nat.sub_add_cancel (Nat.two_pow_pos _)
  rw [hmask, ← pow_add]
  congr 1
  unfold signShift
  omega

theorem expBias_pos : 0 < f.expBias := by
  have hle := f.le_bits
  have : 2 ^ 1 ≤ 2 ^ (f.signShift - f.sigBits - 1) :=
    Nat.pow_le_pow_right (by decide) (by unfold signShift; omega)
  unfold expBias
  omega

theorem make_of {sign : Bool} (hlo : f.minExp ≤ E) (hhi : E ≤ f.maxExp) (hsig : sig < 2 ^ f.sigBits) :
    f.make sign E sig =
      some (f.signBits sign + ((E + f.expBias).toNat * 2 ^ f.sigBits + sig)) := by
  have hmask : sig ≤ f.sigMask := Nat.le_sub_one_of_lt hsig
  have hexp : (E + f.expBias).toNat ≤ f.expMask := by
    rw [expMask_eq]
    unfold maxExp at hhi
    omega
  have hlow : (E + f.expBias).toNat * 2 ^ f.sigBits + sig < 2 ^ f.signShift := by
    rw [two_pow_signShift]
    have := Nat.mul_le_mul_right (2 ^ f.sigBits) hexp
    rw [Nat.add_mul, Nat.one_mul]
    omega
  unfold make signBits
  rw [if_pos ⟨hlo, hhi, hmask⟩, Nat.or_assoc, ← Nat.shiftLeft_add_eq_or_of_lt hsig,
    ← Nat.shiftLeft_add_eq_or_of_lt (by rwa [Nat.shiftLeft_eq]), Nat.shiftLeft_eq, Nat.shiftLeft_eq]

theorem sub_clz (hm : m ≠ 0) (hlt : m < 2 ^ f.bits) : f.bits - f.clz m = m.log2 + 1 := by
  have hlog := (Nat.log2_lt hm).mpr hlt
  unfold clz
  omega

/-! ## Rounding in integers -/

/-- `m / 2 ^ s`, one more if that is odd and at least a half is left. -/
def roundOdd (m s : Nat) : Nat := m / 2 ^ s + if m.testBit s ∧ 2 ^ s ≤ 2 * (m % 2 ^ s) then 1 else 0

theorem two_pow_pred (hs : s ≠ 0) : 2 * 2 ^ (s - 1) = 2 ^ s := by
  rw [← pow_succ']
  congr 1
  omega

theorem shiftAndRoundToNearest_of (hs : s ≠ 0) (hfit : m + 2 ^ (s - 1) < 2 ^ f.bits) :
    f.shiftAndRoundToNearest m s = some (roundOdd m s) := by
  have hpos := Nat.two_pow_pos s
  have hhalf := two_pow_pred hs
  have hmod := Nat.mod_lt m hpos
  have hdiv := Nat.div_add_mod m (2 ^ s)
  have hmul : ∀ k, (m / 2 ^ s + k) * 2 ^ s = 2 ^ s * (m / 2 ^ s) + k * 2 ^ s := fun k => by ring
  unfold shiftAndRoundToNearest roundOdd
  rw [if_neg hs]
  by_cases hbit : m.testBit s
  · rw [if_pos hbit, Nat.shiftLeft_eq, Nat.one_mul, Nat.mod_eq_of_lt hfit,
      Nat.shiftRight_eq_div_pow]
    by_cases hle : 2 ^ s ≤ 2 * (m % 2 ^ s)
    · rw [if_pos ⟨hbit, hle⟩]
      congr 1
      refine Nat.div_eq_of_lt_le ?_ ?_
      · rw [hmul]
        omega
      · rw [Nat.add_assoc, hmul]
        omega
    · rw [if_neg (fun h => hle h.2)]
      congr 1
      refine Nat.div_eq_of_lt_le ?_ ?_
      · rw [hmul]
        omega
      · rw [Nat.add_assoc, hmul]
        omega
  · rw [if_neg hbit, if_neg (fun h => hbit h.1), Nat.shiftRight_eq_div_pow]
    rfl

/-- A significand is rounded to `p` bits, or shifted up to as many. -/
def roundTo (p m : Nat) : Nat :=
  if p < m.log2 + 1 then roundOdd m (m.log2 + 1 - p) else m * 2 ^ (p - (m.log2 + 1))

theorem roundOdd_le : roundOdd m s ≤ m / 2 ^ s + 1 := by
  unfold roundOdd
  split_ifs <;> omega

theorem roundTo_le (hm : m ≠ 0) : roundTo p m ≤ 2 ^ p := by
  have hlt := Nat.lt_log2_self (n := m)
  unfold roundTo
  split_ifs with hp
  · have hdiv : m / 2 ^ (m.log2 + 1 - p) < 2 ^ p := by
      rw [Nat.div_lt_iff_lt_mul (Nat.two_pow_pos _), ← pow_add]
      rwa [Nat.add_sub_cancel' (by omega)]
    exact le_trans roundOdd_le hdiv
  · calc m * 2 ^ (p - (m.log2 + 1)) ≤ 2 ^ (m.log2 + 1) * 2 ^ (p - (m.log2 + 1)) :=
          Nat.mul_le_mul_right _ hlt.le
      _ = 2 ^ p := by rw [← pow_add, Nat.add_sub_cancel' (by omega)]

theorem le_roundTo (hm : m ≠ 0) (hp : p ≠ 0) : 2 ^ (p - 1) ≤ roundTo p m := by
  have hle := Nat.log2_self_le hm
  unfold roundTo
  split_ifs with hlog
  · have hdiv : 2 ^ (p - 1) ≤ m / 2 ^ (m.log2 + 1 - p) := by
      rw [Nat.le_div_iff_mul_le (Nat.two_pow_pos _), ← pow_add]
      rwa [show p - 1 + (m.log2 + 1 - p) = m.log2 by omega]
    unfold roundOdd
    omega
  · calc 2 ^ (p - 1) = 2 ^ m.log2 * 2 ^ (p - (m.log2 + 1)) := by
          rw [← pow_add]
          congr 1
          omega
      _ ≤ m * 2 ^ (p - (m.log2 + 1)) := Nat.mul_le_mul_right _ hle

/-- The significand is not so close to the end of the word that rounding it would wrap around. -/
def Fits (f : Format) (m : Nat) : Prop := m + 2 ^ (f.bits - f.sigBits - 1) < 2 ^ f.bits

/-- What `parse_float_hex` rounds to, without the sign; `none` is a failing assertion. -/
def roundedBits (f : Format) (m : Nat) (E : Int) : Option Nat :=
  if f.maxExp ≤ E then some f.infinityBits
  else if E ≤ f.minExp then
    let q := roundTo f.sigBits m
    let s := (f.minExp - E).toNat
    if s = 0 then if q < 2 ^ f.sigBits then some q else none
    else if s < f.sigBits then some (roundOdd q s)
    else some 0
  else some ((E + f.expBias - 1).toNat * 2 ^ f.sigBits + roundTo (f.sigBits + 1) m)

theorem Fits.lt (h : f.Fits m) : m < 2 ^ f.bits := lt_of_le_of_lt (Nat.le_add_right _ _) h

theorem toPrecision_of (hm : m ≠ 0) (hfit : f.Fits m) (hlo : f.sigBits ≤ p)
    (hhi : p ≤ f.sigBits + 1) : f.toPrecision p m = some (roundTo p m) := by
  have hlog := (Nat.log2_lt hm).mpr hfit.lt
  have hle := f.le_bits
  unfold toPrecision roundTo
  simp only [sub_clz hm hfit.lt]
  by_cases hp : m.log2 + 1 > p
  · have hhalf : 2 ^ (m.log2 + 1 - p - 1) ≤ 2 ^ (f.bits - f.sigBits - 1) :=
      Nat.pow_le_pow_right (by decide) (by omega)
    have hfit' : m + 2 ^ (f.bits - f.sigBits - 1) < 2 ^ f.bits := hfit
    rw [if_pos hp, if_pos hp, shiftAndRoundToNearest_of (by omega) (by omega)]
  · have hshift := roundTo_le (p := p) hm
    rw [roundTo, if_neg hp] at hshift
    have hpow : 2 ^ p < 2 ^ f.bits := Nat.pow_lt_pow_right (by decide) (by omega)
    rw [if_neg hp, if_neg hp, Nat.shiftLeft_eq, Nat.mod_eq_of_lt (by omega)]

theorem and_sigMask (n : Nat) : n &&& f.sigMask = n % 2 ^ f.sigBits :=
  Nat.and_two_pow_sub_one_eq_mod n f.sigBits

theorem minExp_add : f.minExp + f.expBias = 0 := by
  unfold minExp
  omega

theorem minExp_lt_maxExp : f.minExp < f.maxExp := by
  unfold minExp maxExp
  omega

theorem make_minExp {isNeg : Bool} (hsig : sig < 2 ^ f.sigBits) :
    f.make isNeg f.minExp sig = some (f.signBits isNeg + sig) := by
  rw [make_of le_rfl minExp_lt_maxExp.le hsig, minExp_add]
  simp

theorem denormalize_of (hq : m ≤ 2 ^ f.sigBits) (hs : s < f.sigBits) :
    f.denormalize m s = some (if s = 0 then m else roundOdd m s) ∧
      (s ≠ 0 → roundOdd m s < 2 ^ f.sigBits) := by
  have hS := f.le_sigBits
  have hSpred := two_pow_pred (s := f.sigBits) (by omega)
  have hlarge : 2 ^ 1 < 2 ^ (f.sigBits - 1) := Nat.pow_lt_pow_right (by decide) (by omega)
  have hbits : 2 ^ (f.sigBits + 1) ≤ 2 ^ f.bits :=
    Nat.pow_le_pow_right (by decide) (by have := f.le_bits; omega)
  have hS1 : 2 ^ (f.sigBits + 1) = 2 * 2 ^ f.sigBits := pow_succ' ..
  have hlt : s ≠ 0 → roundOdd m s < 2 ^ f.sigBits := by
    intro hs
    have hdiv : m / 2 ^ s ≤ m / 2 := Nat.div_le_div_left
      (le_trans (by decide) (Nat.pow_le_pow_right (by decide) (Nat.one_le_iff_ne_zero.mpr hs)))
      (by decide)
    have := roundOdd_le (m := m) (s := s)
    omega
  refine ⟨?_, hlt⟩
  unfold denormalize
  by_cases hzero : s = 0
  · rw [if_neg (not_not.mpr hzero), if_pos hzero]
  · have hhalf : 2 ^ (s - 1) ≤ 2 ^ (f.sigBits - 1) := Nat.pow_le_pow_right (by decide) (by omega)
    rw [if_pos hzero, if_neg hzero, shiftAndRoundToNearest_of hzero (by omega), Option.map_some,
      and_sigMask, Nat.mod_eq_of_lt (hlt hzero)]

theorem make_zero_or {isNeg : Bool} :
    (if sig ≠ 0 then f.make isNeg f.minExp sig else f.make isNeg f.minExp 0) =
      f.make isNeg f.minExp sig := by
  split_ifs with h
  · rfl
  · rw [not_not.mp h]

theorem roundSubnormal_of (isNeg : Bool) (hm : m ≠ 0) (hfit : f.Fits m) (hE : E ≤ f.minExp) :
    f.roundSubnormal isNeg m E = (f.roundedBits m E).map (f.signBits isNeg + ·) := by
  have hq := roundTo_le (p := f.sigBits) hm
  unfold roundSubnormal roundedBits
  rw [toPrecision_of hm hfit le_rfl (by omega), Option.bind_eq_bind, Option.bind_some,
    if_neg (not_le.mpr (lt_of_le_of_lt hE minExp_lt_maxExp)), if_pos hE]
  simp only []
  by_cases hs : (f.minExp - E).toNat < f.sigBits
  · obtain ⟨hden, hlt⟩ := denormalize_of hq hs
    rw [if_pos hs, hden, Option.bind_some, make_zero_or]
    by_cases hzero : (f.minExp - E).toNat = 0
    · rw [if_pos hzero, if_pos hzero]
      by_cases hlt : roundTo f.sigBits m < 2 ^ f.sigBits
      · rw [if_pos hlt, make_minExp hlt]
        rfl
      · have hmask : ¬ roundTo f.sigBits m ≤ f.sigMask := by
          have := Nat.two_pow_pos f.sigBits
          unfold sigMask
          omega
        rw [if_neg hlt, make, if_neg (fun h => hmask h.2.2)]
        rfl
    · rw [if_neg hzero, if_neg hzero, if_pos hs, make_minExp (hlt hzero)]
      rfl
  · have hzero : (f.minExp - E).toNat ≠ 0 := by
      have := f.le_sigBits
      omega
    rw [if_neg hs, if_neg hzero, if_neg hs, make_minExp (Nat.two_pow_pos _)]
    rfl

theorem roundNormal_of (isNeg : Bool) (hm : m ≠ 0) (hfit : f.Fits m) (hlo : f.minExp < E)
    (hhi : E < f.maxExp) :
    f.roundNormal isNeg m E = (f.roundedBits m E).map (f.signBits isNeg + ·) := by
  have hpos := Nat.two_pow_pos f.sigBits
  have hS1 : 2 ^ (f.sigBits + 1) = 2 * 2 ^ f.sigBits := pow_succ' ..
  have hq := roundTo_le (p := f.sigBits + 1) hm
  have hq0 := le_roundTo (p := f.sigBits + 1) hm (Nat.succ_ne_zero _)
  have hbias := minExp_add (f := f)
  rw [Nat.add_sub_cancel] at hq0
  unfold roundNormal roundedBits
  rw [show f.sigPlusOneBits = f.sigBits + 1 from rfl,
    toPrecision_of hm hfit (by omega) le_rfl, Option.bind_eq_bind, Option.bind_some,
    if_neg (not_le.mpr hhi), if_neg (not_le.mpr hlo), sub_clz hm hfit.lt, and_sigMask]
  have hmask : f.sigPlusOneMask = 2 ^ (f.sigBits + 1) - 1 := rfl
  obtain ⟨k, hk⟩ : ∃ k : Nat, (k : Int) + 1 = E + f.expBias := ⟨(E + f.expBias - 1).toNat, by omega⟩
  have hk0 : (E + f.expBias - 1).toNat = k := by omega
  rw [hk0, Option.map_some]
  by_cases hcarry : roundTo (f.sigBits + 1) m = 2 ^ (f.sigBits + 1)
  · have hbits : m.log2 + 1 > f.sigBits + 1 := by
      by_contra hle
      have hlt := Nat.lt_log2_self (n := m)
      rw [roundTo, if_neg hle] at hcarry
      have : m * 2 ^ (f.sigBits + 1 - (m.log2 + 1)) <
          2 ^ (m.log2 + 1) * 2 ^ (f.sigBits + 1 - (m.log2 + 1)) :=
        Nat.mul_lt_mul_of_pos_right hlt (Nat.two_pow_pos _)
      rw [← pow_add, Nat.add_sub_cancel' (by omega)] at this
      omega
    have hexp : (E + 1 + f.expBias).toNat = k + 2 := by omega
    rw [if_pos ⟨hbits, by rw [hmask]; omega⟩, hcarry, hS1, Nat.mul_mod_left,
      make_of (by omega) (by omega) hpos, hexp]
    congr 2
    ring
  · have hexp : (E + f.expBias).toNat = k + 1 := by omega
    have hmod : roundTo (f.sigBits + 1) m % 2 ^ f.sigBits = roundTo (f.sigBits + 1) m - 2 ^ f.sigBits := by
      rw [Nat.mod_eq_sub_mod hq0, Nat.mod_eq_of_lt (by omega)]
    rw [if_neg (fun h => by have := h.2; rw [hmask] at this; omega), hmod,
      make_of hlo.le hhi.le (by omega), hexp, Nat.add_mul, Nat.one_mul]
    congr 2
    omega

/-- `round`, the sign apart. -/
theorem round_of (isNeg : Bool) (hm : m ≠ 0) (hfit : f.Fits m) :
    f.round isNeg m E = (f.roundedBits m E).map (f.signBits isNeg + ·) := by
  unfold round
  split_ifs with hmax hmin
  · have hexp : (f.maxExp + f.expBias).toNat = f.expMask := by
      rw [expMask_eq]
      unfold maxExp
      omega
    rw [make_of minExp_lt_maxExp.le le_rfl (Nat.two_pow_pos _), hexp, roundedBits, if_pos hmax]
    rfl
  · exact roundSubnormal_of isNeg hm hfit hmin
  · exact roundNormal_of isNeg hm hfit (not_le.mp hmin) (not_le.mp hmax)

end Format

end Literal

end SexprWasm
