import SexprWasm.Literal.FloatRound
import Mathlib.Tactic.LinearCombination

/-!
# When the hex float parsers round to the nearest float

The number to be rounded is `(m + δ) * 2 ^ X`, where `m` is the
significand that was kept and `δ` what the digits dropped add to it.
-/

namespace SexprWasm

namespace Literal

namespace Format

open Nearest

variable {f : Format} {m s p q : Nat} {E X : Int} {x δ r : ℚ}

/-! ## `roundOdd` in rationals -/

/-- `δ` is below a half of the last of the bits a short significand is shifted up to. -/
structure Dropped (f : Format) (m : Nat) (δ : ℚ) : Prop where
  nonneg : 0 ≤ δ
  lt_one : δ < 1
  small : m.log2 ≤ f.sigBits → δ * 2 ^ (f.sigBits - m.log2) < 1

theorem odd_iff_of_two_dvd {a b : Nat} (h : 2 ∣ a) : Odd (a + b) ↔ Odd b := by
  obtain ⟨c, rfl⟩ := h
  rw [Nat.odd_iff, Nat.odd_iff]
  omega

theorem testBit_iff : m.testBit s = true ↔ Odd (m / 2 ^ s) := by
  rw [Nat.testBit_eq_decide_div_mod_eq, decide_eq_true_eq, Nat.odd_iff]

theorem roundOdd_eq (hs : s ≠ 0) (hδ : 0 ≤ δ) (hδ1 : δ < 1) (hr : 0 ≤ r) (hr1 : r < 1)
    (h : (m : ℚ) + δ = (q + r) * 2 ^ s) :
    roundOdd m s = q + if Odd q ∧ 1 / 2 ≤ r then 1 else 0 := by
  have hpos : (0 : ℚ) < 2 ^ s := by positivity
  have hhalf : (2 : ℚ) * 2 ^ (s - 1) = 2 ^ s := by exact_mod_cast two_pow_pred hs
  have hlo : q * 2 ^ s ≤ m := by
    have hlt : ((q * 2 ^ s : Nat) : ℚ) < (m + 1 : Nat) := by
      push_cast
      nlinarith
    exact Nat.lt_succ_iff.mp (by exact_mod_cast hlt)
  have hhi : m < (q + 1) * 2 ^ s := by
    have hlt : (m : ℚ) < (((q + 1) * 2 ^ s : Nat) : ℚ) := by
      push_cast
      nlinarith
    exact_mod_cast hlt
  have hdiv : m / 2 ^ s = q := Nat.div_eq_of_lt_le hlo hhi
  have hmod : ((m % 2 ^ s : Nat) : ℚ) + δ = r * 2 ^ s := by
    have hsplit : ((2 ^ s * (m / 2 ^ s) + m % 2 ^ s : Nat) : ℚ) = m := by
      rw [Nat.div_add_mod]
    rw [hdiv] at hsplit
    push_cast at hsplit ⊢
    linarith
  have hle : 2 ^ s ≤ 2 * (m % 2 ^ s) ↔ 1 / 2 ≤ r := by
    have hpred := two_pow_pred hs
    constructor
    · intro hle
      have hle' : ((2 ^ s : Nat) : ℚ) ≤ ((2 * (m % 2 ^ s) : Nat) : ℚ) := Nat.cast_le.mpr hle
      push_cast at hle' hmod
      nlinarith
    · intro hle
      have hlt : ((2 ^ (s - 1) : Nat) : ℚ) < ((m % 2 ^ s + 1 : Nat) : ℚ) := by
        push_cast at hmod ⊢
        nlinarith
      have hlt' := Nat.cast_lt.mp hlt
      omega
  unfold roundOdd
  simp only [testBit_iff, hdiv, hle]

/-- A natural and less than one is its floor and its fraction. -/
theorem eq_of_add_eq {a b : Nat} {c d : ℚ} (hc : 0 ≤ c) (hc1 : c < 1) (hd : 0 ≤ d) (hd1 : d < 1)
    (h : (a : ℚ) + c = b + d) : a = b ∧ c = d := by
  have hab : a = b := by
    have h₁ : (a : ℚ) < (b + 1 : Nat) := by
      push_cast
      linarith
    have h₂ : (b : ℚ) < (a + 1 : Nat) := by
      push_cast
      linarith
    have h₁' : a < b + 1 := by exact_mod_cast h₁
    have h₂' : b < a + 1 := by exact_mod_cast h₂
    omega
  subst hab
  exact ⟨rfl, by linarith⟩

/-- Rounding to one bit less than the precision, for the subnormals. -/
theorem roundTo_sigBits (hd : f.Dropped m δ) (hr : 0 ≤ r) (hr1 : r < 1)
    (h : ((m : ℚ) + δ) * 2 ^ f.sigBits = (q + r) * 2 ^ (m.log2 + 1)) :
    roundTo f.sigBits m = q + if Odd q ∧ 1 / 2 ≤ r then 1 else 0 := by
  have hpos : (0 : ℚ) < 2 ^ f.sigBits := by positivity
  unfold roundTo
  by_cases hlog : f.sigBits < m.log2 + 1
  · rw [if_pos hlog]
    refine roundOdd_eq (by omega) hd.nonneg hd.lt_one hr hr1 ?_
    rw [show m.log2 + 1 = m.log2 + 1 - f.sigBits + f.sigBits by omega, pow_add, ← mul_assoc] at h
    exact mul_right_cancel₀ hpos.ne' h
  · have hpos' : (0 : ℚ) < 2 ^ (m.log2 + 1) := by positivity
    have hsmall := hd.small (by omega)
    rw [show f.sigBits - m.log2 = f.sigBits - (m.log2 + 1) + 1 by omega, pow_succ,
      ← mul_assoc] at hsmall
    have hnonneg : (0 : ℚ) ≤ δ * 2 ^ (f.sigBits - (m.log2 + 1)) := mul_nonneg hd.nonneg (by positivity)
    have hsum : ((m * 2 ^ (f.sigBits - (m.log2 + 1)) : Nat) : ℚ) +
        δ * 2 ^ (f.sigBits - (m.log2 + 1)) = q + r := by
      have hsplit : (2 : ℚ) ^ f.sigBits = 2 ^ (f.sigBits - (m.log2 + 1)) * 2 ^ (m.log2 + 1) := by
        rw [← pow_add]
        congr 1
        omega
      rw [hsplit, ← mul_assoc] at h
      have := mul_right_cancel₀ hpos'.ne' h
      push_cast
      linarith
    obtain ⟨hq, hr'⟩ := eq_of_add_eq hnonneg (by linarith) hr hr1 hsum
    rw [if_neg hlog, hq, if_neg (fun hodd => by linarith [hodd.2]), Nat.add_zero]

/-- Rounding to the precision; nothing is rounded up if no bit is left to round. -/
theorem roundTo_precision (hd : f.Dropped m δ) (hr : 0 ≤ r) (hr1 : r < 1)
    (h : ((m : ℚ) + δ) * 2 ^ (f.sigBits + 1) = (q + r) * 2 ^ (m.log2 + 1)) :
    roundTo (f.sigBits + 1) m = q + if f.sigBits < m.log2 ∧ Odd q ∧ 1 / 2 ≤ r then 1 else 0 := by
  have hpos : (0 : ℚ) < 2 ^ (f.sigBits + 1) := by positivity
  unfold roundTo
  by_cases hlog : f.sigBits + 1 < m.log2 + 1
  · have hsplit : (2 : ℚ) ^ (m.log2 + 1) =
        2 ^ (m.log2 + 1 - (f.sigBits + 1)) * 2 ^ (f.sigBits + 1) := by
      rw [← pow_add]
      congr 1
      omega
    rw [hsplit, ← mul_assoc] at h
    rw [if_pos hlog, roundOdd_eq (q := q) (r := r) (δ := δ) (by omega) hd.nonneg hd.lt_one hr hr1
      (mul_right_cancel₀ hpos.ne' h)]
    simp [show f.sigBits < m.log2 by omega]
  · have hpos' : (0 : ℚ) < 2 ^ (m.log2 + 1) := by positivity
    have hsmall := hd.small (by omega)
    obtain ⟨k, hk⟩ : ∃ k, f.sigBits + 1 = k + (m.log2 + 1) := ⟨f.sigBits - m.log2, by omega⟩
    rw [show f.sigBits - m.log2 = k by omega] at hsmall
    have hnonneg : (0 : ℚ) ≤ δ * 2 ^ k := mul_nonneg hd.nonneg (by positivity)
    have hsum : ((m * 2 ^ k : Nat) : ℚ) + δ * 2 ^ k = q + r := by
      rw [hk, pow_add, ← mul_assoc] at h
      have := mul_right_cancel₀ hpos'.ne' h
      push_cast
      linarith
    obtain ⟨hq, -⟩ := eq_of_add_eq hnonneg hsmall hr hr1 hsum
    rw [if_neg hlog, show f.sigBits + 1 - (m.log2 + 1) = k by omega, hq,
      if_neg (fun hlt => by omega), Nat.add_zero]

/-! ## The place of the number -/

theorem place_bounds (hm : m ≠ 0) (hd : f.Dropped m δ) (hx : x = (m + δ) * 2 ^ X) :
    (2 : ℚ) ^ (X + m.log2) ≤ x ∧ x < 2 ^ (X + m.log2 + 1) := by
  have hpow : (0 : ℚ) < 2 ^ X := zpow_pos two_pos X
  have hlo : ((2 ^ m.log2 : Nat) : ℚ) ≤ m := Nat.cast_le.mpr (Nat.log2_self_le hm)
  have hhi : ((m + 1 : Nat) : ℚ) ≤ ((2 ^ (m.log2 + 1) : Nat) : ℚ) := Nat.cast_le.mpr Nat.lt_log2_self
  have hnonneg := hd.nonneg
  have hlt := hd.lt_one
  push_cast at hlo hhi
  constructor
  · rw [hx, zpow_add₀ two_ne_zero, zpow_natCast, mul_comm]
    exact mul_le_mul_of_nonneg_right (by linarith) hpow.le
  · rw [hx, add_assoc, zpow_add₀ two_ne_zero, mul_comm]
    have hexp : (2 : ℚ) ^ ((m.log2 : Int) + 1) = 2 ^ (m.log2 + 1) := by exact_mod_cast rfl
    rw [hexp]
    exact mul_lt_mul_of_pos_left (by linarith) hpow

theorem log_eq {x : ℚ} (hlo : (2 : ℚ) ^ E ≤ x) (hhi : x < 2 ^ (E + 1)) : Int.log 2 x = E := by
  have hpos : 0 < x := lt_of_lt_of_le (zpow_pos two_pos _) hlo
  apply le_antisymm
  · exact Int.lt_add_one_iff.mp
      ((Int.lt_zpow_iff_log_lt (b := 2) (by decide) hpos).mp (by exact_mod_cast hhi))
  · exact (Int.zpow_le_iff_le_log (b := 2) (by decide) hpos).mp (by exact_mod_cast hlo)

theorem scaled (hx : x = (m + δ) * 2 ^ X) (hqr : x = (q + r) * 2 ^ (X + m.log2 + 1 - (p : Int))) :
    ((m : ℚ) + δ) * 2 ^ p = (q + r) * 2 ^ (m.log2 + 1) := by
  have hpow : (2 : ℚ) ^ X ≠ 0 := (zpow_pos two_pos X).ne'
  have hexp : (2 : ℚ) ^ (X + m.log2 + 1 - (p : Int)) * 2 ^ p = 2 ^ (m.log2 + 1) * 2 ^ X := by
    rw [← zpow_natCast, ← zpow_natCast, ← zpow_add₀ two_ne_zero, ← zpow_add₀ two_ne_zero]
    congr 1
    push_cast
    ring
  refine mul_right_cancel₀ hpow ?_
  calc ((m : ℚ) + δ) * 2 ^ p * 2 ^ X = x * 2 ^ p := by rw [hx]; ring
    _ = (q + r) * (2 ^ (X + m.log2 + 1 - (p : Int)) * 2 ^ p) := by rw [hqr]; ring
    _ = (q + r) * 2 ^ (m.log2 + 1) * 2 ^ X := by rw [hexp]; ring

/-- The exponent of the last place a float near to `x` has. -/
def lastPlace (f : Format) (x : ℚ) : Int := max (Int.log 2 x - f.sigBits) f.unit

/-- The parser does not round `x` to the nearest float. With `q + r` units of the last place,
`r` below 1: it rounds a normal number down when `q` is even, and always when no bit is left
to round (`lost`); a subnormal is rounded up to an odd `q` first when it is close to the next,
and when it is close to a half, with `s` bits less than the precision; the largest
subnormals do not go up. -/
def Misrounds (f : Format) (lost : Bool) (x : ℚ) : Prop :=
  let E := Int.log 2 x
  let q := ⌊x / 2 ^ f.lastPlace x⌋₊
  let r := Int.fract (x / 2 ^ f.lastPlace x)
  if f.maxExp ≤ E then False
  else if f.minExp < E then
    if lost then 1 / 2 < r ∨ r = 1 / 2 ∧ Odd q else 1 / 2 < r ∧ Even q
  else
    let s := (f.minExp - E).toNat
    if s = 0 then 1 / 2 < r ∧ Even q ∨ 1 / 2 ≤ r ∧ q = 2 ^ f.sigBits - 1
    else if s < f.sigBits then
      1 / 2 < r ∧ r < 1 - 1 / 2 ^ (s + 1) ∧ Even q ∨
        2 ≤ s ∧ 1 / 2 - 1 / 2 ^ (s + 1) ≤ r ∧ r < 1 / 2 ∧ Odd q
    else 1 / 2 < r

/-- The float nearest to `x`, the sign apart. -/
def Nearest (f : Format) (x : ℚ) (b : Nat) : Prop := IsNearest f.sigBits f.unit f.infinityBits x b

/-! ## Each kind of number -/

theorem up_iff {P Q : Prop} [Decidable P] [Decidable Q] {n : Nat} :
    n + (if P then 1 else 0) = n + (if Q then 1 else 0) ↔ (P ↔ Q) := by
  by_cases hP : P <;> by_cases hQ : Q <;> simp [hP, hQ]

/-- Going up from a half on at odd numbers only, and going to the nearest. -/
theorem roundsUp_iff {odd : Prop} :
    (odd ∧ 1 / 2 ≤ r ↔ 1 / 2 < r ∨ r = 1 / 2 ∧ odd) ↔ ¬(1 / 2 < r ∧ ¬odd) := by
  by_cases hodd : odd
  · simp [hodd, le_iff_lt_or_eq, eq_comm]
  · simp [hodd]

theorem odd_block {e : Nat} : Odd (e * 2 ^ f.sigBits + q) ↔ Odd q :=
  odd_iff_of_two_dvd (Dvd.dvd.mul_left (dvd_pow_self 2 (by have := f.le_sigBits; omega)) e)

/-- `q` of a number between two powers of 2. -/
theorem units_bounds {n : Nat} {k : Int} (hr : 0 ≤ r) (hr1 : r < 1) (hqr : x = (q + r) * 2 ^ k)
    (hlo : (2 : ℚ) ^ (k + n) ≤ x) (hhi : x < 2 ^ (k + n + 1)) : 2 ^ n ≤ q ∧ q < 2 ^ (n + 1) := by
  have hpow : (0 : ℚ) < 2 ^ k := zpow_pos two_pos k
  rw [hqr, zpow_add₀ two_ne_zero, zpow_natCast, mul_comm,
    mul_le_mul_iff_of_pos_right hpow] at hlo
  rw [hqr, add_assoc, zpow_add₀ two_ne_zero, mul_comm ((2 : ℚ) ^ k), mul_lt_mul_iff_of_pos_right hpow] at hhi
  have hhi' : (q : ℚ) + r < 2 ^ (n + 1) := by exact_mod_cast hhi
  constructor
  · have : ((2 ^ n : Nat) : ℚ) < ((q + 1 : Nat) : ℚ) := by
      push_cast
      linarith
    exact Nat.lt_succ_iff.mp (Nat.cast_lt.mp this)
  · have : (q : ℚ) < ((2 ^ (n + 1) : Nat) : ℚ) := by
      push_cast
      linarith
    exact Nat.cast_lt.mp this

theorem infinityBits_eq : f.infinityBits = (2 * f.expBias + 1) * 2 ^ f.sigBits := by
  rw [infinityBits, expMask_eq]

theorem nearest_normal (hm : m ≠ 0) (hd : f.Dropped m δ) (hx : x = (m + δ) * 2 ^ X)
    (hE : E = X + m.log2) (hlo : f.minExp < E) (hhi : E < f.maxExp) (hr : 0 ≤ r) (hr1 : r < 1)
    (hqr : x = (q + r) * 2 ^ (E - f.sigBits)) :
    (∃ b, f.Nearest x b ∧ f.roundedBits m E = some b) ↔
      ¬ if m.log2 ≤ f.sigBits then 1 / 2 < r ∨ r = 1 / 2 ∧ Odd q else 1 / 2 < r ∧ Even q := by
  obtain ⟨hxlo, hxhi⟩ := place_bounds hm hd hx
  rw [← hE] at hxlo hxhi
  obtain ⟨hq, hq'⟩ := units_bounds (n := f.sigBits) hr hr1 hqr (by rwa [sub_add_cancel])
    (by rwa [sub_add_cancel])
  have hbias := minExp_add (f := f)
  have hmax : f.maxExp = f.expBias + 1 := rfl
  obtain ⟨e, he⟩ : ∃ e : Nat, (e : Int) + 1 = E + f.expBias := ⟨(E + f.expBias - 1).toNat, by omega⟩
  have hunit : E - f.sigBits = f.unit + e := by
    unfold unit
    omega
  have hround := roundTo_precision hd hr hr1
    (scaled (p := f.sigBits + 1) hx (by rw [hqr, hE]; congr 2; push_cast; ring))
  have htop : e * 2 ^ f.sigBits + q + 1 ≤ f.infinityBits := by
    have he' : (e + 2) * 2 ^ f.sigBits ≤ (2 * f.expBias + 1) * 2 ^ f.sigBits :=
      Nat.mul_le_mul_right _ (by omega)
    rw [infinityBits_eq]
    rw [pow_succ'] at hq'
    rw [Nat.add_mul] at he'
    omega
  have hnearest : ∀ b, f.Nearest x b ↔ _ := fun b =>
    isNearest_iff (S := f.sigBits) (u := f.unit) (c := b) (.inr hq)
      (by omega) htop hr hr1 (by rw [hqr, hunit])
  have hbits : f.roundedBits m E = some (e * 2 ^ f.sigBits + roundTo (f.sigBits + 1) m) := by
    rw [roundedBits, if_neg (not_le.mpr hhi), if_neg (not_le.mpr hlo),
      show (E + f.expBias - 1).toNat = e by omega]
  simp only [hnearest, hbits, Option.some.injEq, exists_eq_left, hround, ← Nat.add_assoc, up_iff,
    odd_block]
  by_cases hlost : m.log2 ≤ f.sigBits
  · rw [if_pos hlost]
    constructor
    · intro h hup
      have := h.mpr hup
      omega
    · intro hup
      exact ⟨fun h => by omega, fun h => absurd h hup⟩
  · have hbit : f.sigBits < m.log2 := by omega
    rw [if_neg hlost, ← Nat.not_odd_iff_even, ← roundsUp_iff]
    simp only [hbit, true_and]

theorem unit_eq (hE : E ≤ f.minExp) : f.unit = E - f.sigBits + 1 + (f.minExp - E).toNat := by
  unfold unit
  omega

/-- A number whose first bit is that of the largest subnormal is rounded once. -/
theorem nearest_largest (hm : m ≠ 0) (hd : f.Dropped m δ) (hx : x = (m + δ) * 2 ^ X)
    (hE : E = X + m.log2) (hmin : E = f.minExp) (hr : 0 ≤ r) (hr1 : r < 1)
    (hqr : x = (q + r) * 2 ^ f.unit) :
    (∃ b, f.Nearest x b ∧ f.roundedBits m E = some b) ↔
      ¬(1 / 2 < r ∧ Even q ∨ 1 / 2 ≤ r ∧ q = 2 ^ f.sigBits - 1) := by
  have hS := f.le_sigBits
  have hpos := Nat.two_pow_pos f.sigBits
  have hunit : f.unit = X + m.log2 + 1 - (f.sigBits : Int) := by
    unfold unit
    omega
  obtain ⟨hxlo, hxhi⟩ := place_bounds hm hd hx
  obtain ⟨-, hq⟩ := units_bounds (n := f.sigBits - 1) hr hr1 hqr
    (by rwa [hunit, show X + m.log2 + 1 - (f.sigBits : Int) + (f.sigBits - 1 : Nat) = X + m.log2 by omega])
    (by rwa [hunit, show X + m.log2 + 1 - (f.sigBits : Int) + (f.sigBits - 1 : Nat) + 1 =
      X + m.log2 + 1 by omega])
  rw [Nat.sub_add_cancel (by omega)] at hq
  have hround := roundTo_sigBits hd hr hr1 (scaled (p := f.sigBits) hx (by rw [hqr, hunit]))
  have hnearest : ∀ b, f.Nearest x b ↔ _ := fun b =>
    isNearest_iff (S := f.sigBits) (u := f.unit) (c := b) (e := 0) (q := q) (r := r)
      (.inl rfl) (by rw [pow_succ']; omega)
      (by rw [infinityBits_eq, Nat.add_mul]; omega) hr hr1 (by rw [hqr]; simp)
  have hbits : f.roundedBits m E =
      if roundTo f.sigBits m < 2 ^ f.sigBits then some (roundTo f.sigBits m) else none := by
    rw [roundedBits, if_neg (by rw [hmin]; exact not_le.mpr minExp_lt_maxExp), if_pos hmin.le,
      if_pos (by omega)]
  simp only [hnearest, hbits, Nat.zero_mul, Nat.zero_add, exists_eq_left]
  rw [not_or]
  by_cases hlt : roundTo f.sigBits m < 2 ^ f.sigBits
  · have hlast : ¬(1 / 2 ≤ r ∧ q = 2 ^ f.sigBits - 1) := by
      rintro ⟨hhalf, rfl⟩
      have hodd : Odd (2 ^ f.sigBits - 1) := by
        rw [Nat.odd_iff, ← two_pow_pred (s := f.sigBits) (by omega)]
        have := Nat.two_pow_pos (f.sigBits - 1)
        omega
      rw [hround, if_pos ⟨hodd, hhalf⟩] at hlt
      omega
    rw [if_pos hlt, Option.some.injEq, hround, up_iff, roundsUp_iff, Nat.not_odd_iff_even]
    exact (and_iff_left hlast).symm
  · have hup : Odd q ∧ 1 / 2 ≤ r := by
      by_contra hup
      rw [hround, if_neg hup] at hlt
      omega
    rw [if_neg hlt]
    rw [hround, if_pos hup] at hlt
    refine iff_of_false (fun h => by cases h) fun h => h.2 ⟨hup.2, by omega⟩

theorem roundOdd_block {l : Nat} (hs : s ≠ 0) (hl : l < 2 ^ s) :
    roundOdd (q * 2 ^ s + l) s = q + if Odd q ∧ 2 ^ s ≤ 2 * l then 1 else 0 := by
  have hpos := Nat.two_pow_pos s
  have hdiv : (q * 2 ^ s + l) / 2 ^ s = q := by
    rw [Nat.add_comm, Nat.add_mul_div_right _ _ hpos, Nat.div_eq_of_lt hl, Nat.zero_add]
  have hmod : (q * 2 ^ s + l) % 2 ^ s = l := by
    rw [Nat.add_comm, Nat.add_mul_mod_self_right, Nat.mod_eq_of_lt hl]
  unfold roundOdd
  simp only [testBit_iff, hdiv, hmod]

/-- What the second rounding makes of the first, `l` being the bits it takes away. -/
theorem doubleRound_iff {l : Nat} {t : ℚ} (hs : s ≠ 0) (hl : l < 2 ^ s) (ht : 0 ≤ t) (ht1 : t < 1)
    (hr : r * 2 ^ s = l + t) :
    roundOdd (q * 2 ^ s + (l + if Odd l ∧ 1 / 2 ≤ t then 1 else 0)) s =
        q + (if 1 / 2 < r ∨ r = 1 / 2 ∧ Odd q then 1 else 0) ↔
      ¬(1 / 2 < r ∧ r < 1 - 1 / 2 ^ (s + 1) ∧ Even q ∨
        2 ≤ s ∧ 1 / 2 - 1 / 2 ^ (s + 1) ≤ r ∧ r < 1 / 2 ∧ Odd q) := by
  obtain ⟨k, rfl⟩ := Nat.exists_eq_succ_of_ne_zero hs
  obtain ⟨H, hH⟩ : ∃ H, H = 2 ^ k := ⟨_, rfl⟩
  have hP : 2 ^ (k + 1) = 2 * H := by rw [hH, pow_succ']
  have hHpos : 0 < H := hH ▸ Nat.two_pow_pos k
  have hHq : (0 : ℚ) < H := by exact_mod_cast hHpos
  have hPq : (2 : ℚ) ^ (k + 1) = 2 * H := by exact_mod_cast hP
  have hPq' : (2 : ℚ) ^ (k + 1 + 1) = 4 * H := by
    rw [pow_succ, hPq]
    ring
  rw [Nat.succ_eq_add_one, hP] at hl
  rw [Nat.succ_eq_add_one, hPq] at hr
  -- everything in units of the bits taken away
  have habove : 1 / 2 < r ↔ (H : ℚ) < l + t := by
    rw [← hr]
    constructor <;> intro h <;> nlinarith
  have hbelow : r < 1 / 2 ↔ (l : ℚ) + t < H := by
    rw [← hr]
    constructor <;> intro h <;> nlinarith
  have hhalf : r = 1 / 2 ↔ (l : ℚ) + t = H := by
    rw [← hr]
    constructor
    · rintro rfl
      ring
    · intro h
      nlinarith
  have hclose : r < 1 - 1 / 2 ^ (k + 1 + 1) ↔ (l : ℚ) + t < 2 * H - 1 / 2 := by
    rw [← hr, hPq', lt_sub_iff_add_lt, ← lt_sub_iff_add_lt', div_lt_iff₀ (by linarith)]
    constructor <;> intro h <;> nlinarith
  have hclose' : 1 / 2 - 1 / 2 ^ (k + 1 + 1) ≤ r ↔ (H : ℚ) - 1 / 2 ≤ l + t := by
    rw [← hr, hPq', sub_le_iff_le_add, ← sub_le_iff_le_add', le_div_iff₀ (by linarith)]
    constructor <;> intro h <;> nlinarith
  simp only [habove, hbelow, hhalf, hclose, hclose', Nat.succ_eq_add_one, ← Nat.not_odd_iff_even]
  have hlt : ∀ {a b : Nat}, a < b → (a : ℚ) + 1 ≤ b := fun h => by exact_mod_cast h
  have hge : ∀ {a b : Nat}, a ≤ b → (a : ℚ) ≤ b := fun h => Nat.cast_le.mpr h
  have hlq : (l : ℚ) + 1 ≤ 2 * H := by
    have := hlt hl
    push_cast at this
    exact this
  by_cases hup : Odd l ∧ 1 / 2 ≤ t
  · obtain ⟨hodd, ht2⟩ := hup
    rw [if_pos ⟨hodd, ht2⟩]
    rcases Nat.lt_or_ge (l + 1) (2 * H) with hlast | hlast
    · rw [roundOdd_block hs (by rw [Nat.succ_eq_add_one, hP]; exact hlast), up_iff,
        Nat.succ_eq_add_one, hP]
      have hA : (H : ℚ) < l + t ↔ H ≤ l := by
        constructor
        · intro h
          by_contra hlt'
          have := hlt (Nat.not_le.mp hlt')
          linarith
        · intro h
          have := hge h
          linarith
      have hB : ¬ (l : ℚ) + t = H := by
        intro h
        rcases Nat.lt_or_ge l H with h' | h'
        · have := hlt h'
          linarith
        · have := hge h'
          linarith
      have hC : (l : ℚ) + t < 2 * H - 1 / 2 := by
        have := hlt hlast
        push_cast at this
        linarith
      have hFG : ((2 ≤ k + 1 ∧ (H : ℚ) - 1 / 2 ≤ l + t ∧ (l : ℚ) + t < H ∧ Odd q) ↔
          l + 1 = H ∧ Odd q) := by
        constructor
        · rintro ⟨-, hF, hG, hq⟩
          refine ⟨?_, hq⟩
          by_contra hne
          rcases Nat.lt_or_ge (l + 1) H with h' | h'
          · have := hlt h'
            push_cast at this
            linarith
          · have := hge (show H ≤ l by omega)
            linarith
        · rintro ⟨rfl, hq⟩
          have hk : k ≠ 0 := by
            rintro rfl
            obtain ⟨c, hc⟩ := hodd
            simp at hH
            omega
          push_cast
          exact ⟨by omega, by linarith, by linarith, hq⟩
      rw [hFG, hA]
      simp only [hB, hC, false_and, or_false, true_and]
      by_cases hq : Odd q
      · simp only [hq, true_and, not_true_eq_false, and_false, false_or, and_true]
        omega
      · simp only [hq, false_and, not_false_eq_true, and_true, and_false, or_false, false_iff]
    · have heq : q * 2 ^ (k + 1) + (l + 1) = (q + 1) * 2 ^ (k + 1) + 0 := by
        rw [Nat.add_mul, hP]
        omega
      have hA : (H : ℚ) < l + t := by
        have := hge (show 2 * H ≤ l + 1 from hlast)
        have := hge (show 1 ≤ H from hHpos)
        push_cast at *
        linarith
      have hC : ¬ (l : ℚ) + t < 2 * H - 1 / 2 := by
        have := hge (show 2 * H ≤ l + 1 from hlast)
        push_cast at this
        intro h
        linarith
      rw [heq, roundOdd_block hs (Nat.two_pow_pos _), if_neg (by rw [Nat.succ_eq_add_one, hP]; omega),
        if_pos (.inl hA)]
      refine iff_of_true rfl ?_
      rintro (⟨-, h, -⟩ | ⟨-, -, h, -⟩)
      · exact hC h
      · linarith
  · rw [if_neg hup, Nat.add_zero l, roundOdd_block hs (by rw [Nat.succ_eq_add_one, hP]; exact hl),
      up_iff, Nat.succ_eq_add_one, hP]
    have hAB : 2 * H ≤ 2 * l ↔ (H : ℚ) ≤ l + t := by
      constructor
      · intro h
        have := hge (show H ≤ l by omega)
        linarith
      · intro h
        by_contra hlt'
        have := hlt (show l < H by omega)
        linarith
    have hC : (l : ℚ) + t < 2 * H - 1 / 2 := by
      by_contra hge'
      have hlast : l + 1 = 2 * H := by
        by_contra hne
        have := hlt (show l + 1 < 2 * H by omega)
        push_cast at this
        linarith
      have hodd : Odd l := Nat.odd_iff.mpr (by omega)
      refine hup ⟨hodd, ?_⟩
      have : (l : ℚ) + 1 = 2 * H := by exact_mod_cast hlast
      linarith
    have hFG : ¬(2 ≤ k + 1 ∧ (H : ℚ) - 1 / 2 ≤ l + t ∧ (l : ℚ) + t < H ∧ Odd q) := by
      rintro ⟨hk, hF, hG, -⟩
      have hlast : l + 1 = H := by
        by_contra hne
        rcases Nat.lt_or_ge (l + 1) H with h' | h'
        · have := hlt h'
          push_cast at this
          linarith
        · have := hge (show H ≤ l by omega)
          linarith
      have heven : H = 2 * 2 ^ (k - 1) := by rw [hH, two_pow_pred (by omega)]
      have hodd : Odd l := Nat.odd_iff.mpr (by omega)
      refine hup ⟨hodd, ?_⟩
      have : (l : ℚ) + 1 = H := by exact_mod_cast hlast
      linarith
    rw [hAB, or_iff_left hFG, le_iff_lt_or_eq]
    simp only [hC, true_and]
    by_cases hq : Odd q
    · simp [hq, eq_comm]
    · simp [hq]

/-- A number with less bits than the largest subnormals is rounded twice. -/
theorem nearest_subnormal (hm : m ≠ 0) (hd : f.Dropped m δ) (hx : x = (m + δ) * 2 ^ X)
    (hE : E = X + m.log2) (hmin : E ≤ f.minExp) (hs : (f.minExp - E).toNat = s) (hs0 : s ≠ 0)
    (hsS : s < f.sigBits) (hr : 0 ≤ r) (hr1 : r < 1) (hqr : x = (q + r) * 2 ^ f.unit) :
    (∃ b, f.Nearest x b ∧ f.roundedBits m E = some b) ↔
      ¬(1 / 2 < r ∧ r < 1 - 1 / 2 ^ (s + 1) ∧ Even q ∨
        2 ≤ s ∧ 1 / 2 - 1 / 2 ^ (s + 1) ≤ r ∧ r < 1 / 2 ∧ Odd q) := by
  have hpos := Nat.two_pow_pos f.sigBits
  have hunit : f.unit = X + m.log2 + 1 - (f.sigBits : Int) + s := by
    unfold unit
    omega
  obtain ⟨hxlo, hxhi⟩ := place_bounds hm hd hx
  obtain ⟨-, hq⟩ := units_bounds (n := f.sigBits - 1 - s) hr hr1 hqr
    (by rwa [hunit, show X + m.log2 + 1 - (f.sigBits : Int) + s + (f.sigBits - 1 - s : Nat) =
      X + m.log2 by omega])
    (by rwa [hunit, show X + m.log2 + 1 - (f.sigBits : Int) + s + (f.sigBits - 1 - s : Nat) + 1 =
      X + m.log2 + 1 by omega])
  have hq' : q < 2 ^ f.sigBits := lt_of_lt_of_le hq (Nat.pow_le_pow_right (by decide) (by omega))
  -- the bits the second rounding takes away, and what is below them
  have hP : (0 : ℚ) < 2 ^ s := by positivity
  obtain ⟨l, t, ht, ht1, hlt⟩ : ∃ (l : Nat) (t : ℚ), 0 ≤ t ∧ t < 1 ∧ r * 2 ^ s = l + t := by
    refine ⟨⌊r * 2 ^ s⌋₊, r * 2 ^ s - ⌊r * 2 ^ s⌋₊, ?_, ?_, by ring⟩
    · exact sub_nonneg.mpr (Nat.floor_le (mul_nonneg hr hP.le))
    · exact sub_lt_iff_lt_add'.mpr (Nat.lt_floor_add_one _)
  have hl : l < 2 ^ s := by
    have : ((l : Nat) : ℚ) < ((2 ^ s : Nat) : ℚ) := by
      push_cast
      nlinarith
    exact Nat.cast_lt.mp this
  have hfirst : x = ((q * 2 ^ s + l : Nat) + t) * 2 ^ (X + m.log2 + 1 - (f.sigBits : Int)) := by
    rw [hqr, hunit, zpow_add₀ two_ne_zero, zpow_natCast]
    push_cast
    linear_combination (2 : ℚ) ^ (X + m.log2 + 1 - (f.sigBits : Int)) * hlt
  have hround := roundTo_sigBits hd ht ht1 (scaled hx hfirst)
  have hodd : Odd (q * 2 ^ s + l) ↔ Odd l :=
    odd_iff_of_two_dvd (Dvd.dvd.mul_left (dvd_pow_self 2 hs0) q)
  simp only [hodd, Nat.add_assoc] at hround
  have hnearest : ∀ b, f.Nearest x b ↔ _ := fun b =>
    isNearest_iff (S := f.sigBits) (u := f.unit) (c := b) (e := 0) (q := q)
      (r := r) (.inl rfl) (by rw [pow_succ']; omega)
      (by rw [infinityBits_eq, Nat.add_mul]; omega) hr hr1 (by rw [hqr]; simp)
  have hbits : f.roundedBits m E = some (roundOdd (roundTo f.sigBits m) s) := by
    rw [roundedBits, if_neg (not_le.mpr (lt_of_le_of_lt hmin minExp_lt_maxExp)), if_pos hmin, hs,
      if_neg hs0, if_pos hsS]
  simp only [hnearest, hbits, Nat.zero_mul, Nat.zero_add, Option.some.injEq, exists_eq_left, hround]
  exact doubleRound_iff hs0 hl ht ht1 hlt

/-- What is less than the smallest subnormal is dropped. -/
theorem nearest_tiny (hm : m ≠ 0) (hd : f.Dropped m δ) (hx : x = (m + δ) * 2 ^ X)
    (hE : E = X + m.log2) (hmin : E ≤ f.minExp) (hs : f.sigBits ≤ (f.minExp - E).toNat)
    (hr : 0 ≤ r) (hr1 : r < 1) (hqr : x = (q + r) * 2 ^ f.unit) :
    (∃ b, f.Nearest x b ∧ f.roundedBits m E = some b) ↔ ¬ 1 / 2 < r := by
  have hS := f.le_sigBits
  have hpos := Nat.two_pow_pos f.sigBits
  obtain ⟨-, hxhi⟩ := place_bounds hm hd hx
  have hone : x < 2 ^ f.unit := by
    refine lt_of_lt_of_le hxhi (zpow_le_zpow_right₀ one_le_two ?_)
    unfold unit
    omega
  have hq : q = 0 := by
    have hpow : (0 : ℚ) < 2 ^ f.unit := zpow_pos two_pos _
    rw [hqr, mul_lt_iff_lt_one_left hpow] at hone
    have : (q : ℚ) < ((1 : Nat) : ℚ) := by
      push_cast
      linarith
    have := Nat.cast_lt.mp this
    omega
  subst hq
  have hnearest : ∀ b, f.Nearest x b ↔ _ := fun b =>
    isNearest_iff (S := f.sigBits) (u := f.unit) (c := b) (e := 0) (q := 0)
      (r := r) (.inl rfl) (by rw [pow_succ']; omega)
      (by rw [infinityBits_eq, Nat.add_mul]; omega) hr hr1 (by rw [hqr]; simp)
  have hbits : f.roundedBits m E = some 0 := by
    rw [roundedBits, if_neg (not_le.mpr (lt_of_le_of_lt hmin minExp_lt_maxExp)), if_pos hmin,
      if_neg (by omega), if_neg (by omega)]
  simp only [hnearest, hbits, Nat.zero_mul, Nat.zero_add, Option.some.injEq, exists_eq_left]
  by_cases h : 1 / 2 < r <;> simp [h]

/-- What is too large is infinity. -/
theorem nearest_infinity (hm : m ≠ 0) (hd : f.Dropped m δ) (hx : x = (m + δ) * 2 ^ X)
    (hE : E = X + m.log2) (hmax : f.maxExp ≤ E) :
    ∃ b, f.Nearest x b ∧ f.roundedBits m E = some b := by
  have hlarge : magnitude f.sigBits f.unit f.infinityBits ≤ x := by
    have hblock : f.infinityBits = (2 * f.expBias) * 2 ^ f.sigBits + 2 ^ f.sigBits := by
      rw [infinityBits_eq]
      ring
    rw [hblock, magnitude_block (.inr le_rfl) (Nat.pow_le_pow_right (by decide) (by omega))]
    refine le_trans (le_of_eq ?_) (le_trans (zpow_le_zpow_right₀ one_le_two hmax)
      (hE ▸ (place_bounds hm hd hx).1))
    rw [Nat.cast_pow, Nat.cast_ofNat, ← zpow_natCast, ← zpow_add₀ two_ne_zero]
    congr 1
    unfold unit maxExp minExp
    push_cast
    ring
  refine ⟨f.infinityBits, (isNearest_top hlarge).mpr rfl, ?_⟩
  rw [roundedBits, if_pos hmax]

/-- `parse_float_hex` rounds to the nearest float unless `Misrounds` says otherwise. -/
theorem nearest_iff (hm : m ≠ 0) (hd : f.Dropped m δ) (hx : x = (m + δ) * 2 ^ X)
    (hE : E = X + m.log2) :
    (∃ b, f.Nearest x b ∧ f.roundedBits m E = some b) ↔
      ¬ f.Misrounds (m.log2 ≤ f.sigBits) x := by
  obtain ⟨hxlo, hxhi⟩ := place_bounds hm hd hx
  rw [← hE] at hxlo hxhi
  have hlog : Int.log 2 x = E := log_eq hxlo hxhi
  have hpow : (2 : ℚ) ^ f.lastPlace x ≠ 0 := (zpow_pos two_pos _).ne'
  have hnonneg : 0 ≤ x / 2 ^ f.lastPlace x :=
    div_nonneg (le_trans (zpow_pos two_pos _).le hxlo) (zpow_pos two_pos _).le
  have hr := Int.fract_nonneg (x / 2 ^ f.lastPlace x)
  have hr1 := Int.fract_lt_one (x / 2 ^ f.lastPlace x)
  have hqr : x = (⌊x / 2 ^ f.lastPlace x⌋₊ + Int.fract (x / 2 ^ f.lastPlace x)) *
      2 ^ f.lastPlace x := by
    rw [natCast_floor_eq_intCast_floor hnonneg, Int.floor_add_fract, div_mul_cancel₀ _ hpow]
  unfold Misrounds
  simp only [hlog]
  generalize ⌊x / 2 ^ f.lastPlace x⌋₊ = q at hqr
  generalize Int.fract (x / 2 ^ f.lastPlace x) = r at hqr hr hr1
  by_cases hmax : f.maxExp ≤ E
  · rw [if_pos hmax]
    exact iff_of_true (nearest_infinity hm hd hx hE hmax) id
  rw [if_neg hmax]
  by_cases hmin : f.minExp < E
  · have hplace : f.lastPlace x = E - f.sigBits := by
      unfold lastPlace unit
      omega
    rw [if_pos hmin, nearest_normal hm hd hx hE hmin (not_le.mp hmax) hr hr1 (by rw [← hplace]; exact hqr)]
    simp
  · have hplace : f.lastPlace x = f.unit := by
      unfold lastPlace unit
      omega
    rw [hplace] at hqr
    rw [if_neg hmin]
    by_cases hs0 : (f.minExp - E).toNat = 0
    · rw [if_pos hs0]
      exact nearest_largest hm hd hx hE (by omega) hr hr1 hqr
    · rw [if_neg hs0]
      by_cases hs : (f.minExp - E).toNat < f.sigBits
      · rw [if_pos hs]
        exact nearest_subnormal hm hd hx hE (by omega) rfl hs0 hs hr hr1 hqr
      · rw [if_neg hs]
        exact nearest_tiny hm hd hx hE (by omega) (by omega) hr hr1 hqr

end Format

end Literal

end SexprWasm
