import SexprWasm.Literal.FloatNearest
import SexprWasm.Literal.FloatScan

/-!
# Which hex floats are read as the nearest float

A token denotes `(m + δ) * 2 ^ X` with the digits kept for `m` if none
of the zeros before the dot are lost (`exact_eq`), and what is dropped
is then small enough (`dropped`). `Faithful` are the tokens for which
the number that is rounded is the one that is denoted.
-/

namespace SexprWasm

namespace Literal

open Digits Nearest

variable {limit k z : Nat} {ds : List Nat} {f : Format}

/-! ## What is dropped -/

/-- As many zeros come before what is dropped as there is room for digits. -/
theorem value_drop_keep (hds : ∀ d ∈ ds, d < 16) :
    value 16 (ds.drop (keep limit k z ds)) *
        16 ^ (limit - (k + nonzeros (ds.take (keep limit k z ds)) +
          if keep limit k z ds = 0 then z else 0)) <
      16 ^ (ds.length - keep limit k z ds) := by
  induction ds generalizing k z with
  | nil => simp [keep]
  | cons d ds ih =>
    have hds' : ∀ d ∈ ds, d < 16 := fun d hd => hds d (List.mem_cons_of_mem _ hd)
    have hle : keep limit k (z + 1) ds ≤ ds.length := keep_le
    unfold keep
    by_cases hkept : d ≠ 0 ∧ (k = 0 ∨ k + z + 1 ≤ limit)
    · have hrest := ih (k := k + 1) (z := 0) hds'
      simp only [if_pos hkept, Nat.add_one_ne_zero, if_false, List.drop_succ_cons,
        List.take_succ_cons, nonzeros_cons, if_pos hkept.1, List.length_cons, Nat.add_sub_add_right]
      rw [ite_self] at hrest
      rwa [Nat.add_right_comm k, Nat.add_assoc k] at hrest
    · rw [if_neg hkept]
      by_cases hzero : keep limit k (z + 1) ds = 0
      · simp only [if_pos hzero, if_true, List.drop_zero, List.take_zero, Nat.sub_zero]
        have hrest := ih (k := k) (z := z + 1) hds'
        rw [hzero] at hrest
        simp only [List.drop_zero, List.take_zero, if_true, Nat.sub_zero] at hrest
        by_cases hd : d = 0
        · subst hd
          rw [value_cons, Nat.zero_mul, Nat.zero_add, List.length_cons, pow_succ]
          have hpow : 16 ^ (limit - (k + nonzeros [] + z)) ≤
              16 ^ (limit - (k + nonzeros [] + (z + 1))) * 16 := by
            rw [← pow_succ]
            exact Nat.pow_le_pow_right (by decide) (by omega)
          calc value 16 ds * 16 ^ (limit - (k + nonzeros [] + z))
              ≤ value 16 ds * (16 ^ (limit - (k + nonzeros [] + (z + 1))) * 16) :=
                Nat.mul_le_mul_left _ hpow
            _ < 16 ^ ds.length * 16 := by
                rw [← Nat.mul_assoc]
                exact Nat.mul_lt_mul_of_pos_right hrest (by decide)
        · have hlate : limit - (k + nonzeros [] + z) = 0 := by
            rw [not_and_or, not_not, not_or, Nat.not_le] at hkept
            have := hkept.resolve_left hd
            omega
          rw [hlate, pow_zero, Nat.mul_one]
          exact value_lt hds
      · -- a digit that is not zero would have been the first that comes too late
        have hd : d = 0 := by
          by_contra hne
          rw [not_and_or, not_not, not_or, Nat.not_le] at hkept
          rcases hkept with hd | ⟨hk, hlate⟩
          · exact hne hd
          · exact hzero (keep_eq_zero hk (by omega))
        subst hd
        have hrest := ih (k := k) (z := z + 1) hds'
        simp only [if_neg hzero, Nat.add_one_ne_zero, if_false, List.drop_succ_cons,
          List.take_succ_cons, nonzeros_cons, List.length_cons, Nat.add_sub_add_right] at hrest ⊢
        simpa using hrest

/-- Every digit that is not zero is a place more. -/
theorem le_value (hne : nonzeros ds ≠ 0) : 16 ^ (nonzeros ds - 1) ≤ value 16 ds := by
  induction ds with
  | nil => exact absurd rfl hne
  | cons d ds ih =>
    rw [value_cons, nonzeros_cons]
    by_cases hd : d = 0
    · subst hd
      rw [nonzeros_cons] at hne
      simpa using ih (by simpa using hne)
    · have hle : nonzeros ds ≤ ds.length := HexFloat.nonzeros_le
      have hpow : 16 ^ nonzeros ds ≤ 16 ^ ds.length := Nat.pow_le_pow_right (by decide) hle
      rw [if_pos hd, Nat.add_sub_cancel]
      have hmul := Nat.le_mul_of_pos_left (16 ^ ds.length) (Nat.pos_of_ne_zero hd)
      omega

namespace HexFloat

variable {h : HexFloat}

/-- No zeros before the dot are lost: there are none between the digits kept, or none of the
digits after it are kept. -/
def DotKept (f : Format) (h : HexFloat) : Prop :=
  h.keptFrac f = 0 ∨ h.keptInt f = 0 ∨ h.keptInt f = h.intDigits.length

/-- How many digits there are up to the last one that is kept. -/
def kept (f : Format) (h : HexFloat) : Nat :=
  if h.keptFrac f = 0 then h.keptInt f else h.intDigits.length + h.keptFrac f

/-- What the digits that are dropped make up. -/
def dropped (f : Format) (h : HexFloat) : Nat := value 16 (h.digits.drop (h.kept f))

theorem digits_lt : ∀ d ∈ h.digits, d < 16 := by
  intro d hd
  rcases List.mem_append.mp hd with hd | hd
  · exact intDigits_lt d hd
  · exact fracDigits_lt d hd

theorem kept_le : h.kept f ≤ h.digits.length := by
  have hint := keptInt_le (h := h) (f := f)
  have hfrac := keptFrac_le (h := h) (f := f)
  rw [digits, List.length_append]
  unfold kept
  split_ifs <;> omega

theorem value_zeros (hzero : nonzeros ds = 0) : value 16 ds = 0 := by
  induction ds with
  | nil => rfl
  | cons d ds ih =>
    rw [nonzeros_cons] at hzero
    by_cases hd : d = 0
    · subst hd
      rw [value_cons, Nat.zero_mul, ih (by simpa using hzero)]
    · rw [if_pos hd] at hzero
      omega

/-- A first digit that is not zero is kept. -/
theorem nonzeros_of_keep (hzero : keep limit 0 z ds = 0) : nonzeros ds = 0 := by
  induction ds generalizing z with
  | nil => rfl
  | cons d ds ih =>
    unfold keep at hzero
    split_ifs at hzero with hd hrest
    rw [nonzeros_cons, ih hrest]
    simpa using hd

theorem take_kept (hdot : h.DotKept f) : value 16 (h.digits.take (h.kept f)) = h.significand f := by
  have hint := keptInt_le (h := h) (f := f)
  unfold kept significand keptDigits digits
  by_cases hfrac : h.keptFrac f = 0
  · rw [if_pos hfrac, hfrac, List.take_zero, List.append_nil, List.take_append_of_le_length hint]
  · rw [if_neg hfrac, List.take_length_add_append, value_append, value_append]
    rcases hdot with hdot | hdot | hdot
    · exact absurd hdot hfrac
    · rw [hdot, List.take_zero, value_zeros (nonzeros_of_keep hdot), value_nil]
    · rw [hdot, List.take_length]

theorem shift_eq (hdot : h.DotKept f) (hne : h.significand f ≠ 0) :
    h.shift f = 4 * ((h.digits.length - h.kept f : Nat) : Int) - 4 * h.fracDigits.length := by
  have hint := keptInt_le (h := h) (f := f)
  have hfrac := keptFrac_le (h := h) (f := f)
  unfold shift kept digits
  rw [List.length_append]
  by_cases hzero : h.keptFrac f = 0
  · have hkept : h.keptInt f ≠ 0 := by
      intro hkept
      exact hne (by simp [significand, keptDigits, hkept, hzero])
    rw [if_pos hzero, if_neg hkept, hzero]
    omega
  · rw [if_neg hzero]
    rcases hdot with hdot | hdot | hdot
    · exact absurd hdot hzero
    · rw [if_pos hdot]
      omega
    · rw [hdot]
      split_ifs <;> omega

/-- The number a token denotes, from the digits that are kept and those that are not. -/
theorem exact_eq (hdot : h.DotKept f) (hne : h.significand f ≠ 0) :
    h.exact = (h.significand f + h.dropped f / 16 ^ (h.digits.length - h.kept f)) *
      2 ^ (h.exponent + h.shift f) := by
  have hvalue : value 16 h.digits =
      h.significand f * 16 ^ (h.digits.length - h.kept f) + h.dropped f := by
    rw [← take_kept hdot, dropped, ← List.length_drop, ← value_append, List.take_append_drop]
  have hpow : (16 : ℚ) ^ (h.digits.length - h.kept f) =
      2 ^ (4 * ((h.digits.length - h.kept f : Nat) : Int)) := by
    rw [zpow_mul, zpow_natCast]
    norm_num
  have hne' : (16 : ℚ) ^ (h.digits.length - h.kept f) ≠ 0 := by positivity
  have hexp : (2 : ℚ) ^ (h.exponent + h.shift f) =
      16 ^ (h.digits.length - h.kept f) * 2 ^ (h.exponent - 4 * (h.fracDigits.length : Int)) := by
    rw [shift_eq hdot hne, hpow, ← zpow_add₀ two_ne_zero]
    congr 1
    ring
  unfold exact
  rw [hvalue, hexp, ← mul_assoc, add_mul, div_mul_cancel₀ _ hne']
  push_cast
  rfl

/-- As many zeros come before what is dropped as there is room for digits. -/
theorem dropped_lt (hdot : h.DotKept f) :
    h.dropped f * 16 ^ (f.digitLimit - nonzeros (h.keptDigits f)) <
      16 ^ (h.digits.length - h.kept f) := by
  have hint := @value_drop_keep f.digitLimit 0 0 h.intDigits intDigits_lt
  have hfrac := @value_drop_keep f.digitLimit (nonzeros (h.intDigits.take (h.keptInt f))) 0
    h.fracDigits fracDigits_lt
  have hle := keptInt_le (h := h) (f := f)
  rw [ite_self, Nat.zero_add, Nat.add_zero] at hint
  rw [ite_self, Nat.add_zero] at hfrac
  have hnonzeros : nonzeros (h.keptDigits f) = nonzeros (h.intDigits.take (h.keptInt f)) +
      nonzeros (h.fracDigits.take (h.keptFrac f)) := List.countP_append
  change value 16 (h.intDigits.drop (h.keptInt f)) * 16 ^ (f.digitLimit -
    nonzeros (h.intDigits.take (h.keptInt f))) < 16 ^ (h.intDigits.length - h.keptInt f) at hint
  change value 16 (h.fracDigits.drop (h.keptFrac f)) * 16 ^ (f.digitLimit -
    (nonzeros (h.intDigits.take (h.keptInt f)) + nonzeros (h.fracDigits.take (h.keptFrac f)))) <
    16 ^ (h.fracDigits.length - h.keptFrac f) at hfrac
  unfold dropped kept digits
  rw [hnonzeros, List.length_append]
  by_cases hzero : h.keptFrac f = 0
  · have hlen : h.intDigits.length + h.fracDigits.length - h.keptInt f =
        h.intDigits.length - h.keptInt f + h.fracDigits.length := by omega
    rw [hzero] at hfrac ⊢
    rw [if_pos rfl, List.drop_append_of_le_length hle, value_append, hlen, pow_add, Nat.add_mul,
      Nat.mul_right_comm]
    simp only [List.take_zero, List.drop_zero, Nat.sub_zero] at hfrac ⊢
    rw [show nonzeros [] = 0 from rfl, Nat.add_zero] at hfrac ⊢
    calc _ < value 16 (h.intDigits.drop (h.keptInt f)) *
            16 ^ (f.digitLimit - nonzeros (h.intDigits.take (h.keptInt f))) *
            16 ^ h.fracDigits.length + 16 ^ h.fracDigits.length := Nat.add_lt_add_left hfrac _
      _ ≤ 16 ^ (h.intDigits.length - h.keptInt f) * 16 ^ h.fracDigits.length := by
          rw [← Nat.succ_mul]
          exact Nat.mul_le_mul_right _ hint
  · rw [if_neg hzero, List.drop_length_add_append, Nat.add_sub_add_left]
    exact hfrac

/-- A significand that is short has lost nothing that counts. -/
theorem droppedSmall (hlimit : f.sigBits + 4 ≤ 4 * f.digitLimit) (hdot : h.DotKept f)
    (hne : h.significand f ≠ 0) :
    f.Dropped (h.significand f) (h.dropped f / 16 ^ (h.digits.length - h.kept f)) := by
  have hpos : (0 : ℚ) < 16 ^ (h.digits.length - h.kept f) := by positivity
  have hlt := dropped_lt hdot
  refine ⟨by positivity, ?_, fun hlog => ?_⟩
  · rw [div_lt_one hpos]
    have hone : 0 < 16 ^ (f.digitLimit - nonzeros (h.keptDigits f)) := by positivity
    have hle : h.dropped f < 16 ^ (h.digits.length - h.kept f) :=
      lt_of_le_of_lt (Nat.le_mul_of_pos_right _ hone) hlt
    exact_mod_cast hle
  · have hk : nonzeros (h.keptDigits f) ≠ 0 := fun hk => hne (value_zeros hk)
    have hle : 4 * (nonzeros (h.keptDigits f) - 1) ≤ (h.significand f).log2 := by
      rw [Nat.le_log2 hne, pow_mul]
      exact le_value hk
    have hpow : 2 ^ (f.sigBits - (h.significand f).log2) ≤
        16 ^ (f.digitLimit - nonzeros (h.keptDigits f)) := by
      rw [show (16 : Nat) = 2 ^ 4 from rfl, ← pow_mul]
      exact Nat.pow_le_pow_right (by decide) (by omega)
    have hlt' : h.dropped f * 2 ^ (f.sigBits - (h.significand f).log2) <
        16 ^ (h.digits.length - h.kept f) := lt_of_le_of_lt (Nat.mul_le_mul_left _ hpow) hlt
    rw [div_mul_eq_mul_div, div_lt_one hpos]
    exact_mod_cast hlt'

end HexFloat

end Literal

end SexprWasm
