import Mathlib.Data.Rat.Floor
import Mathlib.Data.Int.Log
import Mathlib.Algebra.Order.Field.Rat
import Mathlib.Algebra.Ring.Parity
import Mathlib.Tactic.Ring
import Mathlib.Tactic.Linarith
import Mathlib.Tactic.Positivity
import Mathlib.Tactic.FieldSimp

/-!
# Rounding to the nearest float

A float without its sign is a natural, its exponent over `S` bits of
fraction; `magnitude` is the number it stands for, where `2 ^ u` is the
smallest. The order of the naturals is that of the numbers, and the
pattern after the largest finite one stands for what would come next,
so rounding to an infinity is no special case: `IsNearest` asks for the
nearest of the patterns up to `top`, the even one of two.
-/

namespace SexprWasm

namespace Nearest

variable {S : ℕ} {u : ℤ} {top b c e q : ℕ} {x : ℚ}

/-- The number a pattern stands for. -/
def magnitude (S : ℕ) (u : ℤ) (b : ℕ) : ℚ :=
  if b / 2 ^ S = 0 then b * 2 ^ u
  else ((2 ^ S + b % 2 ^ S : ℕ) : ℚ) * 2 ^ (u + (b / 2 ^ S : ℕ) - 1)

/-- `b` is nearest to `x` among the patterns up to `top`, and even if another is as near. -/
structure IsNearest (S : ℕ) (u : ℤ) (top : ℕ) (x : ℚ) (b : ℕ) : Prop where
  le_top : b ≤ top
  nearest : ∀ c ≤ top, |x - magnitude S u b| ≤ |x - magnitude S u c|
  even : ∀ c ≤ top, c ≠ b → |x - magnitude S u b| = |x - magnitude S u c| → Even b

/-! ## The grid -/

/-- Patterns of one exponent, and the first of the next, count multiples of a power of 2. -/
theorem magnitude_block (he : e = 0 ∨ 2 ^ S ≤ q) (hq : q ≤ 2 ^ (S + 1)) :
    magnitude S u (e * 2 ^ S + q) = q * 2 ^ (u + e) := by
  have hpos : 0 < 2 ^ S := Nat.two_pow_pos S
  have htwo : 2 ^ (S + 1) = 2 * 2 ^ S := by rw [pow_succ, Nat.mul_comm]
  have hdiv : (e * 2 ^ S + q) / 2 ^ S = e + q / 2 ^ S := by
    rw [Nat.add_comm, Nat.add_mul_div_right _ _ hpos, Nat.add_comm]
  have hmod : (e * 2 ^ S + q) % 2 ^ S = q % 2 ^ S := by
    rw [Nat.add_comm, Nat.add_mul_mod_self_right]
  have hne : (2 : ℚ) ≠ 0 := two_ne_zero
  unfold magnitude
  rw [hdiv, hmod]
  rcases Nat.lt_trichotomy q (2 ^ S) with hlt | heq | hgt
  · have hzero : e = 0 := he.resolve_right (by omega)
    subst hzero
    rw [Nat.div_eq_of_lt hlt, if_pos rfl]
    simp
  · subst heq
    rw [Nat.div_self hpos, if_neg (Nat.succ_ne_zero e), Nat.mod_self]
    push_cast
    ring_nf
  · rcases Nat.lt_or_ge q (2 ^ (S + 1)) with hlt | hge
    · have hq1 : q / 2 ^ S = 1 := Nat.div_eq_of_lt_le (by omega) (by omega)
      have hrest : 2 ^ S + q % 2 ^ S = q := by
        have := Nat.div_add_mod q (2 ^ S)
        rw [hq1] at this
        omega
      rw [hq1, if_neg (Nat.succ_ne_zero e), hrest]
      push_cast
      ring_nf
    · have heq : q = 2 * 2 ^ S := by omega
      rw [heq, Nat.mul_div_cancel _ hpos, if_neg (by omega), Nat.mul_mod_left]
      have hexp : u + ((e + 2 : ℕ) : ℤ) - 1 = u + e + 1 := by
        push_cast
        ring
      rw [hexp, zpow_add₀ hne]
      push_cast
      ring

theorem magnitude_lt_succ (S : ℕ) (u : ℤ) (b : ℕ) : magnitude S u b < magnitude S u (b + 1) := by
  have hpos : 0 < 2 ^ S := Nat.two_pow_pos S
  have hmod : b % 2 ^ S < 2 ^ S := Nat.mod_lt b hpos
  -- `b` and its successor are in one block
  obtain ⟨e, q, hb, he, hq⟩ : ∃ e q, b = e * 2 ^ S + q ∧ (e = 0 ∨ 2 ^ S ≤ q) ∧ q + 1 ≤ 2 ^ (S + 1) := by
    have hdiv := Nat.div_add_mod b (2 ^ S)
    have htwo : 2 ^ (S + 1) = 2 * 2 ^ S := by rw [pow_succ, Nat.mul_comm]
    cases he : b / 2 ^ S with
    | zero =>
      rw [he, Nat.mul_zero, Nat.zero_add] at hdiv
      exact ⟨0, b, by simp, .inl rfl, by omega⟩
    | succ e =>
      rw [he] at hdiv
      refine ⟨e, 2 ^ S + b % 2 ^ S, ?_, .inr (Nat.le_add_right _ _), by omega⟩
      rw [Nat.mul_succ, Nat.mul_comm] at hdiv
      omega
  have hnext : b + 1 = e * 2 ^ S + (q + 1) := by omega
  have hpow : (0 : ℚ) < 2 ^ (u + e) := zpow_pos two_pos _
  rw [hnext, hb, magnitude_block he (by omega), magnitude_block (he.imp_right (by omega)) hq]
  push_cast
  linarith

theorem magnitude_strictMono (S : ℕ) (u : ℤ) : StrictMono (magnitude S u) :=
  strictMono_nat_of_lt_succ (magnitude_lt_succ S u)

/-! ## Which pattern is nearest -/

theorem IsNearest.unique (hb : IsNearest S u top x b) (hc : IsNearest S u top x c) : b = c := by
  -- of two different ones the smaller would have an odd pattern next to it that is nearer
  have hne : ∀ {b c}, IsNearest S u top x b → IsNearest S u top x c → ¬ b < c := by
    intro b c hb hc hlt
    have hdist := le_antisymm (hb.nearest c hc.le_top) (hc.nearest b hb.le_top)
    have hbeven := hb.even c hc.le_top (Nat.ne_of_gt hlt) hdist
    have hceven := hc.even b hb.le_top (Nat.ne_of_lt hlt) hdist.symm
    have hbetween : b + 1 < c := by
      rcases Nat.lt_or_ge (b + 1) c with h | h
      · exact h
      · have : c = b + 1 := by omega
        subst this
        exact absurd hceven (Nat.not_even_iff_odd.mpr hbeven.add_one)
    have hlow := magnitude_strictMono S u (Nat.lt_succ_self b)
    have hhigh := magnitude_strictMono S u hbetween
    have hnear := hb.nearest (b + 1) (by have := hc.le_top; omega)
    rcases abs_cases (x - magnitude S u b) with ⟨h₁, _⟩ | ⟨h₁, _⟩ <;>
      rcases abs_cases (x - magnitude S u c) with ⟨h₂, _⟩ | ⟨h₂, _⟩ <;>
      rcases abs_cases (x - magnitude S u (b + 1)) with ⟨h₃, _⟩ | ⟨h₃, _⟩ <;>
      simp only [Nat.succ_eq_add_one] at * <;> linarith
  rcases Nat.lt_trichotomy b c with h | h | h
  · exact absurd h (hne hb hc)
  · exact h
  · exact absurd h (hne hc hb)

theorem isNearest_low (hlo : magnitude S u b ≤ x) (hhi : x ≤ magnitude S u (b + 1)) (hb : b ≤ top)
    (hnear : x - magnitude S u b < magnitude S u (b + 1) - x ∨
      x - magnitude S u b = magnitude S u (b + 1) - x ∧ Even b) : IsNearest S u top x b := by
  have hmono := (magnitude_strictMono S u).monotone
  have hdist : |x - magnitude S u b| = x - magnitude S u b := abs_of_nonneg (by linarith)
  have hbelow : ∀ c < b, |x - magnitude S u b| < |x - magnitude S u c| := by
    intro c hc
    have hlt := magnitude_strictMono S u hc
    rw [hdist, abs_of_nonneg (by linarith)]
    linarith
  have habove : ∀ c, b < c → magnitude S u (b + 1) - x ≤ |x - magnitude S u c| := by
    intro c hc
    have hle := hmono (show b + 1 ≤ c from hc)
    rw [abs_of_nonpos (by linarith)]
    linarith
  refine ⟨hb, fun c _ => ?_, fun c _ hne heq => ?_⟩
  · rcases Nat.lt_trichotomy c b with hc | rfl | hc
    · exact (hbelow c hc).le
    · exact le_rfl
    · have := habove c hc
      rcases hnear with h | ⟨h, -⟩ <;> rw [hdist] <;> linarith
  · rcases Nat.lt_or_gt_of_ne hne with hc | hc
    · exact absurd heq (hbelow c hc).ne
    · have hle := habove c hc
      rcases hnear with h | ⟨-, heven⟩
      · rw [← heq, hdist] at hle
        linarith
      · exact heven

theorem isNearest_high (hlo : magnitude S u b ≤ x) (hhi : x ≤ magnitude S u (b + 1))
    (hb : b + 1 ≤ top)
    (hnear : magnitude S u (b + 1) - x < x - magnitude S u b ∨
      magnitude S u (b + 1) - x = x - magnitude S u b ∧ Even (b + 1)) :
    IsNearest S u top x (b + 1) := by
  have hmono := (magnitude_strictMono S u).monotone
  have hdist : |x - magnitude S u (b + 1)| = magnitude S u (b + 1) - x := by
    rw [abs_of_nonpos (by linarith)]
    ring
  have habove : ∀ c, b + 1 < c → |x - magnitude S u (b + 1)| < |x - magnitude S u c| := by
    intro c hc
    have hlt := magnitude_strictMono S u hc
    rw [hdist, abs_of_nonpos (by linarith)]
    linarith
  have hbelow : ∀ c < b + 1, x - magnitude S u b ≤ |x - magnitude S u c| := by
    intro c hc
    have hle := hmono (show c ≤ b from Nat.lt_succ_iff.mp hc)
    rw [abs_of_nonneg (by linarith)]
    linarith
  refine ⟨hb, fun c _ => ?_, fun c _ hne heq => ?_⟩
  · rcases Nat.lt_trichotomy c (b + 1) with hc | rfl | hc
    · have := hbelow c hc
      rcases hnear with h | ⟨h, -⟩ <;> rw [hdist] <;> linarith
    · exact le_rfl
    · exact (habove c hc).le
  · rcases Nat.lt_or_gt_of_ne hne with hc | hc
    · have hle := hbelow c hc
      rcases hnear with h | ⟨-, heven⟩
      · rw [← heq, hdist] at hle
        linarith
      · exact heven
    · exact absurd heq (habove c hc).ne

/-- Rounding `q + r` units of the last place, `r` below 1. -/
theorem isNearest_iff {r : ℚ} (he : e = 0 ∨ 2 ^ S ≤ q) (hq : q + 1 ≤ 2 ^ (S + 1))
    (htop : e * 2 ^ S + q + 1 ≤ top) (hr : 0 ≤ r) (hr1 : r < 1)
    (hx : x = (q + r) * 2 ^ (u + e)) :
    IsNearest S u top x c ↔
      c = e * 2 ^ S + q + if 1 / 2 < r ∨ r = 1 / 2 ∧ Odd (e * 2 ^ S + q) then 1 else 0 := by
  have hpow : (0 : ℚ) < 2 ^ (u + e) := zpow_pos two_pos _
  have hlow : magnitude S u (e * 2 ^ S + q) = q * 2 ^ (u + e) := magnitude_block he (by omega)
  have hhigh : magnitude S u (e * 2 ^ S + q + 1) = (q + 1) * 2 ^ (u + e) := by
    rw [Nat.add_assoc, magnitude_block (he.imp_right (by omega)) hq]
    push_cast
    rfl
  have hdown : x - magnitude S u (e * 2 ^ S + q) = r * 2 ^ (u + e) := by
    rw [hx, hlow]
    ring
  have hup : magnitude S u (e * 2 ^ S + q + 1) - x = (1 - r) * 2 ^ (u + e) := by
    rw [hx, hhigh]
    ring
  have hlo : magnitude S u (e * 2 ^ S + q) ≤ x := by
    have := mul_nonneg hr hpow.le
    linarith
  have hhi : x ≤ magnitude S u (e * 2 ^ S + q + 1) := by
    have := mul_nonneg (sub_nonneg.mpr hr1.le) hpow.le
    linarith
  have hrounded : IsNearest S u top x (e * 2 ^ S + q +
      if 1 / 2 < r ∨ r = 1 / 2 ∧ Odd (e * 2 ^ S + q) then 1 else 0) := by
    by_cases h : 1 / 2 < r ∨ r = 1 / 2 ∧ Odd (e * 2 ^ S + q)
    · rw [if_pos h]
      refine isNearest_high hlo hhi htop ?_
      rw [hdown, hup]
      rcases h with h | ⟨rfl, hodd⟩
      · exact .inl (mul_lt_mul_of_pos_right (by linarith) hpow)
      · exact .inr ⟨by norm_num, hodd.add_one⟩
    · rw [if_neg h, Nat.add_zero]
      refine isNearest_low hlo hhi (by omega) ?_
      rw [hdown, hup]
      rw [not_or, not_lt, not_and, Nat.not_odd_iff_even] at h
      rcases lt_or_eq_of_le h.1 with hlt | heq
      · exact .inl (mul_lt_mul_of_pos_right (by linarith) hpow)
      · exact .inr ⟨by rw [heq]; norm_num, h.2 heq⟩
  constructor
  · intro hc
    exact hc.unique hrounded
  · rintro rfl
    exact hrounded

/-- What is beyond the last pattern rounds to it. -/
theorem isNearest_top (hx : magnitude S u top ≤ x) : IsNearest S u top x c ↔ c = top := by
  have htop : IsNearest S u top x top := by
    have hdist : |x - magnitude S u top| = x - magnitude S u top := abs_of_nonneg (by linarith)
    have hbelow : ∀ c < top, |x - magnitude S u top| < |x - magnitude S u c| := by
      intro c hc
      have hlt := magnitude_strictMono S u hc
      rw [hdist, abs_of_nonneg (by linarith)]
      linarith
    refine ⟨le_rfl, fun c hc => ?_, fun c hc hne heq => ?_⟩
    · rcases Nat.lt_or_eq_of_le hc with hc | rfl
      · exact (hbelow c hc).le
      · exact le_rfl
    · exact absurd heq (hbelow c (by omega)).ne
  constructor
  · intro hc
    exact hc.unique htop
  · rintro rfl
    exact htop

/-- A number on the grid rounds to itself. -/
theorem isNearest_magnitude (hb : b ≤ top) : IsNearest S u top (magnitude S u b) c ↔ c = b := by
  have hself : IsNearest S u top (magnitude S u b) b := by
    refine ⟨hb, fun c _ => ?_, fun c _ hne heq => ?_⟩
    · rw [sub_self, abs_zero]
      exact abs_nonneg _
    · rw [sub_self, abs_zero] at heq
      exact absurd ((magnitude_strictMono S u).injective (sub_eq_zero.mp (abs_eq_zero.mp heq.symm)))
        (Ne.symm hne)
  constructor
  · intro hc
    exact hc.unique hself
  · rintro rfl
    exact hself

end Nearest

end SexprWasm
