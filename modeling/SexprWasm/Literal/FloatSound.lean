import SexprWasm.Literal.FloatExact

/-!
# Hex floats and the number they denote

A token is `Faithful` if the number the parser rounds is the one that is
denoted. It loses the zeros between the last digit kept before the dot
and the dot when it keeps digits after it, the bits of a significand
with zeros inside that is longer than a word, and the end of an exponent
that is cut short by the loop over it although the value is not out of
range.
-/

namespace SexprWasm

namespace Literal

open Digits Nearest

variable {f : Format} {m : Nat} {E E' : Int} {x : ℚ}

namespace Format

/-- The values beyond the range of the format are read as infinity or zero. -/
def Settled (f : Format) (E E' : Int) : Prop :=
  f.maxExp ≤ E ∧ f.maxExp ≤ E' ∨ E ≤ f.minExp - f.sigBits ∧ E' ≤ f.minExp - f.sigBits

theorem roundedBits_of_settled (h : f.Settled E E') : f.roundedBits m E = f.roundedBits m E' := by
  have hS := f.le_sigBits
  have hzero : ∀ {E : Int}, E ≤ f.minExp - f.sigBits → f.roundedBits m E = some 0 := by
    intro E hE
    have hmax := minExp_lt_maxExp (f := f)
    rw [roundedBits, if_neg (by omega), if_pos (by omega)]
    simp only []
    rw [if_neg (by omega), if_neg (by omega)]
  rcases h with ⟨hE, hE'⟩ | ⟨hE, hE'⟩
  · rw [roundedBits, if_pos hE, roundedBits, if_pos hE']
  · rw [hzero hE, hzero hE']

/-- Nothing is rounded wrong if nothing is to be rounded. -/
theorem not_misrounds {lost : Bool} (hx : Int.fract (x / 2 ^ f.lastPlace x) = 0) :
    ¬ f.Misrounds lost x := by
  unfold Misrounds
  simp only [hx]
  have hhalf : ¬ (1 / 2 : ℚ) < 0 := by norm_num
  have hhalf' : ¬ (1 / 2 : ℚ) ≤ 0 := by norm_num
  have hhalf'' : ¬ (0 : ℚ) = 1 / 2 := by norm_num
  have hclose : ∀ s, 2 ≤ s → ¬ (1 / 2 : ℚ) - 1 / 2 ^ (s + 1) ≤ 0 := by
    intro s hs hle
    have hpow : (2 : ℚ) ^ 2 ≤ 2 ^ (s + 1) := pow_le_pow_right₀ one_le_two (by omega)
    have hinv : (1 : ℚ) / 2 ^ (s + 1) ≤ 1 / 2 ^ 2 := one_div_le_one_div_of_le (by norm_num) hpow
    have hquarter : (1 : ℚ) / 2 ^ 2 = 1 / 4 := by norm_num
    linarith
  split_ifs
  · exact id
  · simp [hhalf, hhalf'']
  · simp [hhalf]
  · simp [hhalf, hhalf']
  · rintro (⟨h, -⟩ | ⟨hs, h, -⟩)
    · exact hhalf h
    · exact hclose _ hs h
  · exact hhalf

end Format

namespace HexFloat

variable {h : HexFloat}

/-- The exponent of the first bit, with this exponent after the `p`. -/
def leading (f : Format) (h : HexFloat) (exponent : Int) : Int :=
  exponent + h.shift f + (h.significand f).log2

/-- The number that is rounded is the one that is denoted, unless both are out of range. -/
structure Faithful (f : Format) (h : HexFloat) : Prop where
  short : (h.text.length : Int) < 2 ^ 25
  dot : h.DotKept f
  fits : f.Fits (h.significand f)
  exponent : h.exponentRead f = h.exponent ∨
    f.Settled (h.leading f (h.exponentRead f)) (h.leading f h.exponent)

theorem parseHex_of (hlen : (h.text.length : Int) < 2 ^ 25) (hfit : f.Fits (h.significand f))
    (hne : h.significand f ≠ 0) :
    f.parseHex h.text = (f.roundedBits (h.significand f) (h.leading f (h.exponentRead f))).map
      (f.signBits h.isNeg + ·) := by
  have hmod : h.significand f % 2 ^ f.bits = h.significand f := Nat.mod_eq_of_lt hfit.lt
  rw [parseHex_text hlen, hmod, if_neg hne, f.sub_clz hne hfit.lt, f.round_of _ hne hfit]
  congr 2
  unfold leading
  push_cast
  ring

theorem parseHex_zero (hlen : (h.text.length : Int) < 2 ^ 25) (hzero : h.significand f = 0) :
    f.parseHex h.text = some (f.signBits h.isNeg + 0) := by
  rw [parseHex_text hlen, hzero, Nat.zero_mod, if_pos rfl, Format.make_minExp (Nat.two_pow_pos _)]

/-- No digit is kept if all of them are zero. -/
theorem exact_zero (hzero : h.significand f = 0) : h.exact = 0 := by
  have hk : nonzeros (h.keptDigits f) = 0 := by
    by_contra hne
    have hle := le_value hne
    rw [← significand, hzero] at hle
    exact absurd hle (Nat.not_le.mpr (by positivity))
  rw [keptDigits, nonzeros, List.countP_append, Nat.add_eq_zero_iff] at hk
  have hint : h.keptInt f = 0 := nonzeros_eq_zero.mp hk.1
  have hfrac : nonzeros h.fracDigits = 0 := by
    by_cases hfrac : h.keptFrac f = 0
    · unfold keptFrac at hfrac
      rw [nonzeros_eq_zero.mpr hint] at hfrac
      exact nonzeros_of_keep hfrac
    · exact absurd hk.2 (value_take_keep hfrac fracDigits_lt).2
  unfold exact digits
  rw [value_append, value_zeros (nonzeros_of_keep hint), value_zeros hfrac]
  simp

/-- The nearest float, with the sign of the token. -/
def Rounds (f : Format) (h : HexFloat) (parsed : Parsed) : Prop :=
  ∃ b, f.Nearest h.exact b ∧ parsed = .ok (f.signBits h.isNeg + b)

theorem rounds_iff {b : Option Nat} :
    h.Rounds f (.ofOption (b.map (f.signBits h.isNeg + ·))) ↔ ∃ c, f.Nearest h.exact c ∧ b = some c := by
  refine exists_congr fun c => and_congr_right fun _ => ?_
  cases b with
  | none => simp [Parsed.ofOption]
  | some b => simp [Parsed.ofOption]

theorem nearest_zero : f.Nearest 0 0 := by
  have hzero : magnitude f.sigBits f.unit 0 = 0 := by simp [magnitude]
  have hself := (isNearest_magnitude (S := f.sigBits) (u := f.unit) (c := 0)
    (Nat.zero_le f.infinityBits)).mpr rfl
  rwa [hzero] at hself

/-- A token that is read as what it denotes is rounded to the nearest float, or misrounded. -/
theorem rounds_parseHex_iff (hlimit : f.sigBits + 4 ≤ 4 * f.digitLimit) (hf : h.Faithful f) :
    h.Rounds f (.ofOption (f.parseHex h.text)) ↔
      ¬ f.Misrounds ((h.significand f).log2 ≤ f.sigBits) h.exact := by
  by_cases hne : h.significand f = 0
  · have hexact := exact_zero hne
    refine iff_of_true ⟨0, ?_, ?_⟩ (Format.not_misrounds ?_)
    · rw [hexact]
      exact nearest_zero
    · rw [parseHex_zero hf.short hne, Parsed.ofOption]
    · rw [hexact, zero_div, Int.fract_zero]
  · have hbits : f.roundedBits (h.significand f) (h.leading f (h.exponentRead f)) =
        f.roundedBits (h.significand f) (h.leading f h.exponent) := by
      rcases hf.exponent with heq | hsettled
      · rw [heq]
      · exact Format.roundedBits_of_settled hsettled
    rw [parseHex_of hf.short hf.fits hne, rounds_iff, hbits]
    exact Format.nearest_iff hne (droppedSmall hlimit hf.dot hne) (exact_eq hf.dot hne) rfl

end HexFloat

end Literal

end SexprWasm
