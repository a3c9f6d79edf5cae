import SexprWasm.Literal.FloatWriter
import SexprWasm.Literal.FloatSound
import SexprWasm.Literal.FloatTotal
import SexprWasm.Literal.TokenType

/-!
# Every float is read as it was written

A finite number is written as a token that denotes it exactly (`exact`
is the `magnitude` of its pattern), which leaves the parser nothing to
round. The tag of a NaN is read digit by digit.
-/

namespace SexprWasm

namespace Literal

open Digits Nearest

/-! ## Nybbles -/

theorem hexDigit_of {d : Nat} (hd : d < 16) :
    IsHexdigit (hexDigit d) ∧ digitValue (hexDigit d) = d := by
  have hall : ∀ d < 16, IsHexdigit (hexDigit d) ∧ digitValue (hexDigit d) = d := by decide
  exact hall d hd

theorem decimalDigit_of {d : Nat} (hd : d < 10) :
    IsDigit (decimalDigit d) ∧ digitValue (decimalDigit d) = d := by
  have hall : ∀ d < 10, IsDigit (decimalDigit d) ∧ digitValue (decimalDigit d) = d := by decide
  exact hall d hd

theorem map_hexDigit {ds : List Nat} (hds : ∀ d ∈ ds, d < 16) :
    (∀ c ∈ ds.map hexDigit, IsHexdigit c) ∧ (ds.map hexDigit).map digitValue = ds := by
  constructor
  · intro c hc
    obtain ⟨d, hd, rfl⟩ := List.mem_map.mp hc
    exact (hexDigit_of (hds d hd)).1
  · rw [List.map_map]
    exact (List.map_congr_left fun d hd => (hexDigit_of (hds d hd)).2).trans (List.map_id ds)

namespace Format

variable {f : Format} {n t sig : Nat}

/-- A word is its first nybble and the rest of it. -/
theorem nybble_split (hsig : sig < 2 ^ f.bits) :
    f.topNybble sig < 16 ∧ sig * 16 = f.topNybble sig * 2 ^ f.bits + (sig <<< 4) % 2 ^ f.bits := by
  have hle := f.le_bits
  have hpow : 2 ^ f.bits = 16 * 2 ^ (f.bits - 4) := by
    rw [show (16 : Nat) = 2 ^ 4 from rfl, ← pow_add]
    congr 1
    omega
  have htop : sig / 2 ^ (f.bits - 4) < 16 := by
    rw [Nat.div_lt_iff_lt_mul (Nat.two_pow_pos _), ← hpow]
    exact hsig
  have hnybble : f.topNybble sig = sig / 2 ^ (f.bits - 4) := by
    unfold topNybble
    rw [Nat.shiftRight_eq_div_pow, show (0xf : Nat) = 2 ^ 4 - 1 from rfl, Nat.and_two_pow_sub_one_eq_mod,
      Nat.mod_eq_of_lt htop]
  refine ⟨hnybble ▸ htop, ?_⟩
  rw [hnybble, Nat.shiftLeft_eq, hpow, Nat.mul_comm sig, Nat.mul_mod_mul_left,
    ← Nat.mul_assoc, Nat.mul_comm _ 16, Nat.mul_assoc, ← Nat.mul_add, Nat.mul_comm _ (2 ^ (f.bits - 4)),
    Nat.div_add_mod]

/-- The loop over the fraction ends, and the digits it writes make up the fraction. -/
theorem fracNybbles_of (hsig : sig < 2 ^ f.bits) (hdvd : 2 ^ (f.bits - t) ∣ sig) (ht : t ≤ 4 * n) :
    ∃ ds, f.fracNybbles n sig = some ds ∧ (∀ d ∈ ds, d < 16) ∧ 4 * ds.length ≤ t + 3 ∧
      value 16 ds * 2 ^ f.bits = sig * 16 ^ ds.length := by
  induction n generalizing sig t with
  | zero =>
    have hzero : sig = 0 := by
      rw [show f.bits - t = f.bits by omega] at hdvd
      exact Nat.eq_zero_of_dvd_of_lt hdvd hsig
    subst hzero
    exact ⟨[], rfl, by simp, by simp, by simp⟩
  | succ n ih =>
    by_cases hzero : sig = 0
    · subst hzero
      exact ⟨[], rfl, by simp, by simp, by simp⟩
    · obtain ⟨hlt, hsplit⟩ := nybble_split hsig
      have hpos : t ≠ 0 := by
        rintro rfl
        exact hzero (Nat.eq_zero_of_dvd_of_lt hdvd hsig)
      have hdvd' : 2 ^ (f.bits - (t - 4)) ∣ (sig <<< 4) % 2 ^ f.bits := by
        rw [Nat.dvd_mod_iff (Nat.pow_dvd_pow 2 (Nat.sub_le _ _)), Nat.shiftLeft_eq]
        refine (Nat.pow_dvd_pow 2 (by omega : f.bits - (t - 4) ≤ f.bits - t + 4)).trans ?_
        rw [pow_add]
        exact Nat.mul_dvd_mul_right hdvd _
      obtain ⟨ds, hds, hds16, hlen, hvalue⟩ :=
        ih (Nat.mod_lt _ (Nat.two_pow_pos _)) hdvd' (by omega)
      refine ⟨f.topNybble sig :: ds, ?_, ?_, ?_, ?_⟩
      · rw [fracNybbles, if_neg hzero, hds, Option.map_some]
      · intro d hd
        rcases List.mem_cons.mp hd with rfl | hd
        · exact hlt
        · exact hds16 d hd
      · rw [List.length_cons]
        omega
      · rw [value_cons, List.length_cons, Nat.add_mul, hvalue, pow_succ', ← Nat.mul_assoc, hsplit,
          Nat.add_mul, Nat.mul_right_comm]

theorem length_tagNybbles : (f.tagNybbles n sig).length = n := by
  induction n generalizing sig with
  | zero => rfl
  | succ n ih => rw [tagNybbles, List.length_cons, ih]

theorem shift_div (hn : 4 * (n + 1) ≤ f.bits) (hsig : sig < 2 ^ f.bits) :
    sig / 2 ^ (f.bits - 4 * (n + 1)) =
      f.topNybble sig * 16 ^ n + (sig <<< 4) % 2 ^ f.bits / 2 ^ (f.bits - 4 * n) := by
  have hpos := Nat.two_pow_pos (f.bits - 4 * n)
  have hstep : 2 ^ (f.bits - 4 * n) = 2 ^ (f.bits - 4 * (n + 1)) * 16 := by
    rw [show (16 : Nat) = 2 ^ 4 from rfl, ← pow_add]
    congr 1
    omega
  have hword : 2 ^ f.bits = 16 ^ n * 2 ^ (f.bits - 4 * n) := by
    rw [show (16 : Nat) = 2 ^ 4 from rfl, ← pow_mul, ← pow_add]
    congr 1
    omega
  rw [← Nat.mul_div_mul_right sig _ (show 0 < 16 by decide), ← hstep, (nybble_split hsig).2]
  conv_lhs => rw [hword, ← Nat.mul_assoc, Nat.add_comm, Nat.add_mul_div_right _ _ hpos, Nat.add_comm]
  rw [← hword]

theorem tagNybbles_of (hsig : sig < 2 ^ f.bits) (hn : 4 * n ≤ f.bits) :
    (∀ d ∈ f.tagNybbles n sig, d < 16) ∧
      value 16 (f.tagNybbles n sig) = sig / 2 ^ (f.bits - 4 * n) := by
  induction n generalizing sig with
  | zero =>
    rw [Nat.mul_zero, Nat.sub_zero, Nat.div_eq_of_lt hsig]
    exact ⟨by simp [tagNybbles], rfl⟩
  | succ n ih =>
    obtain ⟨hlt, hvalue⟩ := ih (Nat.mod_lt (sig <<< 4) (Nat.two_pow_pos f.bits)) (by omega)
    constructor
    · intro d hd
      rcases List.mem_cons.mp hd with rfl | hd
      · exact (nybble_split hsig).1
      · exact hlt d hd
    · rw [tagNybbles, value_cons, length_tagNybbles, hvalue, shift_div hn hsig]

/-- Leading zeroes do not count. -/
theorem skipZeroes_of (hsig : sig < 2 ^ f.bits) (hne : sig ≠ 0) (hn : 4 * n ≤ f.bits)
    (hfull : 2 ^ (f.bits - 4 * n) ∣ sig) :
    ∃ n' sig', f.skipZeroes n sig = (n', sig') ∧ n' ≠ 0 ∧ n' ≤ n ∧ sig' < 2 ^ f.bits ∧
      sig' / 2 ^ (f.bits - 4 * n') = sig / 2 ^ (f.bits - 4 * n) := by
  induction n generalizing sig with
  | zero =>
    rw [Nat.mul_zero, Nat.sub_zero] at hfull
    exact absurd (Nat.eq_zero_of_dvd_of_lt hfull hsig) hne
  | succ n ih =>
    obtain ⟨-, hsplit⟩ := nybble_split hsig
    unfold skipZeroes
    split_ifs with htop
    · have hzero : f.topNybble sig = 0 := by
        have hshift := congrArg (· >>> (f.bits - 4)) htop
        simp only [Nat.shiftRight_and_distrib, Nat.shiftLeft_shiftRight, Nat.zero_shiftRight] at hshift
        exact hshift
      rw [hzero, Nat.zero_mul, Nat.zero_add] at hsplit
      have hne' : (sig <<< 4) % 2 ^ f.bits ≠ 0 := by omega
      have hfull' : 2 ^ (f.bits - 4 * n) ∣ (sig <<< 4) % 2 ^ f.bits := by
        rw [← hsplit, show f.bits - 4 * n = f.bits - 4 * (n + 1) + 4 by omega, pow_add]
        exact Nat.mul_dvd_mul_right hfull _
      obtain ⟨n', sig', heq, hn', hle, hlt, hdiv⟩ :=
        ih (Nat.mod_lt _ (Nat.two_pow_pos _)) hne' (by omega) hfull'
      refine ⟨n', sig', heq, hn', by omega, hlt, ?_⟩
      rw [hdiv, shift_div hn hsig, hzero, Nat.zero_mul, Nat.zero_add]
    · exact ⟨n + 1, sig, rfl, Nat.succ_ne_zero n, le_rfl, hsig, rfl⟩

/-- The digits of a tag make it up. -/
theorem writeTag_of (hbits : 4 * (f.bits / 4) = f.bits) (hsig : sig < 2 ^ f.bits) (hne : sig ≠ 0) :
    ∃ ds, f.writeTag sig = ds.map hexDigit ∧ ds ≠ [] ∧ ds.length ≤ f.bits / 4 ∧
      (∀ d ∈ ds, d < 16) ∧ value 16 ds = sig := by
  obtain ⟨n, sig', heq, hn, hle, hlt, hdiv⟩ := skipZeroes_of (n := f.bits / 4) hsig hne (by omega)
    (by rw [hbits, Nat.sub_self, pow_zero]; exact one_dvd _)
  obtain ⟨h16, hvalue⟩ := tagNybbles_of (n := n) hlt (by omega)
  refine ⟨f.tagNybbles n sig', ?_, ?_, ?_, h16, ?_⟩
  · rw [writeTag, heq]
  · intro hnil
    have hlen : (f.tagNybbles n sig').length = n := length_tagNybbles
    rw [hnil] at hlen
    exact hn hlen.symm
  · rw [length_tagNybbles]
    exact hle
  · rw [hvalue, hdiv, hbits, Nat.sub_self, pow_zero, Nat.div_one]

end Format

/-! ## Exponents -/

/-- The digits denote the number. -/
structure WritesExponent (f : Format) (writeDigits : Nat → List UInt8) (maxLen : Nat) : Prop where
  digits : ∀ e ≤ f.expBias + f.sigBits, ∀ c ∈ writeDigits e, IsDigit c
  ne_nil : ∀ e, writeDigits e ≠ []
  length_le : ∀ e, (writeDigits e).length ≤ maxLen
  value : ∀ e ≤ f.expBias + f.sigBits, value 10 ((writeDigits e).map digitValue) = e

theorem digit_of_mod (n : Nat) :
    IsDigit (decimalDigit (n % 10)) ∧ digitValue (decimalDigit (n % 10)) = n % 10 :=
  decimalDigit_of (Nat.mod_lt n (by decide))

theorem isDigit_one : IsDigit 0x31 := by decide

theorem digitValue_one : digitValue 0x31 = 1 := by decide

theorem writesExponent_float : WritesExponent f32 floatExponent 3 := by
  refine ⟨fun e _ => ?_, fun e => ?_, fun e => ?_, fun e he => ?_⟩
  · unfold floatExponent
    split_ifs <;> simp [digit_of_mod, isDigit_one]
  · simp [floatExponent]
  · unfold floatExponent
    split_ifs <;> simp
  · replace he : e ≤ 150 := he
    unfold floatExponent
    split_ifs <;> simp [value_cons, digit_of_mod, digitValue_one] <;> omega

theorem writesExponent_double : WritesExponent f64 doubleExponent 4 := by
  refine ⟨fun e _ => ?_, fun e => ?_, fun e => ?_, fun e he => ?_⟩
  · unfold doubleExponent
    split_ifs <;> simp [digit_of_mod, isDigit_one]
  · simp [doubleExponent]
  · unfold doubleExponent
    split_ifs <;> simp
  · replace he : e ≤ 1075 := he
    unfold doubleExponent
    split_ifs <;> simp [value_cons, digit_of_mod, digitValue_one] <;> omega

/-- The exponent is read to its end if its digits but the last do not reach the bound. -/
theorem cut_eq {bound : Int} {e : Nat} {ds : List Nat}
    (hlt : ((e * 10 ^ ds.length + value 10 ds) / 10 : Nat) < bound) (hne : ds ≠ []) :
    cut bound e ds = e * 10 ^ ds.length + value 10 ds := by
  induction ds generalizing e with
  | nil => exact absurd rfl hne
  | cons d ds ih =>
    have hvalue : e * 10 ^ (d :: ds).length + value 10 (d :: ds) =
        (e * 10 + d) * 10 ^ ds.length + value 10 ds := by
      rw [value_cons, List.length_cons]
      ring
    rw [hvalue] at hlt ⊢
    rw [cut]
    cases ds with
    | nil => simp [cut]
    | cons d' ds =>
      have hle : e * 10 + d ≤ ((e * 10 + d) * 10 ^ (d' :: ds).length + value 10 (d' :: ds)) / 10 := by
        rw [Nat.le_div_iff_mul_le (by decide), List.length_cons, pow_succ, ← Nat.mul_assoc]
        have hpos : 0 < 10 ^ ds.length := by positivity
        have hmul := Nat.mul_le_mul_right 10 (Nat.le_mul_of_pos_right (e * 10 + d) hpos)
        omega
      rw [if_neg (by omega)]
      exact ih hlt (by simp)

/-! ## The tokens that are written -/

namespace HexFloat

variable {f : Format} {h : HexFloat} {q e : Nat} {x : ℚ}

theorem expBias_ge : 127 ≤ f.expBias := by
  have hle := f.le_bits
  have hpow : 2 ^ 7 ≤ 2 ^ (f.signShift - f.sigBits - 1) :=
    Nat.pow_le_pow_right (by decide) (by unfold Format.signShift; omega)
  unfold Format.expBias
  omega

/-- The parser reads a token with one digit before the dot, a fraction of no more digits than the
format has, and an exponent of the format as what it denotes. -/
theorem faithful_of (hint : h.intDigits = [1]) (hfrac : 4 * h.fracDigits.length ≤ f.sigBits + 3)
    (hexp : value 10 h.expDigits ≤ f.expBias + f.sigBits) (hlen : h.exp.length ≤ 4) :
    h.Faithful f := by
  have hkept : h.keptInt f = h.intDigits.length := by
    rw [keptInt, hint, keep, if_pos ⟨by decide, .inl rfl⟩]
    rfl
  have hfracle := keptFrac_le (h := h) (f := f)
  have hS := f.sigBits_le
  have hS' := f.le_sigBits
  have hbits := f.le_bits
  refine ⟨?_, .inr (.inr hkept), ?_, .inl ?_⟩
  · have hintlen : h.int.length = 1 := by
      rw [← List.length_map (f := digitValue), ← intDigits, hint]
      rfl
    have hfraclen : h.fracText.length ≤ h.fracDigits.length + 1 := by
      unfold fracText fracDigits
      cases h.frac <;> simp
    have hsign := length_signText h.sign
    have hexpSign := length_signText h.expSign
    simp only [text, zeroX, List.length_append, List.length_cons, List.length_nil, hintlen]
    omega
  · have hvalue : h.significand f < 2 ^ (f.sigBits + 4) := by
      have hlt : value 16 (h.fracDigits.take (h.keptFrac f)) < _ :=
        value_lt fun d hd => fracDigits_lt d (List.mem_of_mem_take hd)
      have hpow : 2 * 16 ^ h.keptFrac f ≤ 2 ^ (f.sigBits + 4) := by
        rw [show (16 : Nat) = 2 ^ 4 from rfl, ← pow_mul, ← pow_succ']
        exact Nat.pow_le_pow_right (by decide) (by omega)
      rw [significand, keptDigits, hkept, List.take_length, hint, List.singleton_append, value_cons]
      rw [List.length_take, Nat.min_eq_left hfracle] at hlt ⊢
      omega
    have hword : 2 ^ (f.sigBits + 4) + 2 ^ (f.bits - f.sigBits - 1) < 2 ^ f.bits := by
      have h₁ : 2 ^ (f.sigBits + 4) < 2 ^ (f.bits - 1) := Nat.pow_lt_pow_right (by decide) (by omega)
      have h₂ : 2 ^ (f.bits - f.sigBits - 1) < 2 ^ (f.bits - 1) :=
        Nat.pow_lt_pow_right (by decide) (by omega)
      have h₃ := Format.two_pow_pred (s := f.bits) (by omega)
      omega
    unfold Format.Fits
    omega
  · have hbias := expBias_ge (f := f)
    have hshift : h.shift f = -(4 * (h.keptFrac f : Int)) := by
      rw [shift, hkept, Nat.sub_self]
      simp
    have hadd : h.exponentAdd f ≤ f.sigBits + 3 := by
      unfold exponentAdd
      split <;> omega
    have hcut : cut (f.maxExp - h.exponentAdd f) 0 h.expDigits = value 10 h.expDigits := by
      rw [cut_eq ?_ (by simp [expDigits, h.exp_ne]), Nat.zero_mul, Nat.zero_add]
      rw [Nat.zero_mul, Nat.zero_add]
      unfold Format.maxExp
      omega
    rw [exponentRead, hcut, exponent]

/-- A number that is a multiple of its last place has nothing to be rounded. -/
theorem fract_eq_zero (he : e = 0 ∨ 2 ^ f.sigBits ≤ q) (hq : q < 2 ^ (f.sigBits + 1)) (hq0 : q ≠ 0)
    (hx : x = q * 2 ^ (f.unit + e)) : Int.fract (x / 2 ^ f.lastPlace x) = 0 := by
  have hpow : (0 : ℚ) < 2 ^ (f.unit + e) := zpow_pos two_pos _
  have hlo : ((2 ^ q.log2 : Nat) : ℚ) ≤ q := Nat.cast_le.mpr (Nat.log2_self_le hq0)
  have hhi : (q : ℚ) < ((2 ^ (q.log2 + 1) : Nat) : ℚ) := Nat.cast_lt.mpr Nat.lt_log2_self
  push_cast at hlo hhi
  have hlog : Int.log 2 x = q.log2 + (f.unit + e) := by
    refine Format.log_eq ?_ ?_
    · rw [hx, zpow_add₀ two_ne_zero, zpow_natCast]
      exact mul_le_mul_of_nonneg_right hlo hpow.le
    · have hnext : (q.log2 : Int) + (f.unit + e) + 1 = ((q.log2 + 1 : Nat) : Int) + (f.unit + e) := by
        push_cast
        ring
      rw [hx, hnext, zpow_add₀ two_ne_zero ((q.log2 + 1 : Nat) : Int), zpow_natCast]
      exact mul_lt_mul_of_pos_right hhi hpow
  have hplace : f.lastPlace x = f.unit + e := by
    have hle : q.log2 < f.sigBits + 1 := (Nat.log2_lt hq0).mpr hq
    rw [Format.lastPlace, hlog]
    rcases he with rfl | he
    · omega
    · have hge : f.sigBits ≤ q.log2 := (Nat.le_log2 hq0).mpr he
      omega
  rw [hplace, hx, mul_div_cancel_right₀ _ hpow.ne', Int.fract_natCast]

/-- A token that denotes a float is read as its pattern. -/
theorem parseHex_magnitude {b : Nat} (hlimit : f.sigBits + 4 ≤ 4 * f.digitLimit)
    (hf : h.Faithful f) (hexact : h.exact = magnitude f.sigBits f.unit b) (hb : b ≤ f.infinityBits)
    (hfract : Int.fract (h.exact / 2 ^ f.lastPlace h.exact) = 0) :
    f.parseHex h.text = some (f.signBits h.isNeg + b) := by
  obtain ⟨c, hnearest, hparse⟩ := (rounds_parseHex_iff hlimit hf).mpr (Format.not_misrounds hfract)
  have hcb : c = b := by
    rw [hexact] at hnearest
    exact (isNearest_magnitude hb).mp hnearest
  subst hcb
  cases hread : f.parseHex h.text with
  | none =>
    rw [hread] at hparse
    cases hparse
  | some bits =>
    rw [hread] at hparse
    cases hparse
    rfl

/-- `writeExponent` for a number that is not zero. -/
theorem writeExponent_false (writeDigits : Nat → List UInt8) (exp : Int) :
    Format.writeExponent writeDigits false exp =
      signText (some (decide (exp < 0))) ++ writeDigits exp.natAbs := by
  unfold Format.writeExponent
  rw [if_neg (by decide)]
  by_cases hneg : exp < 0
  · rw [if_pos hneg, decide_eq_true hneg, show (-exp).toNat = exp.natAbs by omega]
    rfl
  · rw [if_neg hneg, decide_eq_false hneg, show exp.toNat = exp.natAbs by omega]
    rfl

/-- What is written for a number that is not zero is a token. -/
theorem exists_text {writeDigits : Nat → List UInt8} {maxLen : Nat}
    (hw : WritesExponent f writeDigits maxLen) (hmax : maxLen ≤ 4) (sign : Option Bool)
    {frac : Option (List Nat)} (hfrac : ∀ ds ∈ frac, ∀ d ∈ ds, d < 16)
    (hlen : 4 * (frac.getD []).length ≤ f.sigBits + 3) {exp : Int}
    (hexp : exp.natAbs ≤ f.expBias + f.sigBits) :
    ∃ h : HexFloat, h.sign = sign ∧
      h.text = signText sign ++ (zeroX ++ 0x31 :: (((frac.map fun ds => 0x2e :: ds.map hexDigit).getD []) ++
        0x70 :: Format.writeExponent writeDigits false exp)) ∧
      h.Faithful f ∧ h.fracDigits = frac.getD [] ∧
      h.exact = (1 + value 16 (frac.getD []) / 16 ^ (frac.getD []).length) * 2 ^ exp := by
  let h : HexFloat :=
    { sign
      int := [0x31]
      frac := frac.map (·.map hexDigit)
      expSign := some (decide (exp < 0))
      exp := writeDigits exp.natAbs
      int_ne := by decide
      exp_ne := hw.ne_nil _
      int_digits := List.forall_mem_singleton.mpr (by decide)
      frac_digits := by
        intro cs hcs
        obtain ⟨ds, hds, rfl⟩ := Option.map_eq_some_iff.mp hcs
        exact (map_hexDigit (hfrac ds hds)).1
      exp_digits := hw.digits _ hexp }
  have hint : h.intDigits = [1] := congrArg (fun d => [d]) digitValue_one
  have hfracDigits : h.fracDigits = frac.getD [] := by
    cases hfracEq : frac with
    | none => simp [h, fracDigits, hfracEq]
    | some ds =>
      have hmap := (map_hexDigit (hfrac ds hfracEq)).2
      rw [fracDigits]
      simp only [h, hfracEq, Option.map_some, Option.getD_some]
      exact hmap
  have hexpDigits : value 10 h.expDigits = exp.natAbs := hw.value _ hexp
  have hexponent : h.exponent = exp := by
    unfold exponent
    rw [hexpDigits]
    by_cases hneg : exp < 0
    · rw [if_pos (by simp [h, hneg])]
      omega
    · rw [if_neg (by simp [h, hneg])]
      omega
  refine ⟨h, rfl, ?_, ?_, hfracDigits, ?_⟩
  · rw [writeExponent_false]
    cases hfracEq : frac with
    | none => simp [text, fracText, h, hfracEq]
    | some ds => simp [text, fracText, h, hfracEq]
  · exact faithful_of hint (hfracDigits ▸ hlen) (hexpDigits ▸ hexp) ((hw.length_le _).trans hmax)
  · have hne : (16 : ℚ) ^ (frac.getD []).length ≠ 0 := by positivity
    have hpow : (2 : ℚ) ^ exp = 16 ^ (frac.getD []).length *
        2 ^ (exp - 4 * ((frac.getD []).length : Int)) := by
      have hsixteen : (16 : ℚ) ^ (frac.getD []).length =
          2 ^ (4 * ((frac.getD []).length : Int)) := by
        rw [zpow_mul, zpow_natCast]
        norm_num
      rw [hsixteen, ← zpow_add₀ two_ne_zero]
      congr 1
      ring
    rw [exact, digits, hint, hfracDigits, hexponent, List.singleton_append, value_cons, hpow,
      ← mul_assoc, add_mul, div_mul_cancel₀ _ hne]
    push_cast
    ring

end HexFloat

namespace Format

variable {f : Format} {sig : Nat} {exp : Int}

/-- The dot and the digits after it. -/
def fracText (frac : Option (List Nat)) : List UInt8 :=
  (frac.map fun ds => 0x2e :: ds.map hexDigit).getD []

/-- The number that goes with digits after the dot. -/
noncomputable def fracValue (frac : Option (List Nat)) : ℚ :=
  value 16 (frac.getD []) / 16 ^ (frac.getD []).length

/-- Digits of a fraction that fit the format. -/
structure IsFrac (f : Format) (frac : Option (List Nat)) : Prop where
  digits : ∀ ds ∈ frac, ∀ d ∈ ds, d < 16
  length_le : 4 * (frac.getD []).length ≤ f.sigBits + 3

/-- The digits of `sig` bits of a word, as many as `t`. -/
theorem fracNybbles_value {t word : Nat} (hword : word < 2 ^ f.bits) (hdvd : 2 ^ (f.bits - t) ∣ word)
    (ht : t ≤ f.sigBits) :
    ∃ ds, f.fracNybbles (f.bits / 4) word = some ds ∧ f.IsFrac (some ds) ∧
      fracValue (some ds) = word / 2 ^ f.bits := by
  have hle := f.le_bits
  obtain ⟨ds, hds, h16, hlen, hvalue⟩ := fracNybbles_of (n := f.bits / 4) hword hdvd (by omega)
  refine ⟨ds, hds, ⟨?_, ?_⟩, ?_⟩
  · rintro ds' ⟨⟩
    exact h16
  · rw [Option.getD_some]
    omega
  · rw [fracValue, Option.getD_some, div_eq_div_iff (by positivity) (by positivity)]
    exact_mod_cast hvalue

theorem writeFraction_normal (hsig : sig < 2 ^ f.sigBits) (hexp : exp ≠ f.minExp) :
    ∃ frac, f.writeFraction exp ((sig <<< (f.bits - f.sigBits)) % 2 ^ f.bits) =
        some (fracText frac, exp) ∧ f.IsFrac frac ∧
      (1 + fracValue frac) * 2 ^ exp = ((2 ^ f.sigBits + sig : Nat) : ℚ) * 2 ^ (exp - f.sigBits) := by
  have hle := f.le_bits
  have hsplit : 2 ^ f.bits = 2 ^ f.sigBits * 2 ^ (f.bits - f.sigBits) := by
    rw [← pow_add]
    congr 1
    omega
  have hword : (sig <<< (f.bits - f.sigBits)) % 2 ^ f.bits = sig * 2 ^ (f.bits - f.sigBits) := by
    rw [Nat.shiftLeft_eq, Nat.mod_eq_of_lt]
    rw [hsplit]
    exact Nat.mul_lt_mul_of_pos_right hsig (Nat.two_pow_pos _)
  have hpow : (2 : ℚ) ^ exp = 2 ^ f.sigBits * 2 ^ (exp - f.sigBits) := by
    rw [← zpow_natCast, ← zpow_add₀ two_ne_zero]
    congr 1
    ring
  rw [hword]
  by_cases hzero : sig = 0
  · subst hzero
    refine ⟨none, ?_, ⟨by simp, by simp⟩, ?_⟩
    · rw [Nat.zero_mul, writeFraction, if_pos rfl]
      rfl
    · rw [hpow]
      simp [fracValue]
  · have hne : sig * 2 ^ (f.bits - f.sigBits) ≠ 0 :=
      Nat.mul_ne_zero hzero (Nat.two_pow_pos _).ne'
    obtain ⟨ds, hds, hfrac, hvalue⟩ := fracNybbles_value (f := f) (t := f.sigBits)
      (show sig * 2 ^ (f.bits - f.sigBits) < 2 ^ f.bits by
        rw [hsplit]
        exact Nat.mul_lt_mul_of_pos_right hsig (Nat.two_pow_pos _))
      (Nat.dvd_mul_left _ _) le_rfl
    refine ⟨some ds, ?_, hfrac, ?_⟩
    · rw [writeFraction, if_neg hne, if_neg hexp]
      simp only [hds, Option.map_some]
      rfl
    · have hfraction : fracValue (some ds) = sig / 2 ^ f.sigBits := by
        have hq : (2 : ℚ) ^ f.bits = 2 ^ f.sigBits * 2 ^ (f.bits - f.sigBits) := by exact_mod_cast hsplit
        rw [hvalue, hq]
        push_cast
        rw [mul_div_mul_right _ _ (by positivity)]
      rw [hfraction, hpow, ← mul_assoc, add_mul, div_mul_cancel₀ _ (by positivity)]
      push_cast
      ring

theorem writeFraction_subnormal (hsig : sig < 2 ^ f.sigBits) (hne : sig ≠ 0) :
    ∃ frac exp, f.writeFraction f.minExp ((sig <<< (f.bits - f.sigBits)) % 2 ^ f.bits) =
        some (fracText frac, exp) ∧ f.IsFrac frac ∧
      f.minExp - f.sigBits < exp ∧ exp ≤ f.minExp ∧
      (1 + fracValue frac) * 2 ^ exp = (sig : ℚ) * 2 ^ f.unit := by
  have hle := f.le_bits
  have hlog := (Nat.log2_lt hne).mpr hsig
  have hself := Nat.log2_self_le hne
  have hlt := Nat.lt_log2_self (n := sig)
  have hsplit : 2 ^ f.bits = 2 ^ f.sigBits * 2 ^ (f.bits - f.sigBits) := by
    rw [← pow_add]
    congr 1
    omega
  have hword : (sig <<< (f.bits - f.sigBits)) % 2 ^ f.bits = sig * 2 ^ (f.bits - f.sigBits) := by
    rw [Nat.shiftLeft_eq, Nat.mod_eq_of_lt]
    rw [hsplit]
    exact Nat.mul_lt_mul_of_pos_right hsig (Nat.two_pow_pos _)
  have hwordne : sig * 2 ^ (f.bits - f.sigBits) ≠ 0 := Nat.mul_ne_zero hne (Nat.two_pow_pos _).ne'
  have hclz : f.clz (sig * 2 ^ (f.bits - f.sigBits)) = f.sigBits - 1 - sig.log2 := by
    have hlogWord : (sig * 2 ^ (f.bits - f.sigBits)).log2 = sig.log2 + (f.bits - f.sigBits) := by
      rw [Nat.log2_eq_iff hwordne, Nat.add_right_comm, pow_add, pow_add]
      exact ⟨Nat.mul_le_mul_right _ hself, Nat.mul_lt_mul_of_pos_right hlt (Nat.two_pow_pos _)⟩
    rw [clz, hlogWord]
    omega
  -- the first bit that is set goes out of the word
  have hshifted : ((sig * 2 ^ (f.bits - f.sigBits)) <<< (f.sigBits - 1 - sig.log2 + 1)) % 2 ^ f.bits =
      (sig - 2 ^ sig.log2) * 2 ^ (f.bits - sig.log2) := by
    have hfull : 2 ^ f.bits = 2 ^ sig.log2 * 2 ^ (f.bits - sig.log2) := by
      rw [← pow_add]
      congr 1
      omega
    have hfirst : sig * 2 ^ (f.bits - sig.log2) =
        (sig - 2 ^ sig.log2) * 2 ^ (f.bits - sig.log2) + 2 ^ f.bits := by
      rw [hfull, ← Nat.add_mul, Nat.sub_add_cancel hself]
    rw [Nat.shiftLeft_eq, Nat.mul_assoc, ← pow_add,
      show f.bits - f.sigBits + (f.sigBits - 1 - sig.log2 + 1) = f.bits - sig.log2 by omega,
      hfirst, Nat.add_mod_right]
    refine Nat.mod_eq_of_lt ?_
    rw [hfull]
    exact Nat.mul_lt_mul_of_pos_right (by rw [pow_succ'] at hlt; omega) (Nat.two_pow_pos _)
  have hrest : (sig - 2 ^ sig.log2) * 2 ^ (f.bits - sig.log2) < 2 ^ f.bits := by
    rw [← hshifted]
    exact Nat.mod_lt _ (Nat.two_pow_pos _)
  obtain ⟨ds, hds, hfrac, hvalue⟩ := fracNybbles_value (f := f) (t := sig.log2) hrest
    (Nat.dvd_mul_left _ _) hlog.le
  refine ⟨some ds, f.minExp - (f.sigBits - 1 - sig.log2 : Nat), ?_, hfrac, by omega, by omega, ?_⟩
  · rw [hword, writeFraction, if_neg hwordne, if_pos rfl, normalize, hclz,
      if_pos (by omega), hshifted]
    simp only [hds, Option.map_some]
    rfl
  · have hq : (2 : ℚ) ^ f.bits = 2 ^ sig.log2 * 2 ^ (f.bits - sig.log2) := by
      rw [← pow_add]
      congr 1
      omega
    have hpow : (2 : ℚ) ^ (f.minExp - (f.sigBits - 1 - sig.log2 : Nat)) = 2 ^ sig.log2 * 2 ^ f.unit := by
      rw [← zpow_natCast, ← zpow_add₀ two_ne_zero]
      congr 1
      unfold unit
      omega
    rw [hvalue, hq, hpow]
    push_cast [Nat.cast_sub hself]
    rw [mul_div_mul_right _ _ (by positivity), ← mul_assoc, add_mul, div_mul_cancel₀ _ (by positivity)]
    ring

/-! ## Finite numbers -/

variable {writeDigits : Nat → List UInt8} {maxLen e q : Nat}

/-- The text of a number that is not zero is read as its pattern. -/
theorem exists_finite (hw : WritesExponent f writeDigits maxLen) (hmax : maxLen ≤ 4)
    (hlimit : f.sigBits + 4 ≤ 4 * f.digitLimit) (sign : Option Bool) {frac : Option (List Nat)}
    (hfrac : f.IsFrac frac) (hexp : exp.natAbs ≤ f.expBias + f.sigBits)
    (he : e = 0 ∨ 2 ^ f.sigBits ≤ q) (hq : q < 2 ^ (f.sigBits + 1)) (hq0 : q ≠ 0)
    (hb : e * 2 ^ f.sigBits + q ≤ f.infinityBits)
    (hvalue : (1 + fracValue frac) * 2 ^ exp = (q : ℚ) * 2 ^ (f.unit + e)) :
    ∃ h : HexFloat, h.text = signText sign ++
        (zeroX ++ 0x31 :: (fracText frac ++ 0x70 :: writeExponent writeDigits false exp)) ∧
      f.parseHex h.text =
        some (f.signBits (decide (sign = some true)) + (e * 2 ^ f.sigBits + q)) := by
  obtain ⟨h, rfl, htext, hf, -, hexact⟩ :=
    HexFloat.exists_text hw hmax sign hfrac.digits hfrac.length_le hexp
  have hexact' : h.exact = q * 2 ^ (f.unit + e) := by
    rw [hexact]
    exact hvalue
  refine ⟨h, htext, HexFloat.parseHex_magnitude hlimit hf ?_ hb ?_⟩
  · rw [hexact', magnitude_block he hq.le]
  · exact HexFloat.fract_eq_zero he hq hq0 hexact'

/-- The text of a zero. -/
theorem exists_zero (hlimit : f.sigBits + 4 ≤ 4 * f.digitLimit) (sign : Option Bool) :
    ∃ h : HexFloat, h.text = signText sign ++ (zeroX ++ 0x30 :: 0x70 :: [0x2b, 0x30]) ∧
      f.parseHex h.text = some (f.signBits (decide (sign = some true)) + 0) := by
  let h : HexFloat :=
    { sign
      int := [0x30]
      frac := none
      expSign := some false
      exp := [0x30]
      int_ne := by decide
      exp_ne := by decide
      int_digits := List.forall_mem_singleton.mpr (by decide)
      frac_digits := by simp
      exp_digits := List.forall_mem_singleton.mpr (by decide) }
  have hdigit : digitValue 0x30 = 0 := by decide
  have hint : h.intDigits = [0] := congrArg (fun d => [d]) hdigit
  have hkept : h.keptInt f = 0 := by
    rw [HexFloat.keptInt, hint]
    rfl
  have hfrac : h.keptFrac f = 0 := rfl
  have hsig : h.significand f = 0 := by
    rw [HexFloat.significand, HexFloat.keptDigits, hkept, hfrac]
    rfl
  have hlen : (h.text.length : Int) < 2 ^ 25 := by
    have hsign := length_signText sign
    simp only [HexFloat.text, HexFloat.fracText, h, zeroX, signText, List.length_append,
      List.length_cons, List.length_nil] at hsign ⊢
    omega
  exact ⟨h, rfl, HexFloat.parseHex_zero hlen hsig⟩

theorem length_writeExponent (hw : WritesExponent f writeDigits maxLen) {isZero : Bool} (hmax : maxLen ≠ 0) :
    (writeExponent writeDigits isZero exp).length ≤ maxLen + 1 := by
  unfold writeExponent
  split_ifs
  · simp only [List.length_cons, List.length_nil]
    omega
  · exact Nat.succ_le_succ (hw.length_le _)
  · exact Nat.succ_le_succ (hw.length_le _)

theorem length_fracText {frac : Option (List Nat)} (hfrac : f.IsFrac frac) :
    (fracText frac).length ≤ (f.sigBits + 3) / 4 + 1 := by
  have hlen := hfrac.length_le
  cases frac with
  | none => exact Nat.zero_le _
  | some ds =>
    rw [Option.getD_some] at hlen
    simp only [fracText, Option.map_some, Option.getD_some, List.length_cons, List.length_map]
    omega

/-- A finite number is written as a token that is read as its pattern. -/
theorem writeFinite_of (hw : WritesExponent f writeDigits maxLen) (hmax0 : maxLen ≠ 0)
    (hmax : maxLen ≤ 4) (hlimit : f.sigBits + 4 ≤ 4 * f.digitLimit) (sign : Option Bool)
    (he : e < f.expMask) (hsig : sig < 2 ^ f.sigBits) :
    ∃ (h : HexFloat) (body : List UInt8), f.writeFinite writeDigits ((e : Int) - f.expBias) sig = some body ∧
      h.text = signText sign ++ body ∧ body.length ≤ (f.sigBits + 3) / 4 + maxLen + 6 ∧
      f.parseHex h.text =
        some (f.signBits (decide (sign = some true)) + (e * 2 ^ f.sigBits + sig)) := by
  have hmask := expMask_eq (f := f)
  have hbias : f.minExp = -f.expBias := rfl
  have hpow : 2 ^ (f.sigBits + 1) = 2 * 2 ^ f.sigBits := pow_succ' ..
  have hpos := Nat.two_pow_pos f.sigBits
  have hfits : e * 2 ^ f.sigBits + sig ≤ f.infinityBits := by
    have hle := Nat.mul_le_mul_right (2 ^ f.sigBits) (show e + 1 ≤ f.expMask from he)
    rw [Nat.add_mul] at hle
    unfold infinityBits
    omega
  have hlength : ∀ {frac : Option (List Nat)} {isZero : Bool} {exp : Int} {c : UInt8}, f.IsFrac frac →
      (zeroX ++ c :: (fracText frac ++ 0x70 :: writeExponent writeDigits isZero exp)).length ≤
        (f.sigBits + 3) / 4 + maxLen + 6 := by
    intro frac isZero exp c hfrac
    have h₁ := length_fracText hfrac
    have h₂ : (writeExponent writeDigits isZero exp).length ≤ _ := length_writeExponent hw hmax0
    simp only [zeroX, List.length_append, List.length_cons, List.length_nil]
    omega
  unfold writeFinite
  by_cases he0 : e = 0
  · subst he0
    have hexp : ((0 : Nat) : Int) - f.expBias = f.minExp := by omega
    rw [hexp, Nat.zero_mul, Nat.zero_add]
    by_cases hzero : sig = 0
    · subst hzero
      obtain ⟨h, htext, hparse⟩ := exists_zero (f := f) hlimit sign
      refine ⟨h, _, ?_, htext, ?_, hparse⟩
      · rw [Nat.zero_shiftLeft, Nat.zero_mod, writeFraction, if_pos rfl]
        simp [writeExponent]
      · simp only [zeroX, List.length_append, List.length_cons, List.length_nil]
        omega
    · obtain ⟨frac, exp, hwrite, hfrac, hlo, hhi, hvalue⟩ := writeFraction_subnormal hsig hzero
      obtain ⟨h, htext, hparse⟩ := exists_finite (e := 0) (q := sig) hw hmax hlimit sign hfrac
        (show exp.natAbs ≤ f.expBias + f.sigBits by omega) (.inl rfl) (by omega) hzero (by omega) (by rw [hvalue]; simp)
      refine ⟨h, _, ?_, htext, hlength hfrac, ?_⟩
      · simp [hwrite, hzero]
      · rw [hparse, Nat.zero_mul, Nat.zero_add]
  · obtain ⟨e', rfl⟩ := Nat.exists_eq_succ_of_ne_zero he0
    have hexp : ((e' + 1 : Nat) : Int) - f.expBias ≠ f.minExp := by omega
    obtain ⟨frac, hwrite, hfrac, hvalue⟩ := writeFraction_normal hsig hexp
    have hblock : (e' + 1) * 2 ^ f.sigBits + sig = e' * 2 ^ f.sigBits + (2 ^ f.sigBits + sig) := by ring
    rw [Nat.succ_eq_add_one, hblock] at hfits
    obtain ⟨h, htext, hparse⟩ := exists_finite (e := e') (q := 2 ^ f.sigBits + sig)
      hw hmax hlimit sign hfrac
      (show (((e' + 1 : Nat) : Int) - f.expBias).natAbs ≤ f.expBias + f.sigBits by omega) (.inr (by omega)) (by omega) (by omega) hfits (by
        rw [hvalue]
        congr 2
        unfold unit
        omega)
    refine ⟨h, _, ?_, htext, hlength hfrac, ?_⟩
    · simp only [Nat.succ_eq_add_one, hwrite, hexp, and_false, decide_false, Option.map_some,
        Bool.false_eq_true, if_false]
    · rw [hparse, Nat.succ_eq_add_one, hblock]

/-! ## Infinities and NaNs -/

theorem parseTag_of {cs : List UInt8} {tag : Nat} (hcs : ∀ c ∈ cs, IsHexdigit c)
    (hle : tag * 16 ^ cs.length + value 16 (cs.map digitValue) ≤ f.sigMask) :
    f.parseTag tag cs = some (tag * 16 ^ cs.length + value 16 (cs.map digitValue)) := by
  have hmask : f.sigMask < 2 ^ f.bits := by
    have hpow : 2 ^ f.sigBits ≤ 2 ^ f.bits :=
      Nat.pow_le_pow_right (by decide) (by have := f.le_bits; omega)
    have hpos := Nat.two_pow_pos f.sigBits
    unfold sigMask
    omega
  induction cs generalizing tag with
  | nil => simp [parseTag]
  | cons c cs ih =>
    have hvalue : tag * 16 ^ (c :: cs).length + value 16 ((c :: cs).map digitValue) =
        (tag * 16 + digitValue c) * 16 ^ cs.length + value 16 (cs.map digitValue) := by
      rw [List.map_cons, value_cons, List.length_cons, List.length_map]
      ring
    rw [hvalue] at hle ⊢
    have hnext : tag * 16 + digitValue c ≤ f.sigMask := by
      have hpos : 0 < 16 ^ cs.length := by positivity
      have := Nat.le_mul_of_pos_right (tag * 16 + digitValue c) hpos
      omega
    rw [parseTag, (parseHexdigit_of (hcs c List.mem_cons_self)).1]
    simp only []
    rw [Nat.mod_eq_of_lt (by omega), if_neg (by omega)]
    exact ih (fun c hc => hcs c (List.mem_cons_of_mem _ hc)) hle

theorem make_maxExp {isNeg : Bool} (hsig : sig < 2 ^ f.sigBits) :
    f.make isNeg f.maxExp sig = some (f.signBits isNeg + (f.expMask * 2 ^ f.sigBits + sig)) := by
  have hexp : (f.maxExp + f.expBias).toNat = f.expMask := by
    rw [expMask_eq]
    unfold maxExp
    omega
  rw [make_of minExp_lt_maxExp.le le_rfl hsig, hexp]

/-- An infinity or a NaN is written as a token that is read as its pattern. -/
theorem writeSpecial_of (badTag : Parsed) (hbits : 4 * (f.bits / 4) = f.bits) (sign : Option Bool)
    (hsig : sig < 2 ^ f.sigBits) :
    (f.writeSpecial sig).length ≤ f.bits / 4 + 8 ∧
      (sig = 0 ∧ f.writeSpecial sig = infinity ∧ f.parseInfinity (signText sign ++ infinity) =
          some (f.signBits (decide (sign = some true)) + (f.expMask * 2 ^ f.sigBits + sig)) ∨
        Token .nan (signText sign ++ f.writeSpecial sig) ∧
          f.parseNan badTag (signText sign ++ f.writeSpecial sig) =
            .ok (f.signBits (decide (sign = some true)) + (f.expMask * 2 ^ f.sigBits + sig))) := by
  have hle := f.le_bits
  have hmake : f.make (decide (sign = some true)) f.maxExp sig = _ := make_maxExp hsig
  unfold writeSpecial
  by_cases hzero : sig = 0
  · subst hzero
    rw [if_pos rfl]
    refine ⟨by simp [infinity], .inl ⟨rfl, rfl, ?_⟩⟩
    rw [parseInfinity, HexFloat.parseFloatSign_of (ne_sign rfl (by decide))]
    exact hmake
  · rw [if_neg hzero]
    by_cases hquiet : sig = f.quietNanTag
    · rw [if_neg (not_not.mpr hquiet), List.append_nil]
      refine ⟨by simp [nan], .inr ⟨.nan sign, ?_⟩⟩
      rw [parseNan, HexFloat.parseFloatSign_of (ne_sign rfl (by decide))]
      show Parsed.ofOption (f.make _ f.maxExp f.quietNanTag) = _
      rw [← hquiet, hmake, Parsed.ofOption]
    · have hword : sig < 2 ^ f.bits :=
        lt_of_lt_of_le hsig (Nat.pow_le_pow_right (by decide) (by omega))
      obtain ⟨ds, htag, hne, hlen, h16, hvalue⟩ := writeTag_of hbits hword hzero
      obtain ⟨hhex, hmap⟩ := map_hexDigit h16
      rw [if_pos hquiet, htag]
      refine ⟨?_, .inr ⟨.nanTag sign (by simpa using hne) hhex, ?_⟩⟩
      · simp only [nan, colonHex, List.length_append, List.length_cons, List.length_nil, List.length_map]
        omega
      · have hread : f.parseTag 0 (ds.map hexDigit) = some sig := by
          rw [parseTag_of hhex]
          · rw [hmap, hvalue, Nat.zero_mul, Nat.zero_add]
          · rw [hmap, hvalue, Nat.zero_mul, Nat.zero_add]
            exact Nat.le_sub_one_of_lt hsig
        rw [parseNan_colonHex, hread, Option.elim_some, if_neg hzero, hmake, Parsed.ofOption]

/-! ## The parts of a pattern -/

theorem pattern_eq {bits : Nat} (hbits : bits < 2 ^ f.bits) :
    bits = f.signBits (decide (bits >>> f.signShift ≠ 0)) +
        (((bits >>> f.sigBits) &&& f.expMask) * 2 ^ f.sigBits + (bits &&& f.sigMask)) ∧
      (bits >>> f.sigBits) &&& f.expMask ≤ f.expMask ∧ bits &&& f.sigMask < 2 ^ f.sigBits := by
  have hle := f.le_bits
  have hpos := Nat.two_pow_pos f.sigBits
  have hshift : f.signShift = f.sigBits + (f.signShift - f.sigBits) := by
    unfold signShift
    omega
  have hsign : bits / 2 ^ f.signShift < 2 := by
    rw [Nat.div_lt_iff_lt_mul (Nat.two_pow_pos _), ← pow_succ']
    unfold signShift
    rwa [Nat.sub_add_cancel (by omega)]
  have hexp : (bits >>> f.sigBits) &&& f.expMask = bits / 2 ^ f.sigBits % 2 ^ (f.signShift - f.sigBits) := by
    rw [Nat.shiftRight_eq_div_pow]
    exact Nat.and_two_pow_sub_one_eq_mod _ _
  have hsplit : bits / 2 ^ f.sigBits = 2 ^ (f.signShift - f.sigBits) * (bits / 2 ^ f.signShift) +
      bits / 2 ^ f.sigBits % 2 ^ (f.signShift - f.sigBits) := by
    conv_rhs => rw [hshift, pow_add, ← Nat.div_div_eq_div_mul, Nat.add_sub_cancel_left, Nat.div_add_mod]
  have hsigns : f.signBits (decide (bits >>> f.signShift ≠ 0)) =
      bits / 2 ^ f.signShift * 2 ^ f.signShift := by
    rw [Nat.shiftRight_eq_div_pow, signBits]
    congr 1
    generalize bits / 2 ^ f.signShift = s at hsign
    obtain rfl | rfl : s = 0 ∨ s = 1 := by omega
    · rfl
    · rfl
  refine ⟨?_, Nat.and_le_right, ?_⟩
  · have hshiftPow : 2 ^ f.signShift = 2 ^ f.sigBits * 2 ^ (f.signShift - f.sigBits) := by
      rw [← pow_add, ← hshift]
    rw [hsigns, hexp, and_sigMask]
    calc bits = 2 ^ f.sigBits * (bits / 2 ^ f.sigBits) + bits % 2 ^ f.sigBits :=
          (Nat.div_add_mod _ _).symm
      _ = 2 ^ f.sigBits * (2 ^ (f.signShift - f.sigBits) * (bits / 2 ^ f.signShift) +
            bits / 2 ^ f.sigBits % 2 ^ (f.signShift - f.sigBits)) + bits % 2 ^ f.sigBits := by
          rw [← hsplit]
      _ = bits / 2 ^ f.signShift * 2 ^ f.signShift +
            (bits / 2 ^ f.sigBits % 2 ^ (f.signShift - f.sigBits) * 2 ^ f.sigBits +
              bits % 2 ^ f.sigBits) := by
          rw [hshiftPow]
          ring
  · rw [and_sigMask]
    exact Nat.mod_lt _ hpos

end Format

/-! ## The round trip -/

variable {f : Format}

/-- What a text comes to in `wasm_parse_float` or `wasm_parse_double`. -/
def parsed (f : Format) (badTag : Parsed) (decimal : Option Nat) (t : LiteralType) (s : List UInt8) :
    Parsed :=
  match t with
  | .int | .float => .ofDecimal decimal
  | .hexfloat => .ofOption (f.parseHex s)
  | .infinity => .ofOption (f.parseInfinity s)
  | .nan => f.parseNan badTag s

/-- The text of a pattern is a token, and with its literal type it is read as the pattern. -/
theorem writeHex_parsed {writeDigits : Nat → List UInt8} {maxLen bits : Nat} (badTag : Parsed)
    (decimal : Option Nat) (hw : WritesExponent f writeDigits maxLen) (hmax0 : maxLen ≠ 0)
    (hmax : maxLen ≤ 4) (hlimit : f.sigBits + 4 ≤ 4 * f.digitLimit)
    (hword : 4 * (f.bits / 4) = f.bits) (hbits : bits < 2 ^ f.bits) :
    ∃ text, f.writeHex writeDigits bits = some text ∧
      text.length ≤ max ((f.sigBits + 3) / 4 + maxLen + 7) (f.bits / 4 + 9) ∧
      ∃ t, (t ≠ .int ∧ t ≠ .float) ∧ Token t text ∧ parsed f badTag decimal t text = .ok bits := by
  obtain ⟨hsplit, hexp, hsig⟩ := Format.pattern_eq hbits
  unfold Format.writeHex
  simp only []
  generalize hneg : decide (bits >>> f.signShift ≠ 0) = isNeg at hsplit
  generalize (bits >>> f.sigBits) &&& f.expMask = e at hexp hsplit
  generalize bits &&& f.sigMask = sig at hsig hsplit
  obtain ⟨sign, hsign, hdecide⟩ : ∃ sign : Option Bool,
      (if isNeg = true then [0x2d] else []) = signText sign ∧ decide (sign = some true) = isNeg := by
    cases isNeg with
    | false => exact ⟨none, rfl, rfl⟩
    | true => exact ⟨some true, rfl, rfl⟩
  have hlenSign := length_signText sign
  have hmask := Format.expMask_eq (f := f)
  have hmaxExp : f.maxExp = f.expBias + 1 := rfl
  rw [hsign]
  by_cases hspecial : e = f.expMask
  · rw [if_pos (by omega), Option.map_some]
    obtain ⟨hlen, hread⟩ := Format.writeSpecial_of badTag hword sign hsig
    refine ⟨_, rfl, ?_, ?_⟩
    · rw [List.length_append]
      omega
    · rw [hdecide, ← hspecial, ← hsplit] at hread
      rcases hread with ⟨-, hinf, hread⟩ | ⟨htoken, hread⟩
      · rw [hinf]
        refine ⟨.infinity, ⟨by decide, by decide⟩, .infinity _, ?_⟩
        rw [parsed, hread, Parsed.ofOption]
      · exact ⟨.nan, ⟨by decide, by decide⟩, htoken, hread⟩
  · obtain ⟨h, body, hwrite, htext, hlen, hread⟩ := Format.writeFinite_of (e := e) hw hmax0 hmax hlimit
      sign (by omega) hsig
    rw [if_neg (by omega), hwrite, Option.map_some]
    refine ⟨_, rfl, ?_, .hexfloat, ⟨by decide, by decide⟩, ?_, ?_⟩
    · rw [List.length_append]
      omega
    · rw [← htext]
      exact .hexfloat h
    · rw [hdecide, ← hsplit] at hread
      rw [parsed, ← htext, hread, Parsed.ofOption]

theorem copyOut_of {size : Nat} {text : List UInt8} (hlt : text.length < size) :
    copyOut size text = text := if_neg (Nat.not_le.mpr hlt)

/-- The text is a token of one literal type, and with that it is read as the pattern. -/
def ReadsBack (parse : LiteralType → List UInt8 → Parsed) (bits : Nat) (text : List UInt8) : Prop :=
  ∃ t, Token t text ∧ (∀ t', Token t' text → t' = t) ∧ parse t text = .ok bits

/-- What `wasm_write_float_hex` and `wasm_write_double_hex` write into a buffer that is large
enough, `wasm_parse_float` and `wasm_parse_double` read back. -/
theorem writeHex_readsBack (decimal : Decimal) :
    (∀ bits size, bits < 2 ^ 32 → maxFloatHex ≤ size →
      ∃ text, writeFloatHex size bits = some text ∧ ReadsBack (parseFloat decimal) bits text) ∧
    (∀ bits size, bits < 2 ^ 64 → maxDoubleHex ≤ size →
      ∃ text, writeDoubleHex size bits = some text ∧ ReadsBack (parseDouble decimal) bits text) := by
  constructor
  · intro bits size hbits hsize
    obtain ⟨text, hwrite, hlen, t, ⟨hint, hfloat⟩, htoken, hread⟩ := writeHex_parsed (f := f32) .abort
      none writesExponent_float (by decide) (by decide) (by decide) (by decide) hbits
    have hlen' : text.length ≤ 17 := hlen
    have hsize' : 20 ≤ size := hsize
    refine ⟨text, ?_, t, htoken, fun t' ht' => htoken.type_unique ht' hint hfloat, ?_⟩
    · rw [writeFloatHex, hwrite, Option.map_some, copyOut_of (by omega)]
    · cases t with
      | int => exact absurd rfl hint
      | float => exact absurd rfl hfloat
      | hexfloat => exact hread
      | infinity => exact hread
      | nan => exact hread
  · intro bits size hbits hsize
    obtain ⟨text, hwrite, hlen, t, ⟨hint, hfloat⟩, htoken, hread⟩ := writeHex_parsed (f := f64) .error
      none writesExponent_double (by decide) (by decide) (by decide) (by decide) hbits
    have hlen' : text.length ≤ 25 := hlen
    have hsize' : 40 ≤ size := hsize
    refine ⟨text, ?_, t, htoken, fun t' ht' => htoken.type_unique ht' hint hfloat, ?_⟩
    · rw [writeDoubleHex, hwrite, Option.map_some, copyOut_of (by omega)]
    · cases t with
      | int => exact absurd rfl hint
      | float => exact absurd rfl hfloat
      | hexfloat => exact hread
      | infinity => exact hread
      | nan => exact hread

/-- The smallest subnormal, and a NaN. -/
theorem writeHex_readsBack_small :
    (∃ text, writeFloatHex 20 0x80000001 = some text ∧
      ReadsBack (parseFloat ⟨fun _ => none, fun _ => none⟩) 0x80000001 text) ∧
    (∃ text, writeDoubleHex 40 0xfff0000000000001 = some text ∧
      ReadsBack (parseDouble ⟨fun _ => none, fun _ => none⟩) 0xfff0000000000001 text) :=
  ⟨(writeHex_readsBack _).1 _ _ (by decide) (by decide), (writeHex_readsBack _).2 _ _ (by decide) (by decide)⟩

end Literal

end SexprWasm
