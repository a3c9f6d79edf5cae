import SexprWasm.Literal.Token

/-!
# The loops of the hex float parsers

What the loop over the significand keeps of the digits (`keep`): from
the first one that is not zero on, up to a digit that comes with too
many zeros before it for the significand. Zeros that are pending at the
dot are taken into the exponent; the digits after the dot that are kept
then follow the last one kept before it, as if the zeros were not there.
-/

namespace SexprWasm

namespace Literal

open Digits

/-- The loop keeps a digit if its bits and those of the digits kept before, each of them four,
are no more than this many digits have. -/
def Format.digitLimit (f : Format) : Nat := (f.sigBits + 5) / 4

/-- How many of the digits there are up to the last one that is kept: `k` were kept before,
with `z` after the last of them. -/
def keep (limit : Nat) : Nat → Nat → List Nat → Nat
  | _, _, [] => 0
  | k, z, d :: ds =>
    if d ≠ 0 ∧ (k = 0 ∨ k + z + 1 ≤ limit) then keep limit (k + 1) 0 ds + 1
    else if keep limit k (z + 1) ds = 0 then 0
    else keep limit k (z + 1) ds + 1

/-- The digits that are not zero. -/
def nonzeros (ds : List Nat) : Nat := ds.countP (· ≠ 0)

variable {limit k z d : Nat} {ds : List Nat}

theorem keep_le : keep limit k z ds ≤ ds.length := by
  induction ds generalizing k z with
  | nil => simp [keep]
  | cons d ds ih =>
    have hkept := ih (k := k + 1) (z := 0)
    have hskipped := ih (k := k) (z := z + 1)
    unfold keep
    split_ifs <;> simp only [List.length_cons] <;> omega

/-- Once a digit comes too late, so do all that follow. -/
theorem keep_eq_zero (hk : k ≠ 0) (hlate : limit < k + z + 1) : keep limit k z ds = 0 := by
  induction ds generalizing z with
  | nil => rfl
  | cons d ds ih =>
    have hrest := ih (z := z + 1) (by omega)
    unfold keep
    rw [if_neg (by omega), if_pos hrest]

/-! ## One digit -/

variable (f : Format)

/-- The state after digits of which those kept make up `m`. -/
def Scan.of (seenDot : Bool) (m k z : Nat) (exponent : Int) : Scan where
  seenDot
  significand := m % 2 ^ f.bits
  shift := 4 * z
  bits := 4 * k
  exponent

/-- The first digit kept is not zero, and neither is the last. -/
def Kept (m k : Nat) : Prop := k = 0 ∧ m = 0 ∨ k ≠ 0 ∧ m % 16 ≠ 0

variable {f} {seenDot : Bool} {m : Nat} {x : Int}

theorem Kept.mod_eq_zero (h : Kept m k) : m % 2 ^ f.bits = 0 ↔ k = 0 := by
  constructor
  · intro hm
    by_contra hk
    rcases h with ⟨hk', -⟩ | ⟨-, h16⟩
    · exact hk hk'
    · have hdvd : 2 ^ 4 ∣ 2 ^ f.bits := Nat.pow_dvd_pow 2 (by have := f.le_bits; omega)
      exact h16 (Nat.mod_eq_zero_of_dvd (hdvd.trans (Nat.dvd_of_mod_eq_zero hm)))
  · rintro rfl
    rcases h with ⟨-, rfl⟩ | ⟨hk, -⟩
    · exact Nat.zero_mod _
    · exact absurd rfl hk

theorem int_of_lt {x : Int} (hx : |x| < 2 ^ 31) : int x = some x := by
  obtain ⟨hlo, hhi⟩ := abs_lt.mp hx
  unfold int
  exact if_pos ⟨hlo.le, hhi⟩

theorem append_of (h : Kept m k) (hbits : 4 * (k + 1) < 2 ^ 31)
    (hx : seenDot = true → |x - 4 * ((z + 1 : Nat) : Int)| < 2 ^ 31) :
    (Scan.of f seenDot m k (z + 1) x).append f d =
      some (Scan.of f seenDot (m * 16 ^ (z + 1) + d) (k + 1) 0
        (if seenDot then x - 4 * ((z + 1 : Nat) : Int) else x)) := by
  have hsig : ((if m % 2 ^ f.bits ≠ 0 then ((m % 2 ^ f.bits) <<< (4 * ((z + 1 : Nat) : Int)).toNat) %
      2 ^ f.bits else m % 2 ^ f.bits) + d) % 2 ^ f.bits = (m * 16 ^ (z + 1) + d) % 2 ^ f.bits := by
    by_cases hm : m % 2 ^ f.bits = 0
    · have hk := h.mod_eq_zero.mp hm
      rcases h with ⟨-, rfl⟩ | ⟨hk', -⟩
      · simp
      · exact absurd hk hk'
    · have hshift : (4 * ((z + 1 : Nat) : Int)).toNat = 4 * (z + 1) := by omega
      rw [if_pos hm, hshift, Nat.shiftLeft_eq, pow_mul]
      norm_num [Nat.add_mod, Nat.mul_mod]
  have hbits' : int (4 * (k : Int) + 4) = some (4 * ((k + 1 : Nat) : Int)) := by
    rw [int_of_lt (by rw [abs_of_nonneg] <;> omega)]
    push_cast
    ring_nf
  unfold Scan.append
  simp only [Scan.of, hbits']
  cases seenDot with
  | false => exact congrArg some (Scan.mk.injEq .. ▸ ⟨rfl, hsig, rfl, rfl, rfl⟩)
  | true =>
    simp only [if_true, int_of_lt (hx rfl)]
    exact congrArg some (Scan.mk.injEq .. ▸ ⟨rfl, hsig, rfl, rfl, rfl⟩)

theorem digit_of (h : Kept m k) (hbits : 4 * (k + z + 1) < 2 ^ 31)
    (hx : seenDot = true → |x - 4 * ((z + 1 : Nat) : Int)| < 2 ^ 31) :
    (Scan.of f seenDot m k z x).digit f d =
      some (if d ≠ 0 ∧ (k = 0 ∨ k + z + 1 ≤ f.digitLimit) then
        Scan.of f seenDot (m * 16 ^ (z + 1) + d) (k + 1) 0
          (if seenDot then x - 4 * ((z + 1 : Nat) : Int) else x)
      else Scan.of f seenDot m k (z + 1) x) := by
  have hshift : int ((Scan.of f seenDot m k z x).shift + 4) = some (4 * ((z + 1 : Nat) : Int)) := by
    show int (4 * (z : Int) + 4) = _
    rw [int_of_lt (by rw [abs_of_nonneg] <;> omega)]
    push_cast
    ring_nf
  have hroom : int (4 * (k : Int) + 4 * ((z + 1 : Nat) : Int)) =
      some (4 * ((k + z + 1 : Nat) : Int)) := by
    rw [int_of_lt (by rw [abs_of_nonneg] <;> omega)]
    push_cast
    ring_nf
  have hmod := h.mod_eq_zero (f := f)
  unfold Scan.digit
  rw [hshift]
  show (if d = 0 then some (Scan.of f seenDot m k (z + 1) x)
    else if m % 2 ^ f.bits = 0 then (Scan.of f seenDot m k (z + 1) x).append f d
    else (int (4 * (k : Int) + 4 * ((z + 1 : Nat) : Int))).bind fun bits =>
      if bits ≤ f.sigBits + 1 + 4 then (Scan.of f seenDot m k (z + 1) x).append f d
      else some (Scan.of f seenDot m k (z + 1) x)) = _
  by_cases hd : d = 0
  · rw [if_pos hd, if_neg (by simp [hd])]
  · by_cases hk : k = 0
    · rw [if_neg hd, if_pos (hmod.mpr hk), if_pos ⟨hd, .inl hk⟩]
      exact append_of h (by omega) hx
    · rw [if_neg hd, if_neg (fun hm => hk (hmod.mp hm)), hroom, Option.bind_some]
      have hlimit : 4 * ((k + z + 1 : Nat) : Int) ≤ f.sigBits + 1 + 4 ↔
          k + z + 1 ≤ f.digitLimit := by
        unfold Format.digitLimit
        omega
      by_cases hle : k + z + 1 ≤ f.digitLimit
      · rw [if_pos (hlimit.mpr hle), if_pos ⟨hd, .inr hle⟩]
        exact append_of h (by omega) hx
      · rw [if_neg (fun h => hle (hlimit.mp h)), if_neg]
        rintro ⟨-, h | h⟩
        · exact hk h
        · exact hle h

/-! ## All digits on one side of the dot -/

theorem parseHexdigit_of {c : UInt8} (hc : IsHexdigit c) :
    parseHexdigit c = some (digitValue c) ∧ digitValue c < 16 ∧ c ≠ 0x2e := by
  obtain ⟨d, hd⟩ := Option.isSome_iff_exists.mp hc
  have hvalue : digitValue c = d := by rw [digitValue, hd, Option.getD_some]
  rw [hvalue]
  refine ⟨?_, ?_, ?_⟩
  · unfold hexdigit at hd
    unfold parseHexdigit
    split_ifs at hd ⊢ <;> unfold within at * <;> first | omega | exact hd
  · unfold hexdigit at hd
    split_ifs at hd <;> unfold within at * <;> cases hd <;> omega
  · rintro rfl
    exact absurd hd (by simp [hexdigit, within])

/-- What the loop over some digits leaves, from a state in which the last `z` digits were not
kept. -/
def Scan.afterDigits (f : Format) (seenDot : Bool) (m k z : Nat) (x : Int) (ds : List Nat) : Scan :=
  let n := keep f.digitLimit k z ds
  if n = 0 then Scan.of f seenDot m k (z + ds.length) x
  else Scan.of f seenDot (m * 16 ^ (z + n) + value 16 (ds.take n)) (k + nonzeros (ds.take n))
    (ds.length - n) (if seenDot then x - 4 * ((z + n : Nat) : Int) else x)

theorem nonzeros_cons : nonzeros (d :: ds) = nonzeros ds + if d ≠ 0 then 1 else 0 := by
  simp [nonzeros, List.countP_cons]

theorem afterDigits_kept (hd : d ≠ 0 ∧ (k = 0 ∨ k + z + 1 ≤ f.digitLimit)) :
    Scan.afterDigits f seenDot (m * 16 ^ (z + 1) + d) (k + 1) 0
        (if seenDot then x - 4 * ((z + 1 : Nat) : Int) else x) ds =
      Scan.afterDigits f seenDot m k z x (d :: ds) := by
  have hn : keep f.digitLimit k z (d :: ds) = keep f.digitLimit (k + 1) 0 ds + 1 := by
    rw [keep, if_pos hd]
  have hle : keep f.digitLimit (k + 1) 0 ds ≤ ds.length := keep_le
  unfold Scan.afterDigits
  simp only [hn, Nat.add_one_ne_zero, if_false, List.take_succ_cons, value_cons, nonzeros_cons,
    List.length_take, List.length_cons, if_pos hd.1]
  generalize keep f.digitLimit (k + 1) 0 ds = n at hle
  by_cases hzero : n = 0
  · subst hzero
    simp [nonzeros]
  · rw [if_neg hzero, Nat.min_eq_left hle, Nat.zero_add, Nat.add_sub_add_right, Nat.add_comm z 1]
    have hm : (m * 16 ^ (z + 1) + d) * 16 ^ n = m * 16 ^ (z + (n + 1)) + d * 16 ^ n := by ring
    have hx : (if seenDot then (if seenDot then x - 4 * ((z + 1 : Nat) : Int) else x) - 4 * (n : Int)
        else if seenDot then x - 4 * ((z + 1 : Nat) : Int) else x) =
        if seenDot then x - 4 * ((z + (n + 1) : Nat) : Int) else x := by
      cases seenDot with
      | false => rfl
      | true =>
        simp only [if_true]
        push_cast
        ring
    rw [Nat.add_comm 1 z, hx, hm, Nat.add_assoc (m * _), Nat.add_assoc k, Nat.add_comm 1]

theorem afterDigits_skipped (hd : ¬(d ≠ 0 ∧ (k = 0 ∨ k + z + 1 ≤ f.digitLimit))) :
    Scan.afterDigits f seenDot m k (z + 1) x ds = Scan.afterDigits f seenDot m k z x (d :: ds) := by
  have hle : keep f.digitLimit k (z + 1) ds ≤ ds.length := keep_le
  unfold Scan.afterDigits
  rw [keep, if_neg hd]
  by_cases hzero : keep f.digitLimit k (z + 1) ds = 0
  · simp only [if_pos hzero, if_true, List.length_cons]
    rw [Nat.add_assoc, Nat.add_comm 1]
  · -- a digit that is not zero would have been the first that comes too late
    have hdzero : d = 0 := by
      by_contra hne
      rw [not_and_or, not_not, not_or, Nat.not_le] at hd
      rcases hd with hd | ⟨hk, hlate⟩
      · exact hne hd
      · exact hzero (keep_eq_zero hk (by omega))
    subst hdzero
    simp only [if_neg hzero, Nat.add_one_ne_zero, if_false, List.take_succ_cons, value_cons,
      nonzeros_cons, List.length_cons, Nat.add_sub_add_right, Nat.zero_mul, Nat.zero_add]
    rw [Nat.add_right_comm z 1, Nat.add_assoc z]
    simp

/-- The loop over some digits. -/
theorem run_digits {cs rest : List UInt8} (hcs : ∀ c ∈ cs, IsHexdigit c) (h : Kept m k)
    (hbits : 4 * (k + z + cs.length) < 2 ^ 31)
    (hx : seenDot = true → |x| + 4 * (z + cs.length) < 2 ^ 31) :
    (Scan.of f seenDot m k z x).run f (cs ++ rest) =
      (Scan.afterDigits f seenDot m k z x (cs.map digitValue)).run f rest := by
  induction cs generalizing m k z x with
  | nil => rfl
  | cons c cs ih =>
    obtain ⟨hdigit, hlt, hdot⟩ := parseHexdigit_of (hcs c List.mem_cons_self)
    have hcs' : ∀ c ∈ cs, IsHexdigit c := fun c hc => hcs c (List.mem_cons_of_mem _ hc)
    rw [List.length_cons] at hbits hx
    have habs : |x - 4 * ((z + 1 : Nat) : Int)| ≤ |x| + 4 * ((z + 1 : Nat) : Int) := by
      obtain ⟨hlo, hhi⟩ := abs_le.mp (le_refl |x|)
      rw [abs_le]
      constructor <;> omega
    have hfit : seenDot = true → |x - 4 * ((z + 1 : Nat) : Int)| < 2 ^ 31 := by
      intro hseen
      have := hx hseen
      omega
    rw [List.cons_append, Scan.run, if_neg hdot, hdigit]
    simp only []
    rw [digit_of h (by omega) hfit, Option.bind_eq_bind, Option.bind_some, List.map_cons]
    by_cases hd : digitValue c ≠ 0 ∧ (k = 0 ∨ k + z + 1 ≤ f.digitLimit)
    · have hkept : Kept (m * 16 ^ (z + 1) + digitValue c) (k + 1) := by
        refine .inr ⟨Nat.succ_ne_zero k, ?_⟩
        rw [pow_succ, ← Nat.mul_assoc]
        omega
      rw [if_pos hd, ih hcs' hkept (by omega) ?_, afterDigits_kept hd]
      intro hseen
      have := hx hseen
      rw [if_pos hseen]
      omega
    · rw [if_neg hd, ih hcs' h (by omega) ?_, afterDigits_skipped hd]
      intro hseen
      have := hx hseen
      omega

theorem value_cons_mod (hne : ds ≠ []) : value 16 (d :: ds) % 16 = value 16 ds % 16 := by
  obtain ⟨n, hn⟩ := Nat.exists_eq_succ_of_ne_zero (mt List.length_eq_zero_iff.mp hne)
  rw [value_cons, hn, pow_succ, ← Nat.mul_assoc]
  omega

/-- The last digit that is kept is not zero. -/
theorem value_take_keep (hn : keep limit k z ds ≠ 0) (hds : ∀ d ∈ ds, d < 16) :
    value 16 (ds.take (keep limit k z ds)) % 16 ≠ 0 ∧ nonzeros (ds.take (keep limit k z ds)) ≠ 0 := by
  induction ds generalizing k z with
  | nil => exact absurd rfl hn
  | cons d ds ih =>
    have hrest : ∀ {k z}, keep limit k z ds ≠ 0 →
        value 16 (d :: ds.take (keep limit k z ds)) % 16 ≠ 0 ∧
          nonzeros (d :: ds.take (keep limit k z ds)) ≠ 0 := by
      intro k z hne
      obtain ⟨hvalue, hnonzeros⟩ := ih hne fun d hd => hds d (List.mem_cons_of_mem _ hd)
      have htake : ds.take (keep limit k z ds) ≠ [] := by
        intro h
        rw [h] at hnonzeros
        exact hnonzeros rfl
      rw [value_cons_mod htake, nonzeros_cons]
      exact ⟨hvalue, by omega⟩
    unfold keep at hn ⊢
    split_ifs at hn ⊢ with hd hzero
    · rw [List.take_succ_cons]
      by_cases hzero : keep limit (k + 1) 0 ds = 0
      · have hlt := hds d List.mem_cons_self
        rw [hzero, List.take_zero, nonzeros_cons, if_pos hd.1]
        refine ⟨?_, Nat.succ_ne_zero _⟩
        rw [value_cons]
        simpa [Nat.mod_eq_of_lt hlt] using hd.1
      · exact hrest hzero
    · exact absurd rfl hn
    · exact hrest hzero

theorem kept_take (hn : keep limit k z ds ≠ 0) (hds : ∀ d ∈ ds, d < 16) :
    Kept (m * 16 ^ (z + keep limit k z ds) + value 16 (ds.take (keep limit k z ds)))
      (k + nonzeros (ds.take (keep limit k z ds))) := by
  obtain ⟨hvalue, hnonzeros⟩ := value_take_keep hn hds
  obtain ⟨n, hn'⟩ := Nat.exists_eq_succ_of_ne_zero hn
  refine .inr ⟨by omega, ?_⟩
  have hpow : m * 16 ^ (z + keep limit k z ds) = m * 16 ^ (z + n) * 16 := by
    rw [hn', Nat.add_succ, pow_succ, Nat.mul_assoc]
  rw [hpow]
  omega

theorem dot_of (h : Kept m k) (hz : 4 * z < 2 ^ 31) :
    (Scan.of f false m k z 0).dot =
      some (Scan.of f true m k 0 (if k = 0 then 0 else 4 * (z : Int))) := by
  have hmod := h.mod_eq_zero (f := f)
  have hsig : (Scan.of f false m k z 0).significand = m % 2 ^ f.bits := rfl
  have hint : int ((Scan.of f false m k z 0).exponent + (Scan.of f false m k z 0).shift) =
      some (4 * (z : Int)) := by
    show int (0 + 4 * (z : Int)) = _
    rw [zero_add, int_of_lt (by rw [abs_of_nonneg] <;> omega)]
  unfold Scan.dot
  by_cases hk : k = 0
  · simp only [hsig]
    rw [if_neg (not_not.mpr (hmod.mpr hk)), if_pos hk]
    rfl
  · have hm : ¬ m % 2 ^ f.bits = 0 := fun hm => hk (hmod.mp hm)
    simp only [hsig, ne_eq, hm, not_false_eq_true, if_true, hint, if_neg hk]
    rfl

/-! ## The significand of a token -/

namespace HexFloat

variable (h : HexFloat)

/-- How many digits before the dot there are up to the last one that is kept. -/
def keptInt (f : Format) : Nat := keep f.digitLimit 0 0 h.intDigits

/-- How many digits after the dot there are up to the last one that is kept. -/
def keptFrac (f : Format) : Nat :=
  keep f.digitLimit (nonzeros (h.intDigits.take (h.keptInt f))) 0 h.fracDigits

/-- The digits kept. -/
def keptDigits (f : Format) : List Nat :=
  h.intDigits.take (h.keptInt f) ++ h.fracDigits.take (h.keptFrac f)

/-- What the digits kept make up. -/
def significand (f : Format) : Nat := value 16 (h.keptDigits f)

/-- The exponent that goes with the digits kept. -/
def shift (f : Format) : Int :=
  (if h.keptInt f = 0 then 0 else 4 * ((h.intDigits.length - h.keptInt f : Nat) : Int)) -
    4 * (h.keptFrac f : Int)

variable {h} {rest : List UInt8}

theorem intDigits_lt : ∀ d ∈ h.intDigits, d < 16 := by
  intro d hd
  obtain ⟨c, hc, rfl⟩ := List.mem_map.mp hd
  exact (parseHexdigit_of (h.int_digits c hc)).2.1

theorem fracDigits_lt : ∀ d ∈ h.fracDigits, d < 16 := by
  intro d hd
  obtain ⟨c, hc, rfl⟩ := List.mem_map.mp hd
  refine (parseHexdigit_of ?_).2.1
  cases hfrac : h.frac with
  | none => simp [hfrac] at hc
  | some cs =>
    rw [hfrac, Option.getD_some] at hc
    exact h.frac_digits cs hfrac c hc

theorem afterDigits_int :
    Scan.afterDigits f false 0 0 0 0 h.intDigits =
      Scan.of f false (value 16 (h.intDigits.take (h.keptInt f)))
        (nonzeros (h.intDigits.take (h.keptInt f))) (h.intDigits.length - h.keptInt f) 0 := by
  unfold Scan.afterDigits
  show (if h.keptInt f = 0 then _ else _) = _
  by_cases hzero : h.keptInt f = 0
  · rw [if_pos hzero, hzero]
    simp [nonzeros]
  · rw [if_neg hzero]
    simp [keptInt]

theorem kept_int :
    Kept (value 16 (h.intDigits.take (h.keptInt f))) (nonzeros (h.intDigits.take (h.keptInt f))) := by
  by_cases hzero : h.keptInt f = 0
  · rw [hzero]
    exact .inl ⟨rfl, rfl⟩
  · have hkept := kept_take (m := 0) hzero (h.intDigits_lt)
    simpa [keptInt] using hkept

/-- What the loop leaves at the `p`. -/
def scan (h : HexFloat) (f : Format) : Scan :=
  match h.frac with
  | none =>
    Scan.of f false (h.significand f) (nonzeros (h.keptDigits f))
      (h.intDigits.length - h.keptInt f) 0
  | some _ =>
    Scan.of f true (h.significand f) (nonzeros (h.keptDigits f))
      (h.fracDigits.length - h.keptFrac f) (h.shift f)

theorem nonzeros_eq_zero : nonzeros (h.intDigits.take (h.keptInt f)) = 0 ↔ h.keptInt f = 0 := by
  constructor
  · intro hnonzeros
    by_contra hzero
    exact (value_take_keep hzero (h.intDigits_lt)).2 hnonzeros
  · intro hzero
    rw [hzero]
    rfl

theorem keptInt_le : h.keptInt f ≤ h.intDigits.length := keep_le

theorem keptFrac_le : h.keptFrac f ≤ h.fracDigits.length := keep_le

theorem nonzeros_le {ds : List Nat} : nonzeros ds ≤ ds.length := List.countP_le_length

/-- The loop over the significand of a token. -/
theorem run_significand (hlen : (h.int.length + h.fracText.length : Int) < 2 ^ 25) :
    (Scan.run f {} (h.int ++ (h.fracText ++ 0x70 :: rest))) = some (h.scan f, 0x70 :: rest) := by
  have hstop : ∀ st : Scan, st.run f (0x70 :: rest) = some (st, 0x70 :: rest) := by
    intro st
    rw [Scan.run, if_neg (by decide)]
    rfl
  have hinit : ({} : Scan) = Scan.of f false 0 0 0 0 := by simp [Scan.of]
  rw [hinit, run_digits h.int_digits (.inl ⟨rfl, rfl⟩) (by omega) (by simp)]
  rw [show h.int.map digitValue = h.intDigits from rfl, afterDigits_int]
  have hintlen : h.intDigits.length = h.int.length := List.length_map _
  have htake : (h.intDigits.take (h.keptInt f)).length = h.keptInt f := by
    rw [List.length_take, Nat.min_eq_left keptInt_le]
  have hk : nonzeros (h.intDigits.take (h.keptInt f)) ≤ _ := nonzeros_le
  have hle := keptInt_le (h := h) (f := f)
  unfold scan fracText
  cases hfrac : h.frac with
  | none =>
    have hno : h.fracDigits = [] := by simp [fracDigits, hfrac]
    simp only [List.nil_append, hstop]
    simp [significand, keptDigits, keptFrac, hno, keep]
  | some cs =>
    have hfraclen : h.fracText.length = cs.length + 1 := by simp [fracText, hfrac]
    have hdigits : h.fracDigits = cs.map digitValue := by simp [fracDigits, hfrac]
    simp only [List.cons_append, Scan.run, if_true]
    have hexp : |(if nonzeros (h.intDigits.take (h.keptInt f)) = 0 then 0
        else 4 * ((h.intDigits.length - h.keptInt f : Nat) : Int))| ≤ 4 * h.intDigits.length := by
      split_ifs
      · simp
      · rw [abs_of_nonneg] <;> omega
    rw [dot_of kept_int (by omega), Option.bind_eq_bind, Option.bind_some,
      run_digits (h.frac_digits cs hfrac) kept_int (by omega) (fun _ => by omega), ← hdigits, hstop]
    refine congrArg (fun st => some (st, 0x70 :: rest)) ?_
    simp only [nonzeros_eq_zero]
    show (if h.keptFrac f = 0 then _ else _) = _
    have hfrac := keptFrac_le (h := h) (f := f)
    by_cases hzero : h.keptFrac f = 0
    · rw [if_pos hzero]
      simp [significand, keptDigits, shift, hzero]
    · rw [if_neg hzero]
      show Scan.of f true (_ * 16 ^ (0 + h.keptFrac f) + value 16 (h.fracDigits.take (h.keptFrac f)))
        (_ + nonzeros (h.fracDigits.take (h.keptFrac f))) (h.fracDigits.length - h.keptFrac f)
        (_ - 4 * ((0 + h.keptFrac f : Nat) : Int)) = _
      simp only [significand, keptDigits, shift, value_append, nonzeros, List.countP_append,
        List.length_take, Nat.min_eq_left hfrac, Nat.zero_add]

end HexFloat

/-! ## The exponent -/

/-- The loop over the exponent reads the digits up to the first that takes it to `bound`. -/
def cut (bound : Int) : Nat → List Nat → Nat
  | e, [] => e
  | e, d :: ds => if ((e * 10 + d : Nat) : Int) ≥ bound then e * 10 + d else cut bound (e * 10 + d) ds

theorem parseDigit_of {c : UInt8} (hc : IsDigit c) :
    parseDigit c = some (digitValue c) ∧ digitValue c < 10 ∧ c ≠ 0x2d ∧ c ≠ 0x2b := by
  unfold IsDigit parseDigit at hc
  split_ifs at hc with hw
  · have hvalue : digitValue c = c.toNat - 0x30 := by
      rw [digitValue, hexdigit, if_pos hw, Option.getD_some]
    refine ⟨by rw [parseDigit, if_pos hw, hvalue], ?_, ?_, ?_⟩
    · have := hw.2
      omega
    · rintro rfl
      exact absurd hw (by decide)
    · rintro rfl
      exact absurd hw (by decide)
  · cases hc

theorem maxExp_le : f.maxExp ≤ 1024 := by
  have hpow : 2 ^ (f.signShift - f.sigBits - 1) ≤ 2 ^ 10 :=
    Nat.pow_le_pow_right (by decide) (by have := f.bits_le; unfold Format.signShift; omega)
  unfold Format.maxExp Format.expBias
  omega

theorem scanExponent_of {add : Int} (hadd : |add| ≤ 2 ^ 27) {cs : List UInt8} {e : Nat}
    (hcs : ∀ c ∈ cs, IsDigit c) (he : (e : Int) < 2 ^ 27 + 1024) :
    f.scanExponent add e cs = some (cut (f.maxExp - add) e (cs.map digitValue) : Int) := by
  obtain ⟨hlo, hhi⟩ := abs_le.mp hadd
  induction cs generalizing e with
  | nil => rfl
  | cons c cs ih =>
    obtain ⟨hdigit, hlt, -⟩ := parseDigit_of (hcs c List.mem_cons_self)
    have he' : int ((e : Int) * 10 + digitValue c) = some ((e * 10 + digitValue c : Nat) : Int) := by
      rw [int_of_lt (by rw [abs_of_nonneg] <;> omega)]
      push_cast
      rfl
    have hsum : int (((e * 10 + digitValue c : Nat) : Int) + add) =
        some (((e * 10 + digitValue c : Nat) : Int) + add) :=
      int_of_lt (by rw [abs_lt]; omega)
    have hmax := maxExp_le (f := f)
    rw [Format.scanExponent, hdigit, Option.bind_eq_bind, Option.bind_some, he', Option.bind_eq_bind,
      Option.bind_some, hsum, Option.bind_some, List.map_cons, cut]
    by_cases hcut : ((e * 10 + digitValue c : Nat) : Int) + add ≥ f.maxExp
    · rw [if_pos hcut, if_pos (by omega)]
    · rw [if_neg hcut, if_neg (by omega)]
      exact ih (fun c hc => hcs c (List.mem_cons_of_mem _ hc)) (by omega)

namespace HexFloat

variable (h : HexFloat)

/-- `significand_exponent_add`. -/
def exponentAdd (f : Format) : Int :=
  match h.expSign with
  | none => 0
  | some true => -h.shift f
  | some false => h.shift f

/-- The exponent that is read. -/
def exponentRead (f : Format) : Int :=
  if h.expSign = some true then -(cut (f.maxExp - h.exponentAdd f) 0 h.expDigits : Int)
  else cut (f.maxExp - h.exponentAdd f) 0 h.expDigits

variable {h}

theorem parseExponentSign_of {x : Int} (hx : |x| < 2 ^ 31) {s : List UInt8}
    (hs : ∀ c ∈ s.head?, c ≠ 0x2d ∧ c ≠ 0x2b) (sign : Option Bool) :
    Format.parseExponentSign x (signText sign ++ s) =
      some (decide (sign = some true), match sign with | none => 0 | some true => -x | some false => x, s) := by
  have hneg : Literal.int (-x) = some (-x) := int_of_lt (by rwa [abs_neg])
  match sign with
  | some true =>
    show (Literal.int (-x)).bind _ = _
    rw [hneg]
    rfl
  | some false => rfl
  | none =>
    show Format.parseExponentSign x s = _
    unfold Format.parseExponentSign
    split
    · exact absurd rfl (hs 0x2d rfl).1
    · exact absurd rfl (hs 0x2b rfl).2
    · rfl

theorem parseFloatSign_of {s : List UInt8} (hs : ∀ c ∈ s.head?, c ≠ 0x2d ∧ c ≠ 0x2b)
    (sign : Option Bool) : parseFloatSign (signText sign ++ s) = (decide (sign = some true), s) := by
  match sign with
  | some true => rfl
  | some false => rfl
  | none =>
    show parseFloatSign s = _
    unfold parseFloatSign
    split
    · exact absurd rfl (hs 0x2d rfl).1
    · exact absurd rfl (hs 0x2b rfl).2
    · rfl

theorem abs_shift_le : |h.shift f| ≤ 4 * (h.intDigits.length + h.fracDigits.length) := by
  have hfrac := keptFrac_le (h := h) (f := f)
  unfold shift
  rw [abs_le]
  split_ifs <;> omega

theorem significand_scan : (h.scan f).significand = h.significand f % 2 ^ f.bits := by
  unfold scan
  split <;> rfl

theorem finalExponent_of (hlen : (h.int.length : Int) < 2 ^ 25) :
    ∃ x, (h.scan f).finalExponent = some x ∧
      (h.significand f % 2 ^ f.bits ≠ 0 → x = h.shift f) := by
  have hint : h.intDigits.length = h.int.length := List.length_map _
  unfold scan
  cases hfrac : h.frac with
  | some cs => exact ⟨h.shift f, rfl, fun _ => rfl⟩
  | none =>
    have hno : h.keptFrac f = 0 := by simp [keptFrac, fracDigits, hfrac, keep]
    refine ⟨4 * ((h.intDigits.length - h.keptInt f : Nat) : Int), ?_, ?_⟩
    · simp only [Scan.finalExponent, Scan.of, Bool.false_eq_true, if_false]
      rw [zero_add, int_of_lt (by rw [abs_of_nonneg] <;> omega)]
    · intro hsig
      have hkept : h.keptInt f ≠ 0 := by
        intro hzero
        exact hsig (by simp [significand, keptDigits, hzero, hno])
      rw [shift, if_neg hkept, hno]
      simp

theorem cut_lt {bound e : Int} (he : bound ≤ e) {ds : List Nat} {n : Nat} (hn : (n : Int) < e)
    (hds : ∀ d ∈ ds, d < 10) : (cut bound n ds : Int) < 10 * e + 10 := by
  induction ds generalizing n with
  | nil =>
    rw [cut]
    omega
  | cons d ds ih =>
    have hd := hds d List.mem_cons_self
    rw [cut]
    split_ifs with hcut
    · omega
    · exact ih (by omega) fun d' hd' => hds d' (List.mem_cons_of_mem _ hd')

theorem expDigits_lt : ∀ d ∈ h.expDigits, d < 10 := by
  intro d hd
  obtain ⟨c, hc, rfl⟩ := List.mem_map.mp hd
  exact (parseDigit_of (h.exp_digits c hc)).2.1

theorem abs_exponentRead_lt (hshift : |h.shift f| ≤ 2 ^ 27) : |h.exponentRead f| < 2 ^ 30 + 2 ^ 29 := by
  obtain ⟨hlo, hhi⟩ := abs_le.mp hshift
  have hmax := maxExp_le (f := f)
  have hadd : -2 ^ 27 ≤ h.exponentAdd f := by
    unfold exponentAdd
    split <;> omega
  have hcut := cut_lt (n := 0) (show f.maxExp - h.exponentAdd f ≤ 2 ^ 27 + 1024 by omega) (by norm_num)
    (expDigits_lt (h := h))
  unfold exponentRead
  split_ifs
  · rw [abs_neg, abs_of_nonneg (by omega)]
    omega
  · rw [abs_of_nonneg (by omega)]
    omega

theorem parseHexExponent_of (isNeg : Bool) {m : Nat} (hm : m ≠ 0) (hshift : |h.shift f| ≤ 2 ^ 27) :
    f.parseHexExponent isNeg m (h.shift f) (signText h.expSign ++ h.exp) =
      f.round isNeg m (h.exponentRead f + (h.shift f + ((f.bits - f.clz m : Nat) : Int) - 1)) := by
  have hne : signText h.expSign ++ h.exp ≠ [] := by simp [h.exp_ne]
  have hhead : ∀ c ∈ h.exp.head?, c ≠ 0x2d ∧ c ≠ 0x2b := fun c hc =>
    (parseDigit_of (h.exp_digits c (List.mem_of_mem_head? hc))).2.2
  obtain ⟨hlo, hhi⟩ := abs_le.mp hshift
  have hadd : |h.exponentAdd f| ≤ 2 ^ 27 := by
    unfold exponentAdd
    split
    · simp
    · rwa [abs_neg]
    · exact hshift
  have hbits : f.bits ≤ 64 := le_trans f.bits_le (by have := f.sigBits_le; omega)
  obtain ⟨helo, hehi⟩ := abs_lt.mp (abs_exponentRead_lt hshift)
  have hsum : Literal.int (h.shift f + ((f.bits - f.clz m : Nat) : Int)) =
      some (h.shift f + ((f.bits - f.clz m : Nat) : Int)) :=
    int_of_lt (abs_lt.mpr (by omega))
  have hexponent : Literal.int (h.exponentRead f + (h.shift f + ((f.bits - f.clz m : Nat) : Int) - 1)) =
      some (h.exponentRead f + (h.shift f + ((f.bits - f.clz m : Nat) : Int) - 1)) :=
    int_of_lt (abs_lt.mpr (by omega))
  rw [Format.parseHexExponent, if_neg hm, if_neg hne,
    parseExponentSign_of (abs_lt.mpr (by omega)) hhead, Option.bind_eq_bind, Option.bind_some]
  show (f.scanExponent (h.exponentAdd f) 0 h.exp).bind _ = _
  rw [show (0 : Int) = ((0 : Nat) : Int) from rfl, scanExponent_of hadd h.exp_digits (by norm_num),
    Option.bind_some]
  simp only [hsum, Option.bind_eq_bind, Option.bind_some]
  have hread : (if decide (h.expSign = some true) = true then
      -(cut (f.maxExp - h.exponentAdd f) 0 (h.exp.map digitValue) : Int)
      else cut (f.maxExp - h.exponentAdd f) 0 (h.exp.map digitValue)) = h.exponentRead f := by
    simp only [exponentRead, decide_eq_true_eq]
    rfl
  rw [hread, hexponent, Option.bind_some]

/-- `parse_float_hex` on a token: it goes by the digits that are kept and the exponent that is
read. -/
theorem parseHex_text (hlen : (h.text.length : Int) < 2 ^ 25) :
    f.parseHex h.text =
      if h.significand f % 2 ^ f.bits = 0 then f.make h.isNeg f.minExp 0
      else f.round h.isNeg (h.significand f % 2 ^ f.bits) (h.exponentRead f + (h.shift f +
        ((f.bits - f.clz (h.significand f % 2 ^ f.bits) : Nat) : Int) - 1)) := by
  have hlens : (h.int.length + h.fracText.length + h.exp.length : Int) < 2 ^ 25 := by
    simp only [text, List.length_append, List.length_cons] at hlen
    omega
  have hhex : ∀ c ∈ (zeroX ++ (h.int ++ (h.fracText ++ 0x70 :: (signText h.expSign ++ h.exp)))).head?,
      c ≠ 0x2d ∧ c ≠ 0x2b := by
    intro c hc
    cases hc
    exact ⟨by decide, by decide⟩
  have hshift : |h.shift f| ≤ 2 ^ 27 := by
    have hle := abs_shift_le (h := h) (f := f)
    have hint : h.intDigits.length = h.int.length := List.length_map _
    have hfrac : h.fracDigits.length ≤ h.fracText.length := by
      unfold fracDigits fracText
      cases h.frac <;> simp
    omega
  obtain ⟨x, hx, hxshift⟩ := finalExponent_of (f := f) (h := h) (by omega)
  unfold Format.parseHex text
  rw [parseFloatSign_of hhex]
  simp only []
  rw [if_pos (show zeroX.isPrefixOf (zeroX ++ _) = true from rfl)]
  rw [show (zeroX ++ (h.int ++ (h.fracText ++ 0x70 :: (signText h.expSign ++ h.exp)))).drop 2 =
    h.int ++ (h.fracText ++ 0x70 :: (signText h.expSign ++ h.exp)) from rfl]
  rw [run_significand (by omega), Option.bind_eq_bind, Option.bind_some]
  simp only []
  rw [hx, Option.bind_eq_bind, Option.bind_some]
  simp only [significand_scan]
  by_cases hm : h.significand f % 2 ^ f.bits = 0
  · rw [if_pos hm, hm]
    rfl
  · rw [if_neg hm, hxshift hm, parseHexExponent_of _ hm hshift]
    rfl

end HexFloat

end Literal

end SexprWasm
