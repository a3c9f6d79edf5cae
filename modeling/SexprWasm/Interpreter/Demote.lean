import SexprWasm.Interpreter.IntegerOps
import SexprWasm.Interpreter.FloatValue

/-!
# Demoting a `double`

The cast is only applied to what is not larger than `F32_MAX`; it is
assumed to round correctly there. `demote` treats what is larger by its
bits: the numbers up to halfway to the next, which round down, and all
the others, which become infinities or quiet NaNs.
-/

namespace SexprWasm

namespace Interpreter

open Literal

variable {value r b : Nat}

/-- The float nearest to a finite `double`. -/
structure RoundsTo (value r : Nat) : Prop where
  lt : r < 2 ^ 32
  sign : FloatType.f32.neg r = FloatType.f64.neg value
  nearest : Literal.f32.Nearest (FloatType.f64.magnitude (FloatType.f64.mag value))
    (FloatType.f32.mag r)

/-- A quiet NaN with the sign and the first bits of the fraction of a NaN. -/
structure QuietNanOf (value r : Nat) : Prop where
  lt : r < 2 ^ 32
  sign : FloatType.f32.neg r = FloatType.f64.neg value
  exponent : ∀ i, 23 ≤ i → i < 31 → r.testBit i = true
  quiet : r.testBit 22 = true
  payload : ∀ i < 22, r.testBit i = value.testBit (i + 29)

/-- What is to become of a `double`. -/
structure Demoted (value r : Nat) : Prop where
  finite : FloatType.f64.mag value < FloatType.f64.inf → RoundsTo value r
  infinite : FloatType.f64.mag value = FloatType.f64.inf →
    r = if FloatType.f64.neg value then FloatType.f32.negInf else FloatType.f32.inf
  nan : FloatType.f64.inf < FloatType.f64.mag value → QuietNanOf value r

/-- Halfway from `F32_MAX` to what would be the next number. -/
def demoteTie : ℚ := (FloatType.f32.magnitude f32Max + FloatType.f32.magnitude FloatType.f32.inf) / 2

/-- The branches of `WASM_OPCODE_F32_DEMOTE_F64`. -/
inductive DemoteBranch
  | cast | f32Max | negF32Max | special
  deriving DecidableEq

/-- The tests for the branches; the last is for what is left, and what it is meant for. -/
def DemoteBranch.Applies : DemoteBranch → Nat → Prop
  | .cast, value => isInRangeF64DemoteF32 value = true
  | .f32Max, value => isInRangeF64DemoteF32RoundToF32Max value = true
  | .negF32Max, value => isInRangeF64DemoteF32RoundToNegF32Max value = true
  | .special, value => FloatType.f64.inf ≤ FloatType.f64.mag value ∨
      demoteTie ≤ FloatType.f64.magnitude (FloatType.f64.mag value)

/-! ## The bounds -/

theorem magnitude_f32Max : FloatType.f32.magnitude f32Max = (2 ^ 24 - 1) * 2 ^ 104 := by
  have h := Nearest.magnitude_block (S := 23) (u := -149) (e := 253) (q := 2 ^ 24 - 1)
    (.inr (by decide)) (by decide)
  refine Eq.trans h ?_
  norm_num

theorem magnitude_f32Inf : FloatType.f32.magnitude FloatType.f32.inf = 2 ^ 128 := by
  have h := Nearest.magnitude_block (S := 23) (u := -149) (e := 254) (q := 2 ^ 23)
    (.inr le_rfl) (by decide)
  refine Eq.trans h ?_
  norm_num

/-- `F32_MAX` as a `double`. -/
theorem magnitude_f64_f32Max :
    FloatType.f64.magnitude 0x47efffffe0000000 = FloatType.f32.magnitude f32Max := by
  have h := Nearest.magnitude_block (S := 52) (u := -1074) (e := 1149) (q := (2 ^ 24 - 1) * 2 ^ 29)
    (.inr (by decide)) (by decide)
  rw [magnitude_f32Max]
  refine Eq.trans h ?_
  norm_num

/-- The first `double` that rounds to an infinity. -/
theorem magnitude_f64_tie : FloatType.f64.magnitude 0x47effffff0000000 = demoteTie := by
  have h := Nearest.magnitude_block (S := 52) (u := -1074) (e := 1149) (q := (2 ^ 25 - 1) * 2 ^ 28)
    (.inr (by decide)) (by decide)
  rw [demoteTie, magnitude_f32Max, magnitude_f32Inf]
  refine Eq.trans h ?_
  norm_num

/-! ## The branches -/

/-- The `double`s that are below `F64_NEG_ZERO` and those that are not. -/
theorem sign_cases (h : value < 2 ^ 64) :
    (FloatType.f64.neg value = false ∧ value = FloatType.f64.mag value ∧ value < 2 ^ 63) ∨
    (FloatType.f64.neg value = true ∧ value = 2 ^ 63 + FloatType.f64.mag value) := by
  have hlt : value < 2 ^ FloatType.f64.format.bits := h
  have hsplit := FloatType.split hlt
  have hmag := FloatType.mag_lt .f64 value
  rw [FloatType.negZero] at hsplit hmag
  cases hneg : FloatType.f64.neg value with
  | false =>
    rw [hneg, Bool.toNat_false] at hsplit
    exact .inl ⟨rfl, by omega, by omega⟩
  | true =>
    rw [hneg, Bool.toNat_true] at hsplit
    exact .inr ⟨rfl, by omega⟩

theorem cast_applies_iff (h : value < 2 ^ 64) :
    DemoteBranch.cast.Applies value ↔ FloatType.f64.mag value ≤ 0x47efffffe0000000 := by
  rw [DemoteBranch.Applies, isInRangeF64DemoteF32, decide_eq_true_iff, FloatType.negZero]
  rcases sign_cases h with ⟨-, heq, hlt⟩ | ⟨-, heq⟩
  · omega
  · omega

theorem f32Max_applies_iff (h : value < 2 ^ 64) :
    DemoteBranch.f32Max.Applies value ↔ FloatType.f64.neg value = false ∧
      0x47efffffe0000000 < FloatType.f64.mag value ∧
      FloatType.f64.mag value < 0x47effffff0000000 := by
  rw [DemoteBranch.Applies, isInRangeF64DemoteF32RoundToF32Max, decide_eq_true_iff]
  rcases sign_cases h with ⟨hneg, heq, hlt⟩ | ⟨hneg, heq⟩
  · rw [← heq, eq_true hneg, true_and]
  · rw [hneg]
    simp only [Bool.true_eq_false, false_and, iff_false]
    omega

theorem negF32Max_applies_iff (h : value < 2 ^ 64) :
    DemoteBranch.negF32Max.Applies value ↔ FloatType.f64.neg value = true ∧
      0x47efffffe0000000 < FloatType.f64.mag value ∧
      FloatType.f64.mag value < 0x47effffff0000000 := by
  rw [DemoteBranch.Applies, isInRangeF64DemoteF32RoundToNegF32Max, decide_eq_true_iff]
  rcases sign_cases h with ⟨hneg, heq, hlt⟩ | ⟨hneg, heq⟩
  · rw [hneg]
    simp only [Bool.false_eq_true, false_and, iff_false]
    omega
  · rw [eq_true hneg, true_and]
    omega

theorem special_applies_iff :
    DemoteBranch.special.Applies value ↔ 0x47effffff0000000 ≤ FloatType.f64.mag value := by
  rw [DemoteBranch.Applies, ← magnitude_f64_tie, (FloatType.magnitude_strictMono _).le_iff_le,
    FloatType.inf]
  omega

/-- Exactly one of the branches applies. -/
theorem existsUnique_branch (h : value < 2 ^ 64) : ∃! branch : DemoteBranch, branch.Applies value := by
  have hcast := cast_applies_iff h
  have hmax := f32Max_applies_iff h
  have hneg := negF32Max_applies_iff h
  have hspecial : DemoteBranch.special.Applies value ↔ _ := special_applies_iff
  have hunique : ∀ branch : DemoteBranch, branch.Applies value →
      (∀ other : DemoteBranch, other.Applies value → other = branch) →
      ∃! branch : DemoteBranch, branch.Applies value := fun branch h h' => ⟨branch, h, h'⟩
  rcases Nat.lt_or_ge 0x47efffffe0000000 (FloatType.f64.mag value) with hlo | hlo
  · rcases Nat.lt_or_ge (FloatType.f64.mag value) 0x47effffff0000000 with hhi | hhi
    · cases hsign : FloatType.f64.neg value with
      | false =>
        refine hunique .f32Max (hmax.mpr ⟨hsign, hlo, hhi⟩) fun other hother => ?_
        cases other with
        | cast => exact absurd (hcast.mp hother) (by omega)
        | f32Max => rfl
        | negF32Max => exact absurd (hneg.mp hother).1 (by simp [hsign])
        | special => exact absurd (hspecial.mp hother) (by omega)
      | true =>
        refine hunique .negF32Max (hneg.mpr ⟨hsign, hlo, hhi⟩) fun other hother => ?_
        cases other with
        | cast => exact absurd (hcast.mp hother) (by omega)
        | f32Max => exact absurd (hmax.mp hother).1 (by simp [hsign])
        | negF32Max => rfl
        | special => exact absurd (hspecial.mp hother) (by omega)
    · refine hunique .special (hspecial.mpr hhi) fun other hother => ?_
      cases other with
      | cast => exact absurd (hcast.mp hother) (by omega)
      | f32Max => exact absurd (hmax.mp hother).2.2 (by omega)
      | negF32Max => exact absurd (hneg.mp hother).2.2 (by omega)
      | special => rfl
  · refine hunique .cast (hcast.mpr hlo) fun other hother => ?_
    cases other with
    | cast => rfl
    | f32Max => exact absurd (hmax.mp hother).2.1 (by omega)
    | negF32Max => exact absurd (hneg.mp hother).2.1 (by omega)
    | special => exact absurd (hspecial.mp hother) (by omega)

/-! ## What the branches give -/

theorem roundsTo_max (hlo : 0x47efffffe0000000 < FloatType.f64.mag value)
    (hhi : FloatType.f64.mag value < 0x47effffff0000000) :
    Literal.f32.Nearest (FloatType.f64.magnitude (FloatType.f64.mag value)) f32Max := by
  have hmax := (FloatType.magnitude_strictMono .f64) hlo
  have htie := (FloatType.magnitude_strictMono .f64) hhi
  rw [magnitude_f64_f32Max] at hmax
  rw [magnitude_f64_tie, demoteTie] at htie
  have hinf : FloatType.f32.magnitude f32Max < FloatType.f32.magnitude FloatType.f32.inf :=
    FloatType.magnitude_strictMono _ (by decide)
  apply Nearest.isNearest_low (b := f32Max)
  · exact hmax.le
  · change _ ≤ FloatType.f32.magnitude FloatType.f32.inf
    linarith
  · decide
  · left
    change _ - FloatType.f32.magnitude f32Max < FloatType.f32.magnitude FloatType.f32.inf - _
    linarith

theorem roundsTo_inf (hlo : 0x47effffff0000000 ≤ FloatType.f64.mag value) :
    Literal.f32.Nearest (FloatType.f64.magnitude (FloatType.f64.mag value)) FloatType.f32.inf := by
  have htie := (FloatType.magnitude_strictMono .f64).monotone hlo
  rw [magnitude_f64_tie, demoteTie] at htie
  have hinf : FloatType.f32.magnitude f32Max < FloatType.f32.magnitude FloatType.f32.inf :=
    FloatType.magnitude_strictMono _ (by decide)
  rcases le_or_gt (FloatType.f32.magnitude FloatType.f32.inf)
    (FloatType.f64.magnitude (FloatType.f64.mag value)) with htop | htop
  · exact (Nearest.isNearest_top htop).mpr rfl
  · apply Nearest.isNearest_high (b := f32Max)
    · change FloatType.f32.magnitude f32Max ≤ _
      linarith
    · exact htop.le
    · decide
    · rcases lt_or_eq_of_le htie with hlt | heq
      · left
        change FloatType.f32.magnitude FloatType.f32.inf - _ < _ - FloatType.f32.magnitude f32Max
        linarith
      · right
        refine ⟨?_, by decide⟩
        change FloatType.f32.magnitude FloatType.f32.inf - _ = _ - FloatType.f32.magnitude f32Max
        linarith

/-- The sign of a `double` and the pattern of a float. -/
theorem sign_or (value : Nat) (hb : b < 2 ^ 31) :
    (value >>> 32 &&& FloatType.f32.signMask ||| b) < 2 ^ 32 ∧
      FloatType.f32.neg (value >>> 32 &&& FloatType.f32.signMask ||| b) = FloatType.f64.neg value ∧
      FloatType.f32.mag (value >>> 32 &&& FloatType.f32.signMask ||| b) = b := by
  have hmask : FloatType.f32.signMask = 2 ^ 31 := rfl
  rw [hmask]
  refine ⟨?_, ?_, ?_⟩
  · exact Nat.or_lt_two_pow (Nat.and_lt_two_pow _ (by decide)) (hb.trans (by decide))
  · change Nat.testBit _ 31 = Nat.testBit _ 63
    rw [Nat.testBit_or, Nat.testBit_and, Nat.testBit_two_pow_self, Nat.testBit_shiftRight,
      Nat.testBit_lt_two_pow hb, Bool.and_true, Bool.or_false]
  · change (_ ||| _) % 2 ^ 31 = b
    rw [Nat.or_mod_two_pow, Nat.and_mod_two_pow, Nat.mod_self, Nat.and_zero, Nat.zero_or,
      Nat.mod_eq_of_lt hb]

theorem quietNan_special {tag : Nat}
    (htag : tag = FloatType.f32.quietNanBit ||| (value >>> 29 &&& f32SigMask)) :
    QuietNanOf value (value >>> 32 &&& FloatType.f32.signMask ||| (FloatType.f32.inf ||| tag)) := by
  have hmask : f32SigMask = 2 ^ 23 - 1 := rfl
  have htag_lt : tag < 2 ^ 31 := by
    rw [htag, hmask, Nat.and_two_pow_sub_one_eq_mod]
    exact Nat.or_lt_two_pow (by decide) ((Nat.mod_lt _ (by decide)).trans (by decide))
  obtain ⟨hlt, hneg, hmag⟩ := sign_or value
    (Nat.or_lt_two_pow (x := FloatType.f32.inf) (by decide) htag_lt)
  -- the bits of the pattern
  have hbit : ∀ i < 31, Nat.testBit
      (value >>> 32 &&& FloatType.f32.signMask ||| (FloatType.f32.inf ||| tag)) i =
        (FloatType.f32.inf.testBit i || tag.testBit i) := by
    intro i hi
    have hmod := congrArg (Nat.testBit · i) hmag
    change Nat.testBit (_ % 2 ^ 31) i = _ at hmod
    rw [Nat.testBit_mod_two_pow, Nat.testBit_or FloatType.f32.inf] at hmod
    simpa [hi] using hmod
  refine ⟨hlt, hneg, fun i hlo hhi => ?_, ?_, fun i hi => ?_⟩
  · have hexp : ∀ i < 31, 23 ≤ i → FloatType.f32.inf.testBit i = true := by decide
    rw [hbit i hhi, hexp i hhi hlo, Bool.true_or]
  · have hquiet : FloatType.f32.quietNanBit.testBit 22 = true := by decide
    rw [hbit 22 (by decide), htag, Nat.testBit_or, hquiet, Bool.true_or, Bool.or_true]
  · have hinf : ∀ i < 22, FloatType.f32.inf.testBit i = false := by decide
    have hquiet : ∀ i < 22, FloatType.f32.quietNanBit.testBit i = false := by decide
    rw [hbit i (by omega), hinf i hi, htag, Nat.testBit_or, hquiet i hi, Nat.testBit_and, hmask,
      Nat.testBit_two_pow_sub_one, Nat.testBit_shiftRight, decide_eq_true (by omega), Bool.and_true,
      Bool.false_or, Bool.false_or, Nat.add_comm]

theorem demote_special (p : Platform) (h : value < 2 ^ 64)
    (hspecial : 0x47effffff0000000 ≤ FloatType.f64.mag value) :
    Machine.demote p value = value >>> 32 &&& FloatType.f32.signMask ||| (FloatType.f32.inf |||
      if FloatType.f64.inf < FloatType.f64.mag value then
        FloatType.f32.quietNanBit ||| (value >>> 29 &&& f32SigMask) else 0) := by
  have hcast : ¬ isInRangeF64DemoteF32 value = true := fun happlies =>
    absurd ((cast_applies_iff h).mp happlies) (by omega)
  have hmax : ¬ isInRangeF64DemoteF32RoundToF32Max value = true := fun happlies =>
    absurd ((f32Max_applies_iff h).mp happlies).2.2 (by omega)
  have hneg : ¬ isInRangeF64DemoteF32RoundToNegF32Max value = true := fun happlies =>
    absurd ((negF32Max_applies_iff h).mp happlies).2.2 (by omega)
  rw [Machine.demote, if_neg hcast, if_neg hmax, if_neg hneg, Nat.or_assoc]
  simp only [FloatType.isNan_iff (t := .f64) h]

theorem demoted (p : Platform) (h : value < 2 ^ 64)
    (hround : DemoteBranch.cast.Applies value → RoundsTo value (p.fpu.demote value)) :
    Demoted value (Machine.demote p value) := by
  have hinf : FloatType.f64.inf = 0x7ff0000000000000 := rfl
  rcases Nat.lt_or_ge 0x47efffffe0000000 (FloatType.f64.mag value) with hlo | hlo
  · rcases Nat.lt_or_ge (FloatType.f64.mag value) 0x47effffff0000000 with hhi | hhi
    · have hrounds : RoundsTo value (Machine.demote p value) := by
        have hcast : ¬ isInRangeF64DemoteF32 value = true := fun happlies =>
          absurd ((cast_applies_iff h).mp happlies) (by omega)
        cases hsign : FloatType.f64.neg value with
        | false =>
          have hmax : isInRangeF64DemoteF32RoundToF32Max value = true :=
            (f32Max_applies_iff h).mpr ⟨hsign, hlo, hhi⟩
          rw [Machine.demote, if_neg hcast, if_pos hmax]
          exact ⟨by decide, hsign.symm, roundsTo_max hlo hhi⟩
        | true =>
          have hmax : ¬ isInRangeF64DemoteF32RoundToF32Max value = true := fun happlies => by
            rw [((f32Max_applies_iff h).mp happlies).1] at hsign
            cases hsign
          have hneg : isInRangeF64DemoteF32RoundToNegF32Max value = true :=
            (negF32Max_applies_iff h).mpr ⟨hsign, hlo, hhi⟩
          rw [Machine.demote, if_neg hcast, if_neg hmax, if_pos hneg]
          exact ⟨by decide, hsign.symm, roundsTo_max hlo hhi⟩
      exact ⟨fun _ => hrounds, by omega, by omega⟩
    · rw [demote_special p h hhi]
      refine ⟨fun hfinite => ?_, fun hinfinite => ?_, fun hnan => ?_⟩
      · rw [if_neg (by omega), Nat.or_zero]
        obtain ⟨hlt, hneg, hmag⟩ := sign_or value (b := FloatType.f32.inf) (by decide)
        exact ⟨hlt, hneg, hmag.symm ▸ roundsTo_inf hhi⟩
      · rw [if_neg (by omega), Nat.or_zero]
        obtain ⟨hlt, hneg, hmag⟩ := sign_or value (b := FloatType.f32.inf) (by decide)
        rw [FloatType.split (t := .f32) hlt, hneg, hmag]
        cases FloatType.f64.neg value <;> rfl
      · rw [if_pos hnan]
        exact quietNan_special rfl
  · have hcast := (cast_applies_iff h).mpr hlo
    have hrounds : RoundsTo value (Machine.demote p value) := by
      rw [DemoteBranch.Applies] at hcast
      rw [Machine.demote, if_pos hcast]
      exact hround hcast
    exact ⟨fun _ => hrounds, by omega, by omega⟩

theorem Demoted.lt (h : Demoted value r) : r < 2 ^ 32 := by
  rcases Nat.lt_trichotomy (FloatType.f64.mag value) FloatType.f64.inf with hlt | heq | hgt
  · exact (h.finite hlt).lt
  · rw [h.infinite heq]
    split <;> decide
  · exact (h.nan hgt).lt

namespace Machine

theorem execute_demote (p : Platform) (top : Nat) {m : Machine} {vs : List Nat} {a : Nat}
    (h : m.Holds (vs ++ [a]))
    (hround : isInRangeF64DemoteF32 (a % 2 ^ 64) = true →
      RoundsTo (a % 2 ^ 64) (p.fpu.demote (a % 2 ^ 64))) :
    (∃ entry, execute p top .f32DemoteF64 m = .ok () (m.put vs.length entry) ∧
      Demoted (a % 2 ^ 64) (entry % 2 ^ 32)) ∧
    ∃! branch : DemoteBranch, branch.Applies (a % 2 ^ 64) := by
  have hlt : a % 2 ^ 64 < 2 ^ 64 := Nat.mod_lt _ (by decide)
  have hdemoted := demoted p hlt hround
  refine ⟨⟨_, unop_run h, ?_⟩, existsUnique_branch hlt⟩
  have hentry : ValueType.f32.overlay a (demote p (a % 2 ^ 64)) % 2 ^ 32 = _ :=
    ValueType.overlay_mod
  rw [Nat.mod_eq_of_lt hdemoted.lt] at hentry
  exact hentry.symm ▸ hdemoted

/-- A processor that rounds 1 correctly. -/
def onePlatform : Platform where
  realloc _ _ := none
  fpu := { Platform.null.fpu with demote := fun _ => 0x3f800000 }

theorem one_roundsTo : RoundsTo 0x3ff0000000000000 0x3f800000 := by
  refine ⟨by decide, by decide, ?_⟩
  have h32 : FloatType.f32.magnitude 0x3f800000 = 1 := by
    have h := Nearest.magnitude_block (S := 23) (u := -149) (e := 126) (q := 2 ^ 23) (.inr le_rfl)
      (by decide)
    refine Eq.trans h ?_
    norm_num
  have h64 : FloatType.f64.magnitude 0x3ff0000000000000 = 1 := by
    have h := Nearest.magnitude_block (S := 52) (u := -1074) (e := 1022) (q := 2 ^ 52)
      (.inr le_rfl) (by decide)
    refine Eq.trans h ?_
    norm_num
  change Literal.f32.Nearest (FloatType.f64.magnitude 0x3ff0000000000000) 0x3f800000
  rw [h64, ← h32]
  exact (Nearest.isNearest_magnitude (by decide)).mpr rfl

theorem execute_demote_one :
    (∃ entry, execute onePlatform 0 .f32DemoteF64 (ofStack [0x3ff0000000000000]) =
      .ok () ((ofStack [0x3ff0000000000000]).put 0 entry) ∧
      Demoted 0x3ff0000000000000 (entry % 2 ^ 32)) ∧
    ∃! branch : DemoteBranch, branch.Applies 0x3ff0000000000000 := by
  have h : (ofStack [0x3ff0000000000000]).Holds ([] ++ [0x3ff0000000000000]) := ofStack_holds _
  exact execute_demote onePlatform 0 h fun _ => one_roundsTo

end Machine

end Interpreter

end SexprWasm
