import SexprWasm.Interpreter.FloatBits
import SexprWasm.Literal.FloatNearest
import Mathlib.Data.Int.ConditionallyCompleteOrder
import Mathlib.Order.Monotone.Odd

/-!
# The numbers floats stand for

A float is a sign and a pattern (`neg`, `mag`), and the number of a
finite one is that of its pattern with the sign (`toRat`). The constants
of `interpreter.c` split the bits where the sign or the kind of number
changes; a bound on the number is one on the pattern (`Bound`), and the
order of the numbers, with the infinities around them (`toExtended`), is
that of `orderKey`.
-/

namespace SexprWasm

namespace Interpreter

open Literal Nearest

namespace FloatType

variable {t : FloatType} {bits b c : Nat}

/-- The sign. -/
def neg (t : FloatType) (bits : Nat) : Bool := bits.testBit t.format.signShift

/-- The pattern without the sign. -/
def mag (t : FloatType) (bits : Nat) : Nat := bits % 2 ^ t.format.signShift

/-- The number a pattern stands for. -/
def magnitude (t : FloatType) (b : Nat) : ℚ := Nearest.magnitude t.format.sigBits t.format.unit b

/-- The number a finite float stands for. -/
def toRat (t : FloatType) (bits : Nat) : ℚ :=
  if t.neg bits then -t.magnitude (t.mag bits) else t.magnitude (t.mag bits)

theorem magnitude_strictMono (t : FloatType) : StrictMono t.magnitude :=
  Nearest.magnitude_strictMono _ _

theorem magnitude_zero : t.magnitude 0 = 0 := by simp [magnitude, Nearest.magnitude]

theorem magnitude_nonneg : 0 ≤ t.magnitude b :=
  magnitude_zero.symm.trans_le ((magnitude_strictMono t).monotone (Nat.zero_le b))

/-! ## The sign and the pattern -/

theorem inf_eq : t.inf = t.format.infinityBits := by cases t <;> rfl

theorem negZero_eq : t.negZero = 2 ^ t.format.signShift := by cases t <;> rfl

theorem bits_eq : t.format.bits = t.format.signShift + 1 := by cases t <;> rfl

theorem negInf_eq : t.negInf = t.negZero + t.inf := by cases t <;> rfl

theorem inf_lt : t.inf < t.negZero := by cases t <;> decide

theorem mag_lt (t : FloatType) (bits : Nat) : t.mag bits < t.negZero := by
  rw [negZero_eq]
  exact Nat.mod_lt _ (Nat.two_pow_pos _)

/-- A float is its pattern, and the sign above. -/
theorem split (h : bits < 2 ^ t.format.bits) :
    bits = (t.neg bits).toNat * t.negZero + t.mag bits := by
  have hdiv : bits / 2 ^ t.format.signShift < 2 := by
    rwa [Nat.div_lt_iff_lt_mul (Nat.two_pow_pos _), ← pow_succ', ← bits_eq]
  have hbit : (t.neg bits).toNat = bits / 2 ^ t.format.signShift := by
    rw [neg, Nat.toNat_testBit, Nat.mod_eq_of_lt hdiv]
  rw [hbit, negZero_eq, mag, Nat.mul_comm]
  exact (Nat.div_add_mod _ _).symm

theorem neg_iff (h : bits < 2 ^ t.format.bits) : t.neg bits = true ↔ t.negZero ≤ bits := by
  have hsplit := split h
  have hmag := mag_lt t bits
  cases hneg : t.neg bits with
  | false =>
    rw [hneg, Bool.toNat_false, Nat.zero_mul, Nat.zero_add] at hsplit
    simp only [Bool.false_eq_true, false_iff]
    omega
  | true =>
    rw [hneg, Bool.toNat_true, Nat.one_mul] at hsplit
    simp only [true_iff]
    omega

theorem isNan_iff (h : bits < 2 ^ t.format.bits) : t.isNan bits = true ↔ t.inf < t.mag bits := by
  have hsplit := split h
  have hmag := mag_lt t bits
  have hinf := inf_lt (t := t)
  rw [isNan, decide_eq_true_iff, negInf_eq]
  cases hneg : t.neg bits with
  | false =>
    rw [hneg, Bool.toNat_false, Nat.zero_mul, Nat.zero_add] at hsplit
    omega
  | true =>
    rw [hneg, Bool.toNat_true, Nat.one_mul] at hsplit
    omega

/-! ## The order of the numbers -/

/-- What a pattern stands for, or one with a minus sign. -/
def signedMagnitude (t : FloatType) (k : Int) : ℚ :=
  if k < 0 then -t.magnitude (-k).toNat else t.magnitude k.toNat

theorem signedMagnitude_strictMono (t : FloatType) : StrictMono t.signedMagnitude := by
  apply strictMono_of_odd_strictMonoOn_nonneg
  · intro k
    rcases Int.lt_trichotomy k 0 with hneg | rfl | hpos
    · rw [signedMagnitude, signedMagnitude, if_pos hneg, if_neg (by omega), neg_neg]
    · simp [signedMagnitude, magnitude_zero]
    · rw [signedMagnitude, signedMagnitude, if_pos (by omega), if_neg (by omega), neg_neg]
  · intro k hk l hl hlt
    rw [Set.mem_Ici] at hk hl
    rw [signedMagnitude, signedMagnitude, if_neg (by omega), if_neg (by omega)]
    exact magnitude_strictMono t (by omega)

theorem orderKey_eq (t : FloatType) (bits : Nat) :
    orderKey t.format bits = if t.neg bits then -(t.mag bits : Int) else t.mag bits := rfl

theorem toRat_eq_signedMagnitude : t.toRat bits = t.signedMagnitude (orderKey t.format bits) := by
  rw [orderKey_eq, toRat, signedMagnitude]
  cases t.neg bits with
  | false => simp
  | true =>
    rw [if_pos rfl, if_pos rfl, neg_neg, Int.toNat_natCast]
    split
    · rfl
    · have hzero : t.mag bits = 0 := by omega
      simp [hzero, magnitude_zero]

/-- The number, or an infinity. -/
def toExtended (t : FloatType) (bits : Nat) : WithBot (WithTop ℚ) :=
  if t.mag bits < t.inf then ((t.toRat bits : WithTop ℚ) : WithBot (WithTop ℚ))
  else if t.neg bits then ⊥ else ((⊤ : WithTop ℚ) : WithBot (WithTop ℚ))

theorem inf_pos (t : FloatType) : 0 < t.inf := by cases t <;> decide

theorem toExtended_cases (h : t.mag bits ≤ t.inf) :
    (-t.inf < orderKey t.format bits ∧ orderKey t.format bits < t.inf ∧
      t.toExtended bits = (t.signedMagnitude (orderKey t.format bits) : WithTop ℚ)) ∨
    (orderKey t.format bits = t.inf ∧ t.toExtended bits = ((⊤ : WithTop ℚ) : WithBot (WithTop ℚ))) ∨
    (orderKey t.format bits = -t.inf ∧ t.toExtended bits = ⊥) := by
  have hinf := inf_pos t
  rw [toExtended, ← toRat_eq_signedMagnitude, orderKey_eq]
  rcases Nat.lt_or_eq_of_le h with hlt | heq
  · left
    rw [if_pos hlt]
    cases t.neg bits with
    | false => exact ⟨(by omega : -(t.inf : Int) < t.mag bits), Int.ofNat_lt.mpr hlt, rfl⟩
    | true => exact ⟨Int.neg_lt_neg (Int.ofNat_lt.mpr hlt),
        (by omega : -(t.mag bits : Int) < t.inf), rfl⟩
  · right
    have hle : ¬ t.mag bits < t.inf := heq.not_lt
    rw [if_neg hle, heq]
    cases t.neg bits with
    | false => exact .inl ⟨rfl, rfl⟩
    | true => exact .inr ⟨rfl, rfl⟩

theorem toExtended_lt_iff {x y : Nat} (hx : t.mag x ≤ t.inf) (hy : t.mag y ≤ t.inf) :
    t.toExtended x < t.toExtended y ↔ orderKey t.format x < orderKey t.format y := by
  have hinf := inf_pos t
  rcases toExtended_cases hx with ⟨hx₁, hx₂, hx⟩ | ⟨hx₁, hx⟩ | ⟨hx₁, hx⟩ <;>
    rcases toExtended_cases hy with ⟨hy₁, hy₂, hy⟩ | ⟨hy₁, hy⟩ | ⟨hy₁, hy⟩ <;>
    rw [hx, hy]
  · rw [WithBot.coe_lt_coe, WithTop.coe_lt_coe, (signedMagnitude_strictMono t).lt_iff_lt]
  · exact iff_of_true (WithBot.coe_lt_coe.mpr (WithTop.coe_lt_top _)) (by omega)
  · exact iff_of_false not_lt_bot (by omega)
  · exact iff_of_false (mt WithBot.coe_lt_coe.mp not_top_lt) (by omega)
  · exact iff_of_false (lt_irrefl _) (by omega)
  · exact iff_of_false not_lt_bot (by omega)
  · exact iff_of_true (WithBot.bot_lt_coe _) (by omega)
  · exact iff_of_true (WithBot.bot_lt_coe _) (by omega)
  · exact iff_of_false (lt_irrefl _) (by omega)

/-! ## Bounds on numbers -/

/-- The patterns below `b` are those of the numbers below `c`. -/
def Bound (t : FloatType) (b : Nat) (c : ℚ) : Prop := ∀ n, t.magnitude n < c ↔ n < b

theorem Bound.of_eq {x : ℚ} (h : t.magnitude b = x) : t.Bound b x := by
  intro n
  rw [← h, (magnitude_strictMono t).lt_iff_lt]

theorem Bound.of_between {x : ℚ} (hlo : t.magnitude b < x) (hhi : x ≤ t.magnitude (b + 1)) :
    t.Bound (b + 1) x := by
  intro n
  rw [Nat.lt_succ_iff]
  constructor
  · intro hn
    exact Nat.lt_succ_iff.mp ((magnitude_strictMono t).lt_iff_lt.mp (hn.trans_le hhi))
  · intro hn
    exact ((magnitude_strictMono t).monotone hn).trans_lt hlo

end FloatType

end Interpreter

end SexprWasm
