import SexprWasm.Interpreter.IntegerOps
import SexprWasm.Interpreter.FloatValue

/-!
# The least and the greatest of two floats

`MINMAX_FLOAT` compares the bits where the signs differ and the floats
where they do not. Both are the comparison of one key, `place`, in which
the floats that are no NaNs come in the order of their numbers and -0
before 0 (`minmax_eq`). The key is injective on these, and a function
that selects the operand of the least key is commutative, associative
and idempotent (`Selects`).
-/

namespace SexprWasm

namespace Interpreter

namespace FloatType

variable {t : FloatType} {r : Nat → Nat → Prop} {key : Nat → Int} {f : Nat → Nat → Nat}
  {a b c i : Nat} {op : FloatCompare}

/-- The bits of a number or an infinity. -/
structure IsNumber (t : FloatType) (bits : Nat) : Prop where
  lt : bits < 2 ^ t.format.bits
  le : t.mag bits ≤ t.inf

/-- A smaller number, or a zero with the sign where the other has none. -/
def Before (t : FloatType) (a b : Nat) : Prop :=
  t.toExtended a < t.toExtended b ∨ t.toExtended a = t.toExtended b ∧ t.neg a ∧ ¬ t.neg b

/-- The first bit of the fraction is set, and the others are as they were. -/
structure Quieted (t : FloatType) (nan bits : Nat) : Prop where
  quiet : bits.testBit (t.format.sigBits - 1) = true
  rest : ∀ i, i ≠ t.format.sigBits - 1 → bits.testBit i = nan.testBit i

/-- Of two numbers `f` is one that no other precedes; of two floats with a NaN, the first NaN. -/
structure Selects (t : FloatType) (r : Nat → Nat → Prop) (f : Nat → Nat → Nat) : Prop where
  nan_left : ∀ {a b}, a < 2 ^ t.format.bits → t.inf < t.mag a → t.Quieted a (f a b)
  nan_right : ∀ {a b}, t.IsNumber a → b < 2 ^ t.format.bits → t.inf < t.mag b →
    t.Quieted b (f a b)
  mem : ∀ {a b}, t.IsNumber a → t.IsNumber b → f a b = a ∨ f a b = b
  least : ∀ {a b}, t.IsNumber a → t.IsNumber b → ¬ r a (f a b) ∧ ¬ r b (f a b)

/-! ## The key -/

/-- The place of a float that is not a NaN among them. -/
def place (t : FloatType) (bits : Nat) : Int :=
  if t.neg bits then -(t.mag bits : Int) - 1 else t.mag bits

theorem place_injective (ha : t.IsNumber a) (hb : t.IsNumber b) (h : t.place a = t.place b) :
    a = b := by
  have hsplit := split ha.lt
  have hsplit' := split hb.lt
  rw [place, place] at h
  cases hna : t.neg a <;> cases hnb : t.neg b <;> rw [hna, hnb] at h <;>
    rw [hna] at hsplit <;> rw [hnb] at hsplit' <;>
    simp only [Bool.false_eq_true, if_true, if_false] at h <;> omega

theorem toExtended_eq_iff (ha : t.IsNumber a) (hb : t.IsNumber b) :
    t.toExtended a = t.toExtended b ↔ orderKey t.format a = orderKey t.format b := by
  have hlt := toExtended_lt_iff ha.le hb.le
  have hgt := toExtended_lt_iff hb.le ha.le
  rw [eq_iff_le_not_lt, ← not_lt, hlt, hgt]
  omega

theorem before_iff (ha : t.IsNumber a) (hb : t.IsNumber b) :
    t.Before a b ↔ t.place a < t.place b := by
  rw [Before, toExtended_lt_iff ha.le hb.le, toExtended_eq_iff ha hb, orderKey_eq, orderKey_eq,
    place, place]
  cases t.neg a <;> cases t.neg b <;> simp <;> omega

/-! ## Selecting the least -/

namespace Selects

theorem key_eq (h : t.Selects r f)
    (hkey : ∀ {a b}, t.IsNumber a → t.IsNumber b → (r a b ↔ key a < key b))
    (ha : t.IsNumber a) (hb : t.IsNumber b) : key (f a b) = min (key a) (key b) := by
  obtain ⟨hla, hlb⟩ := h.least ha hb
  rcases h.mem ha hb with heq | heq
  · rw [heq] at hlb ⊢
    rw [hkey hb ha, not_lt] at hlb
    exact (min_eq_left hlb).symm
  · rw [heq] at hla ⊢
    rw [hkey ha hb, not_lt] at hla
    exact (min_eq_right hla).symm

theorem isNumber (h : t.Selects r f) (ha : t.IsNumber a) (hb : t.IsNumber b) :
    t.IsNumber (f a b) := by
  rcases h.mem ha hb with heq | heq <;> rw [heq] <;> assumption

variable (h : t.Selects r f)
  (hkey : ∀ {a b}, t.IsNumber a → t.IsNumber b → (r a b ↔ key a < key b))
  (hinj : ∀ {a b}, t.IsNumber a → t.IsNumber b → key a = key b → a = b)

include h hkey hinj

theorem comm (ha : t.IsNumber a) (hb : t.IsNumber b) : f a b = f b a := by
  apply hinj (h.isNumber ha hb) (h.isNumber hb ha)
  rw [h.key_eq hkey ha hb, h.key_eq hkey hb ha, min_comm]

theorem assoc (ha : t.IsNumber a) (hb : t.IsNumber b) (hc : t.IsNumber c) :
    f (f a b) c = f a (f b c) := by
  have hab := h.isNumber ha hb
  have hbc := h.isNumber hb hc
  apply hinj (h.isNumber hab hc) (h.isNumber ha hbc)
  rw [h.key_eq hkey hab hc, h.key_eq hkey ha hb, h.key_eq hkey ha hbc, h.key_eq hkey hb hc,
    min_assoc]

omit hkey hinj in
theorem idem (ha : t.IsNumber a) : f a a = a := (h.mem ha ha).elim id id

end Selects

/-! ## `MINMAX_FLOAT` -/

theorem quieted_or (t : FloatType) (nan : Nat) : t.Quieted nan (nan ||| t.quietNanBit) := by
  have hbit : t.quietNanBit = 2 ^ (t.format.sigBits - 1) := by cases t <;> rfl
  constructor
  · rw [hbit, Nat.testBit_or, Nat.testBit_two_pow_self, Bool.or_true]
  · intro i hi
    rw [hbit, Nat.testBit_or, Nat.testBit_two_pow_of_ne hi.symm, Bool.or_false]

theorem isNan_false (h : t.IsNumber a) : t.isNan a = false := by
  rw [Bool.eq_false_iff, Ne, isNan_iff h.lt]
  exact h.le.not_gt

theorem sign_differs_iff : (a ^^^ b) &&& t.signMask ≠ 0 ↔ t.neg a ≠ t.neg b := by
  have hmask : t.signMask = 2 ^ t.format.signShift := by cases t <;> rfl
  have hpos := Nat.two_pow_pos t.format.signShift
  rw [hmask, Nat.and_two_pow, Nat.testBit_xor, neg, neg]
  cases a.testBit t.format.signShift <;> cases b.testBit t.format.signShift <;> simp

/-- The key `MIN_OP` and `MAX_OP` select the least of. -/
def opKey (t : FloatType) : FloatCompare → Nat → Int
  | .gt, bits => -t.place bits
  | _, bits => t.place bits

theorem minmax_eq (hop : op = .lt ∨ op = .gt) (ha : t.IsNumber a) (hb : t.IsNumber b) :
    Machine.minmax t op a b = if t.opKey op a < t.opKey op b then a else b := by
  have hsplit := split ha.lt
  have hsplit' := split hb.lt
  have hmag := mag_lt t a
  have hmag' := mag_lt t b
  rw [Machine.minmax, isNan_false ha, isNan_false hb, if_neg (by decide), if_neg (by decide)]
  by_cases hsign : t.neg a = t.neg b
  · rw [if_neg (mt sign_differs_iff.mp (not_not.mpr hsign))]
    -- with one sign, `place` orders the floats as the numbers
    have hkey : op.holds t a b = true ↔ t.opKey op a < t.opKey op b := by
      rcases hop with rfl | rfl <;>
        simp only [FloatCompare.holds, isNan_false ha, isNan_false hb, orderKey_eq, opKey, place,
          hsign] <;>
        cases t.neg b <;> simp
    simp only [hkey]
  · rw [if_pos (sign_differs_iff.mpr hsign)]
    have hkey : (!Machine.minMaxOp op a b) = true ↔ t.opKey op a < t.opKey op b := by
      cases hna : t.neg a <;> cases hnb : t.neg b <;> rw [hna, hnb] at hsign <;>
        rw [hna] at hsplit <;> rw [hnb] at hsplit' <;>
        rcases hop with rfl | rfl <;>
        simp [Machine.minMaxOp, opKey, place, hna, hnb] at hsign hsplit hsplit' ⊢ <;> omega
    simp only [hkey]

theorem minmax_selects (hop : op = .lt ∨ op = .gt)
    (hkey : ∀ {a b}, t.IsNumber a → t.IsNumber b → (r a b ↔ t.opKey op a < t.opKey op b)) :
    t.Selects r (Machine.minmax t op) where
  nan_left := by
    intro a b ha hnan
    rw [Machine.minmax, if_pos ((isNan_iff ha).mpr hnan)]
    exact quieted_or t a
  nan_right := by
    intro a b ha hb hnan
    rw [Machine.minmax, isNan_false ha, if_neg (by decide), if_pos ((isNan_iff hb).mpr hnan)]
    exact quieted_or t b
  mem := by
    intro a b ha hb
    rw [minmax_eq hop ha hb]
    split
    · exact .inl rfl
    · exact .inr rfl
  least := by
    intro a b ha hb
    rw [minmax_eq hop ha hb]
    split
    · rw [hkey ha ha, hkey hb ha]
      omega
    · rw [hkey ha hb, hkey hb hb]
      omega

/-- `f` selects a float, and on numbers it makes no difference in which order and how often. -/
structure IsExtremum (t : FloatType) (r : Nat → Nat → Prop) (f : Nat → Nat → Nat) : Prop
    extends t.Selects r f where
  comm : ∀ {a b}, t.IsNumber a → t.IsNumber b → f a b = f b a
  assoc : ∀ {a b c}, t.IsNumber a → t.IsNumber b → t.IsNumber c → f (f a b) c = f a (f b c)
  idem : ∀ {a}, t.IsNumber a → f a a = a

theorem minmax_isExtremum (hop : op = .lt ∨ op = .gt)
    (hkey : ∀ {a b}, t.IsNumber a → t.IsNumber b → (r a b ↔ t.opKey op a < t.opKey op b))
    (hinj : ∀ {a b}, t.IsNumber a → t.IsNumber b → t.opKey op a = t.opKey op b → a = b) :
    t.IsExtremum r (Machine.minmax t op) where
  toSelects := minmax_selects hop hkey
  comm := (minmax_selects hop hkey).comm hkey hinj
  assoc := (minmax_selects hop hkey).assoc hkey hinj
  idem := (minmax_selects hop hkey).idem

theorem min_isExtremum : t.IsExtremum t.Before (Machine.minmax t .lt) :=
  minmax_isExtremum (.inl rfl) before_iff place_injective

theorem max_isExtremum : t.IsExtremum (flip t.Before) (Machine.minmax t .gt) :=
  minmax_isExtremum (.inr rfl) (fun ha hb => (before_iff hb ha).trans neg_lt_neg_iff.symm)
    fun ha hb h => place_injective ha hb (neg_injective h)

end FloatType

namespace Machine

theorem minmax_lt {t : FloatType} {op : FloatCompare} {a b : Nat}
    (ha : a < 2 ^ t.format.bits) (hb : b < 2 ^ t.format.bits) :
    minmax t op a b < 2 ^ t.format.bits := by
  have hbit : t.quietNanBit < 2 ^ t.format.bits := by cases t <;> decide
  unfold minmax
  split_ifs
  · exact Nat.or_lt_two_pow ha hbit
  · exact Nat.or_lt_two_pow hb hbit
  all_goals assumption

theorem minmaxFloat_computes (t : FloatType) (op : FloatCompare) :
    Computes (.total (minmax t op)) t.valueType t.valueType (minmaxFloat t op) := by
  have hwidth : 2 ^ t.valueType.bits = 2 ^ t.format.bits := by cases t <;> rfl
  refine computes_binop fun x y => Nat.mod_eq_of_lt ?_
  exact (minmax_lt (x.isLt.trans_eq hwidth) (y.isLt.trans_eq hwidth)).trans_eq hwidth.symm

/-- An instruction pushes the one of its operands that no other precedes. -/
def PushesExtremum (t : FloatType) (r : Nat → Nat → Prop) (instr : Exec Unit) : Prop :=
  ∃ f, Computes (.total f) t.valueType t.valueType instr ∧ t.IsExtremum r f

theorem execute_minmax (p : Platform) (top : Nat) :
    PushesExtremum .f32 (FloatType.Before .f32) (execute p top .f32Min) ∧
    PushesExtremum .f32 (flip (FloatType.Before .f32)) (execute p top .f32Max) ∧
    PushesExtremum .f64 (FloatType.Before .f64) (execute p top .f64Min) ∧
    PushesExtremum .f64 (flip (FloatType.Before .f64)) (execute p top .f64Max) :=
  ⟨⟨_, minmaxFloat_computes _ _, FloatType.min_isExtremum⟩,
    ⟨_, minmaxFloat_computes _ _, FloatType.max_isExtremum⟩,
    ⟨_, minmaxFloat_computes _ _, FloatType.min_isExtremum⟩,
    ⟨_, minmaxFloat_computes _ _, FloatType.max_isExtremum⟩⟩

end Machine

end Interpreter

end SexprWasm
