import SexprWasm.Literal.FloatScan
import SexprWasm.Literal.IntegerSound

/-!
# The literal type of a token

No text is a token of two literal types that are read differently: the
first letter tells an infinity and a NaN, and a `p` a hex float.
-/

namespace SexprWasm

namespace Literal

variable {t t' : LiteralType} {s : List UInt8}

/-- The literal types that a text can have, told by its letters; `none` is an integer or a
decimal float. -/
def typeOf (s : List UInt8) : Option LiteralType :=
  let first := (parseFloatSign s).2.head?
  if first = some 0x69 then some .infinity
  else if first = some 0x6e then some .nan
  else if 0x70 ∈ s then some .hexfloat
  else none

/-- None of the letters that tell a literal type. -/
def IsPlain (c : UInt8) : Prop := c ≠ 0x70 ∧ c ≠ 0x69 ∧ c ≠ 0x6e

instance (c : UInt8) : Decidable (IsPlain c) := inferInstanceAs (Decidable (_ ∧ _))

theorem IsHexdigit.isPlain {c : UInt8} (hc : IsHexdigit c) : IsPlain c := by
  refine ⟨?_, ?_, ?_⟩ <;> rintro rfl <;> exact absurd hc (by decide)

theorem IsDigit.isPlain {c : UInt8} (hc : IsDigit c) : IsPlain c := by
  refine ⟨?_, ?_, ?_⟩ <;> rintro rfl <;> exact absurd hc (by decide)

theorem signText_isPlain (sign : Option Bool) : ∀ c ∈ signText sign, IsPlain c := by
  rcases sign with _ | _ | _
  · exact List.forall_mem_nil _
  · exact List.forall_mem_singleton.mpr (by decide)
  · exact List.forall_mem_singleton.mpr (by decide)

theorem mem_parseFloatSign {c : UInt8} (hc : c ∈ (parseFloatSign s).2) : c ∈ s := by
  unfold parseFloatSign at hc
  split at hc
  · exact List.mem_cons_of_mem _ hc
  · exact List.mem_cons_of_mem _ hc
  · exact hc

theorem typeOf_plain (hs : ∀ c ∈ s, IsPlain c) : typeOf s = none := by
  have hmem : ∀ {c}, (parseFloatSign s).2.head? = some c → c ∈ s := fun hhead =>
    mem_parseFloatSign (List.mem_of_mem_head? hhead)
  unfold typeOf
  simp only []
  rw [if_neg fun hhead => (hs _ (hmem hhead)).2.1 rfl, if_neg fun hhead => (hs _ (hmem hhead)).2.2 rfl,
    if_neg fun hp => (hs _ hp).1 rfl]

theorem mapM_isSome {digit? : UInt8 → Option Nat} {ds : List Nat} (hds : s.mapM digit? = some ds) :
    ∀ c ∈ s, (digit? c).isSome := by
  induction s generalizing ds with
  | nil => simp
  | cons c s ih =>
    rw [List.mapM_cons, Option.bind_eq_bind, Option.bind_eq_some_iff] at hds
    obtain ⟨d, hd, hrest⟩ := hds
    rw [Option.bind_eq_bind, Option.bind_eq_some_iff] at hrest
    obtain ⟨ds', hds', -⟩ := hrest
    intro c' hc'
    rcases List.mem_cons.mp hc' with rfl | hc'
    · rw [hd]
      rfl
    · exact ih hds' c' hc'

theorem Numeral.isPlain {n : Nat} (h : Numeral s n) : ∀ c ∈ s, IsPlain c := by
  cases h with
  | num digits =>
    obtain ⟨-, ds, hds, -⟩ := digits
    exact fun c hc => IsDigit.isPlain (mapM_isSome hds c hc)
  | hexnum digits =>
    obtain ⟨-, ds, hds, -⟩ := digits
    intro c hc
    rcases List.mem_cons.mp hc with rfl | hc
    · decide
    · rcases List.mem_cons.mp hc with rfl | hc
      · decide
      · exact IsHexdigit.isPlain (mapM_isSome hds c hc)

theorem plain_append {s' : List UInt8} (hs : ∀ c ∈ s, IsPlain c) (hs' : ∀ c ∈ s', IsPlain c) :
    ∀ c ∈ s ++ s', IsPlain c := by
  intro c hc
  rcases List.mem_append.mp hc with hc | hc
  · exact hs c hc
  · exact hs' c hc

theorem plain_cons {c : UInt8} (hc : IsPlain c) (hs : ∀ c ∈ s, IsPlain c) : ∀ c' ∈ c :: s, IsPlain c' :=
  List.forall_mem_cons.mpr ⟨hc, hs⟩

theorem typeOf_head {c : UInt8} (sign : Option Bool) (hs : s.head? = some c)
    (hc : c ≠ 0x2d ∧ c ≠ 0x2b) :
    typeOf (signText sign ++ s) =
      if c = 0x69 then some .infinity
      else if c = 0x6e then some .nan
      else if 0x70 ∈ signText sign ++ s then some .hexfloat
      else none := by
  have hne : ∀ c' ∈ s.head?, c' ≠ 0x2d ∧ c' ≠ 0x2b := by
    intro c' hc'
    rw [hs] at hc'
    cases hc'
    exact hc
  unfold typeOf
  rw [HexFloat.parseFloatSign_of hne]
  simp only [hs, Option.some.injEq]

/-- The type of a token. -/
theorem Token.typeOf_eq (h : Token t s) (hint : t ≠ .int) (hfloat : t ≠ .float) :
    typeOf s = some t := by
  cases h with
  | nat numeral => exact absurd rfl hint
  | int sign numeral => exact absurd rfl hint
  | float0 sign num_ne num_digits all_digits => exact absurd rfl hfloat
  | float1 sign frac e expSign num_ne exp_ne num_digits frac_digits e_eq exp_digits =>
    exact absurd rfl hfloat
  | hexfloat h =>
    have hp : 0x70 ∈ h.text := by simp [HexFloat.text]
    unfold HexFloat.text at hp ⊢
    rw [typeOf_head h.sign rfl (by decide)]
    exact if_pos hp
  | inf sign => rw [typeOf_head (c := 0x69) sign rfl (by decide), if_pos rfl]
  | infinity sign => rw [typeOf_head (c := 0x69) sign rfl (by decide), if_pos rfl]
  | nan sign => rw [typeOf_head (c := 0x6e) sign rfl (by decide), if_neg (by decide), if_pos rfl]
  | nanTag sign ne digits =>
    rw [typeOf_head (c := 0x6e) sign rfl (by decide), if_neg (by decide), if_pos rfl]

/-- An integer or a decimal float has none of the letters. -/
theorem Token.typeOf_none (h : Token t s) (ht : t = .int ∨ t = .float) : typeOf s = none := by
  have digits : ∀ {cs : List UInt8}, (∀ c ∈ cs, IsDigit c) → ∀ c ∈ cs, IsPlain c :=
    fun hcs c hc => (hcs c hc).isPlain
  cases h with
  | nat numeral => exact typeOf_plain numeral.isPlain
  | int sign numeral => exact typeOf_plain (plain_append (signText_isPlain _) numeral.isPlain)
  | float0 sign num_ne num_digits all_digits =>
    exact typeOf_plain (plain_append (signText_isPlain _)
      (plain_append (digits num_digits) (plain_cons (by decide) (digits all_digits))))
  | float1 sign frac e expSign num_ne exp_ne num_digits frac_digits e_eq exp_digits =>
    have hfrac : ∀ c ∈ (frac.map (0x2e :: ·)).getD [], IsPlain c := by
      cases frac with
      | none => simp
      | some cs => exact plain_cons (by decide) (digits (frac_digits cs rfl))
    have he : IsPlain e := by
      rcases e_eq with rfl | rfl <;> decide
    exact typeOf_plain (plain_append (signText_isPlain _) (plain_append (digits num_digits)
      (plain_append hfrac (plain_cons he (plain_append (signText_isPlain _) (digits exp_digits))))))
  | hexfloat h => rcases ht with ht | ht <;> cases ht
  | inf sign => rcases ht with ht | ht <;> cases ht
  | infinity sign => rcases ht with ht | ht <;> cases ht
  | nan sign => rcases ht with ht | ht <;> cases ht
  | nanTag sign ne digits => rcases ht with ht | ht <;> cases ht

/-- The literal type that the lexer gives a hex float, an infinity or a NaN is the only one. -/
theorem Token.type_unique (h : Token t s) (h' : Token t' s) (hint : t ≠ .int) (hfloat : t ≠ .float) :
    t' = t := by
  have htype := h.typeOf_eq hint hfloat
  by_cases ht' : t' = .int ∨ t' = .float
  · rw [h'.typeOf_none ht'] at htype
    cases htype
  · rw [not_or] at ht'
    rw [h'.typeOf_eq ht'.1 ht'.2] at htype
    exact Option.some.inj htype

end Literal

end SexprWasm
