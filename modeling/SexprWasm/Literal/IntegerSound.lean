import SexprWasm.Literal.Integer
import Mathlib.Data.List.Basic

/-!
# What the integer parsers read

The loop of `wasm_parse_uint64` compares each value only with the one
before it, so it misses a product that wraps around and comes out
larger; and `wasm_parse_hexdigit` takes `g` and `G` for 16. `Misread`
says on which numerals that makes a difference.
-/

namespace SexprWasm

namespace Literal

open Digits

variable {digit? : UInt8 → Option Nat} {b : Nat} {ds : List Nat} {c : UInt8} {cs s : List UInt8}

/-! ## The loop -/

theorem parseDigits_from (cs : List UInt8) (read : List Nat) {v : Nat} :
    parseDigits digit? b (value b read % 2 ^ 64) cs = some v ↔
      ∃ ds, cs.mapM digit? = some ds ∧
        (∀ p d, p ++ [d] <+: ds →
          value b (read ++ p) % 2 ^ 64 ≤ value b (read ++ (p ++ [d])) % 2 ^ 64) ∧
        v = value b (read ++ ds) % 2 ^ 64 := by
  induction cs generalizing read with
  | nil =>
    simp only [parseDigits, List.mapM_nil, Option.some.injEq, Option.pure_def]
    constructor
    · rintro rfl
      exact ⟨[], rfl, by simp, by simp⟩
    · rintro ⟨ds, rfl, -, rfl⟩
      simp
  | cons c cs ih =>
    cases hc : digit? c with
    | none => simp [parseDigits, hc]
    | some d =>
      have hnext : (value b read % 2 ^ 64 * b + d) % 2 ^ 64 = value b (read ++ [d]) % 2 ^ 64 := by
        rw [value_concat, Nat.add_mod, Nat.mod_mul_mod, ← Nat.add_mod]
      simp only [parseDigits, hc, hnext, List.mapM_cons, Option.bind_eq_bind, Option.bind_some]
      by_cases hdrop : value b (read ++ [d]) % 2 ^ 64 < value b read % 2 ^ 64
      · -- the first digit drops
        rw [if_pos hdrop]
        simp only [reduceCtorEq, false_iff, not_exists, not_and]
        intro ds hds hnever
        obtain ⟨ds', -, hds'⟩ := Option.bind_eq_some_iff.mp hds
        cases hds'
        have hfirst := hnever [] d ⟨ds', rfl⟩
        simp only [List.append_nil, List.nil_append] at hfirst
        omega
      · rw [if_neg hdrop, ih (read ++ [d])]
        constructor
        · rintro ⟨ds, hds, hnever, rfl⟩
          refine ⟨d :: ds, by simp [hds], ?_, by simp⟩
          intro p e hp
          cases p with
          | nil =>
            obtain ⟨_, heq⟩ := hp
            cases heq
            simpa using Nat.le_of_not_lt hdrop
          | cons d' p =>
            rw [List.cons_append, List.cons_prefix_cons] at hp
            obtain ⟨rfl, hp⟩ := hp
            simpa using hnever p e hp
        · rintro ⟨ds, hds, hnever, rfl⟩
          obtain ⟨ds', hds', heq⟩ := Option.bind_eq_some_iff.mp hds
          cases heq
          refine ⟨ds', hds', ?_, by simp⟩
          intro p e hp
          have hcons : (d :: p) ++ [e] <+: d :: ds' := by
            rw [List.cons_append, List.cons_prefix_cons]
            exact ⟨rfl, hp⟩
          simpa using hnever (d :: p) e hcons

theorem parseDigits_eq_some {v : Nat} :
    parseDigits digit? b 0 cs = some v ↔
      ∃ ds, cs.mapM digit? = some ds ∧ NeverDrops (2 ^ 64) b ds ∧ v = value b ds % 2 ^ 64 := by
  have h : parseDigits digit? b 0 cs = some v ↔ _ := parseDigits_from cs []
  simpa [NeverDrops] using h

/-! ## Which digits are read -/

/-- The base and the digits `wasm_parse_uint64` works on, if it takes each character for one. -/
def digitsOf (s : List UInt8) : Option (Nat × List Nat) :=
  match s with
  | [] => none
  | 0x30 :: 0x78 :: s => if s = [] then none else (s.mapM parseHexdigit).map (16, ·)
  | s => (s.mapM parseDigit).map (10, ·)

theorem hex_or_decimal (s : List UInt8) :
    s = [] ∨ (∃ cs, s = 0x30 :: 0x78 :: cs) ∨ s ≠ [] ∧ ∀ cs, s ≠ 0x30 :: 0x78 :: cs := by
  by_cases hs : s = []
  · exact .inl hs
  · by_cases hx : ∃ cs, s = 0x30 :: 0x78 :: cs
    · exact .inr (.inl hx)
    · exact .inr (.inr ⟨hs, not_exists.mp hx⟩)

theorem digitsOf_decimal (hne : s ≠ []) (hx : ∀ cs, s ≠ 0x30 :: 0x78 :: cs) :
    digitsOf s = (s.mapM parseDigit).map (10, ·) := by
  unfold digitsOf
  split
  · exact absurd rfl hne
  · exact absurd rfl (hx _)
  · rfl

theorem digitsOf_hex (hne : cs ≠ []) :
    digitsOf (0x30 :: 0x78 :: cs) = (cs.mapM parseHexdigit).map (16, ·) := if_neg hne

theorem parseUint64_decimal (hne : s ≠ []) (hx : ∀ cs, s ≠ 0x30 :: 0x78 :: cs) :
    parseUint64 s = parseDigits parseDigit 10 0 s := by
  unfold parseUint64
  split
  · exact absurd rfl hne
  · exact absurd rfl (hx _)
  · rfl

theorem parseUint64_hex (hne : cs ≠ []) :
    parseUint64 (0x30 :: 0x78 :: cs) = parseDigits parseHexdigit 16 0 cs := if_neg hne

theorem exists_digits {P : Nat → List Nat → Prop} {o : Option (List Nat)} :
    (∃ b' ds, o.map (b, ·) = some (b', ds) ∧ P b' ds) ↔ ∃ ds, o = some ds ∧ P b ds := by
  constructor
  · rintro ⟨b', ds, h, hP⟩
    obtain ⟨ds', hds', heq⟩ := Option.map_eq_some_iff.mp h
    cases heq
    exact ⟨ds, hds', hP⟩
  · rintro ⟨ds, rfl, hP⟩
    exact ⟨b, ds, rfl, hP⟩

theorem parseUint64_eq_some {v : Nat} :
    parseUint64 s = some v ↔
      ∃ b ds, digitsOf s = some (b, ds) ∧ NeverDrops (2 ^ 64) b ds ∧ v = value b ds % 2 ^ 64 := by
  rcases hex_or_decimal s with rfl | ⟨cs, rfl⟩ | ⟨hne, hx⟩
  · simp [parseUint64, digitsOf]
  · by_cases hcs : cs = []
    · simp [parseUint64, digitsOf, hcs]
    · rw [parseUint64_hex hcs, digitsOf_hex hcs, parseDigits_eq_some,
        exists_digits (P := fun b ds => NeverDrops (2 ^ 64) b ds ∧ v = value b ds % 2 ^ 64)]
  · rw [parseUint64_decimal hne hx, digitsOf_decimal hne hx, parseDigits_eq_some,
      exists_digits (P := fun b ds => NeverDrops (2 ^ 64) b ds ∧ v = value b ds % 2 ^ 64)]

/-- `g` and `G` are the only characters taken for a digit that are none. -/
theorem hexdigit_eq_some {d : Nat} :
    hexdigit c = some d ↔ parseHexdigit c = some d ∧ d ≠ 16 := by
  unfold hexdigit parseHexdigit
  split_ifs <;> unfold within at * <;>
    simp only [Option.some.injEq, reduceCtorEq, false_and, iff_self, false_iff, not_and] <;>
    try omega

theorem parseDigit_lt {d : Nat} (h : parseDigit c = some d) : d < 10 := by
  unfold parseDigit at h
  split_ifs at h with hc
  cases h
  have := hc.2
  omega

theorem mapM_hexdigit :
    cs.mapM hexdigit = some ds ↔ cs.mapM parseHexdigit = some ds ∧ 16 ∉ ds := by
  induction cs generalizing ds with
  | nil =>
    simp only [List.mapM_nil, Option.pure_def, Option.some.injEq]
    constructor
    · rintro rfl
      exact ⟨rfl, by simp⟩
    · exact And.left
  | cons c cs ih =>
    simp only [List.mapM_cons, Option.bind_eq_bind, Option.bind_eq_some_iff, Option.pure_def,
      Option.some.injEq]
    constructor
    · rintro ⟨d, hd, ds', hds', rfl⟩
      obtain ⟨hd, hd16⟩ := hexdigit_eq_some.mp hd
      obtain ⟨hds', h16⟩ := ih.mp hds'
      exact ⟨⟨d, hd, ds', hds', rfl⟩, by simp [Ne.symm hd16, h16]⟩
    · rintro ⟨⟨d, hd, ds', hds', rfl⟩, h16⟩
      rw [List.mem_cons, not_or] at h16
      exact ⟨d, hexdigit_eq_some.mpr ⟨hd, Ne.symm h16.1⟩, ds', ih.mpr ⟨hds', h16.2⟩, rfl⟩

theorem lt_of_mapM_parseDigit (h : cs.mapM parseDigit = some ds) : ∀ d ∈ ds, d < 10 := by
  induction cs generalizing ds with
  | nil =>
    cases h
    simp
  | cons c cs ih =>
    simp only [List.mapM_cons, Option.bind_eq_bind, Option.bind_eq_some_iff, Option.pure_def,
      Option.some.injEq] at h
    obtain ⟨d, hd, ds', hds', rfl⟩ := h
    intro e he
    rcases List.mem_cons.mp he with rfl | he
    · exact parseDigit_lt hd
    · exact ih hds' e he

theorem numeral_iff {n : Nat} :
    Numeral s n ↔ ∃ b ds, digitsOf s = some (b, ds) ∧ 16 ∉ ds ∧ n = value b ds := by
  constructor
  · rintro (⟨hne, ds, hds, rfl⟩ | ⟨hne, ds, hds, rfl⟩)
    · have hx : ∀ cs, s ≠ 0x30 :: 0x78 :: cs := by
        rintro cs rfl
        simp [parseDigit, within] at hds
      refine ⟨10, ds, ?_, fun h16 => absurd (lt_of_mapM_parseDigit hds 16 h16) (by decide), rfl⟩
      rw [digitsOf_decimal hne hx, hds]
      rfl
    · obtain ⟨hds, h16⟩ := mapM_hexdigit.mp hds
      refine ⟨16, ds, ?_, h16, rfl⟩
      rw [digitsOf_hex hne, hds]
      rfl
  · intro h
    rcases hex_or_decimal s with rfl | ⟨cs, rfl⟩ | ⟨hne, hx⟩
    · obtain ⟨_, _, hds, -⟩ := h
      cases hds
    · by_cases hcs : cs = []
      · subst hcs
        obtain ⟨_, _, hds, -⟩ := h
        cases hds
      · rw [digitsOf_hex hcs, exists_digits (P := fun b ds => 16 ∉ ds ∧ n = value b ds)] at h
        obtain ⟨ds, hds, h16, rfl⟩ := h
        exact .hexnum ⟨hcs, ds, mapM_hexdigit.mpr ⟨hds, h16⟩, rfl⟩
    · rw [digitsOf_decimal hne hx, exists_digits (P := fun b ds => 16 ∉ ds ∧ n = value b ds)] at h
      obtain ⟨ds, hds, -, rfl⟩ := h
      exact .num ⟨hne, ds, hds, rfl⟩

/-! ## Signs and ranges -/

variable {parseType : ParseIntType} {parser : IntParser}

theorem head_of_numeral {n : Nat} (h : Numeral (c :: s) n) : c ≠ 0x2d ∧ c ≠ 0x2b := by
  cases h with
  | num h =>
    obtain ⟨-, ds, hds, -⟩ := h
    simp only [List.mapM_cons, Option.bind_eq_bind, Option.bind_eq_some_iff] at hds
    obtain ⟨d, hd, -⟩ := hds
    constructor
    · rintro rfl
      simp [parseDigit, within] at hd
    · rintro rfl
      simp [parseDigit, within] at hd
  | hexnum h => exact ⟨by decide, by decide⟩

/-- A number with the sign that was read. -/
def signed (hasSign : Bool) (n : Nat) : Int := if hasSign then -n else n

theorem signedNumeral_iff {v : Int} :
    SignedNumeral parseType s v ↔
      ∃ hasSign body n, parseSign parseType s = some (hasSign, body) ∧ Numeral body n ∧
        v = signed hasSign n := by
  constructor
  · rintro (h | ⟨rfl, h⟩ | ⟨rfl, h⟩)
    · rename_i n
      refine ⟨false, s, n, ?_, h, rfl⟩
      unfold parseSign
      split
      · exact absurd rfl (head_of_numeral h).1
      · exact absurd rfl (head_of_numeral h).2
      · rfl
    · rename_i s n
      exact ⟨false, s, n, rfl, h, rfl⟩
    · rename_i s n
      exact ⟨true, s, n, rfl, h, rfl⟩
  · rintro ⟨hasSign, body, n, hsign, h, rfl⟩
    unfold parseSign at hsign
    split at hsign
    · split_ifs at hsign with htype
      cases hsign
      exact .minus (by cases parseType <;> trivial) h
    · split_ifs at hsign with htype
      cases hsign
      exact .plus (by cases parseType <;> trivial) h
    · cases hsign
      exact .nat h

namespace IntParser

/-- The largest absolute value with (`true`) or without a minus sign. -/
def limit (parser : IntParser) : Bool → Nat
  | true => 2 ^ (parser.width - 1)
  | false => 2 ^ parser.width - 1

theorem limit_lt (parser : IntParser) (hasSign : Bool) : parser.limit hasSign < 2 ^ 64 := by
  cases parser <;> cases hasSign <;> simp [limit, width]

theorem parseUint64_sign (hc : c = 0x2d ∨ c = 0x2b) : parseUint64 (c :: s) = none := by
  have hx : ∀ cs, c :: s ≠ 0x30 :: 0x78 :: cs := by
    rintro cs heq
    cases heq
    rcases hc with hc | hc <;> exact absurd hc (by decide)
  rw [parseUint64_decimal (List.cons_ne_nil _ _) hx]
  rcases hc with rfl | rfl <;> simp [parseDigits, parseDigit, within]

theorem run_eq_some {out : Nat} :
    parser.run s = some out ↔
      ∃ hasSign body value, parseSign parser.parseType s = some (hasSign, body) ∧
        parseUint64 body = some value ∧ value ≤ parser.limit hasSign ∧
        (out : Int) = signed hasSign value % 2 ^ parser.width := by
  have hlt : ∀ {s v}, parseUint64 s = some v → v < 2 ^ 64 := by
    intro s v h
    obtain ⟨b, ds, -, -, rfl⟩ := parseUint64_eq_some.mp h
    exact Nat.mod_lt _ (by decide)
  cases parser with
  | uint64 =>
    show parseUint64 s = some out ↔ _
    constructor
    · intro h
      refine ⟨false, s, out, ?_, h, ?_, ?_⟩
      · unfold parseSign
        split
        · rw [parseUint64_sign (.inl rfl)] at h
          cases h
        · rw [parseUint64_sign (.inr rfl)] at h
          cases h
        · rfl
      · have := hlt h
        simp only [limit, width]
        omega
      · have := hlt h
        simp only [signed, width, Bool.false_eq_true, if_false]
        omega
    · rintro ⟨hasSign, body, value, hsign, h, -, hout⟩
      have hbody : hasSign = false ∧ body = s := by
        simp only [parseType] at hsign
        unfold parseSign at hsign
        split at hsign <;> simp_all
      obtain ⟨rfl, rfl⟩ := hbody
      have hvalue : out = value := by
        have := hlt h
        simp only [signed, width, Bool.false_eq_true, if_false] at hout
        omega
      rw [h, hvalue]
  | int32 type =>
    show parseInt32 s type = some out ↔ _
    unfold parseInt32
    simp only [Option.bind_eq_bind, Option.bind_eq_some_iff, Prod.exists]
    constructor
    · rintro ⟨hasSign, body, hsign, value, h, hout⟩
      refine ⟨hasSign, body, value, hsign, h, ?_⟩
      have := hlt h
      cases hasSign <;> simp only [limit, width, signed] <;> simp at hout ⊢ <;> omega
    · rintro ⟨hasSign, body, value, hsign, h, hle, hout⟩
      refine ⟨hasSign, body, hsign, value, h, ?_⟩
      cases hasSign <;> simp only [limit, width, signed] at hle hout <;> simp at hle hout ⊢ <;> omega
  | int64 type =>
    show parseInt64 s type = some out ↔ _
    unfold parseInt64
    simp only [Option.bind_eq_bind, Option.bind_eq_some_iff, Prod.exists]
    constructor
    · rintro ⟨hasSign, body, hsign, value, h, hout⟩
      refine ⟨hasSign, body, value, hsign, h, ?_⟩
      have := hlt h
      cases hasSign <;> simp only [limit, width, signed] <;> simp at hout ⊢ <;> omega
    · rintro ⟨hasSign, body, value, hsign, h, hle, hout⟩
      refine ⟨hasSign, body, hsign, value, h, ?_⟩
      cases hasSign <;> simp only [limit, width, signed] at hle hout <;> simp at hle hout ⊢ <;> omega

theorem inRange_signed {hasSign : Bool} {body : List UInt8} {n : Nat}
    (hsign : parseSign parser.parseType s = some (hasSign, body)) :
    parser.InRange (signed hasSign n) ↔ n ≤ parser.limit hasSign := by
  have hpow : 0 < 2 ^ parser.width := Nat.two_pow_pos _
  cases hasSign with
  | false =>
    have hmin : parser.min ≤ 0 := by
      unfold min
      split
      · exact le_rfl
      · exact Int.neg_nonpos_of_nonneg (Int.pow_nonneg (by decide))
    have hmax : (2 : Int) ^ parser.width = (2 ^ parser.width : Nat) := by norm_cast
    simp only [InRange, signed, limit, Bool.false_eq_true, if_false]
    rw [hmax]
    omega
  | true =>
    have hsigned : parser.parseType = .signedAndUnsigned := by
      unfold parseSign at hsign
      split at hsign
      · split_ifs at hsign with htype
        cases h : parser.parseType with
        | unsignedOnly => exact absurd h htype
        | signedAndUnsigned => rfl
      · split_ifs at hsign
        cases hsign
      · cases hsign
    have hmin : parser.min = -(2 ^ (parser.width - 1) : Nat) := by
      unfold min
      rw [hsigned]
      norm_cast
    have hmax : (2 : Int) ^ parser.width = (2 ^ parser.width : Nat) := by norm_cast
    simp only [InRange, signed, limit, if_true]
    rw [hmin, hmax]
    omega

/-- A numeral that is read although it is none or out of range: each character is taken for a
digit, one of them for 16 or their number is beyond the range, but modulo `2 ^ 64` that number
is in the range, and no prefix of the digits is smaller than the one before it. -/
def Misread (parser : IntParser) (s : List UInt8) : Prop :=
  ∃ hasSign body b ds, parseSign parser.parseType s = some (hasSign, body) ∧
    digitsOf body = some (b, ds) ∧ (16 ∈ ds ∨ parser.limit hasSign < value b ds) ∧
    value b ds % 2 ^ 64 ≤ parser.limit hasSign ∧ NeverDrops (2 ^ 64) b ds

theorem base_pos {ds : List Nat} (h : digitsOf s = some (b, ds)) : 0 < b := by
  unfold digitsOf at h
  split at h
  · cases h
  · split_ifs at h
    obtain ⟨_, -, heq⟩ := Option.map_eq_some_iff.mp h
    cases heq
    decide
  · obtain ⟨_, -, heq⟩ := Option.map_eq_some_iff.mp h
    cases heq
    decide

/-- The integer parsers read the numerals in their range and nothing else, the misread ones
apart. -/
theorem meets_iff (parser : IntParser) (s : List UInt8) : parser.Meets s ↔ ¬ parser.Misread s := by
  constructor
  · rintro hmeets ⟨hasSign, body, b, ds, hsign, hds, hbad, hle, hnever⟩
    have hread := parseUint64_eq_some.mpr ⟨b, ds, hds, hnever, rfl⟩
    obtain ⟨out, hout⟩ : ∃ out : Nat,
        (out : Int) = signed hasSign (value b ds % 2 ^ 64 : Nat) % 2 ^ parser.width := by
      refine ⟨_, Int.toNat_of_nonneg (Int.emod_nonneg _ ?_)⟩
      exact ne_of_gt (Int.pow_pos (by decide))
    have hrun := run_eq_some.mpr ⟨hasSign, body, _, hsign, hread, hle, hout⟩
    obtain ⟨v, hnumeral, hrange, -⟩ := (hmeets out).mp hrun
    obtain ⟨_, _, n, hsign', hbody, rfl⟩ := signedNumeral_iff.mp hnumeral
    rw [hsign] at hsign'
    cases hsign'
    obtain ⟨_, _, hds', h16, rfl⟩ := numeral_iff.mp hbody
    rw [hds] at hds'
    cases hds'
    have hlimit := (inRange_signed hsign).mp hrange
    rcases hbad with h | h
    · exact h16 h
    · omega
  · intro hread out
    rw [run_eq_some]
    constructor
    · rintro ⟨hasSign, body, v, hsign, hv, hle, hout⟩
      obtain ⟨b, ds, hds, hnever, rfl⟩ := parseUint64_eq_some.mp hv
      have hgood : 16 ∉ ds ∧ value b ds ≤ parser.limit hasSign := by
        by_contra hbad
        refine hread ⟨hasSign, body, b, ds, hsign, hds, ?_, hle, hnever⟩
        rw [not_and_or, not_not, Nat.not_le] at hbad
        exact hbad
      obtain ⟨h16, hlimit⟩ := hgood
      have hlt := lt_of_le_of_lt hlimit (parser.limit_lt hasSign)
      rw [Nat.mod_eq_of_lt hlt] at hout
      exact ⟨_, signedNumeral_iff.mpr ⟨hasSign, body, _, hsign,
        numeral_iff.mpr ⟨b, ds, hds, h16, rfl⟩, rfl⟩, (inRange_signed hsign).mpr hlimit, hout⟩
    · rintro ⟨v, hnumeral, hrange, hout⟩
      obtain ⟨hasSign, body, n, hsign, hbody, rfl⟩ := signedNumeral_iff.mp hnumeral
      obtain ⟨b, ds, hds, h16, rfl⟩ := numeral_iff.mp hbody
      have hlimit := (inRange_signed hsign).mp hrange
      have hlt := lt_of_le_of_lt hlimit (parser.limit_lt hasSign)
      have hv := parseUint64_eq_some.mpr ⟨b, ds, hds, neverDrops_of_lt (base_pos hds) hlt, rfl⟩
      rw [Nat.mod_eq_of_lt hlt] at hv
      exact ⟨hasSign, body, _, hsign, hv, hlimit, hout⟩

/-- `30000000000000000000` is read as `30000000000000000000 - 2 ^ 64`: it is more than
`3000000000000000000`. -/
theorem uint64_readsOverflow :
    ¬ uint64.Meets (0x33 :: List.replicate 19 0x30) := by
  intro hmeets
  have hrun : uint64.run (0x33 :: List.replicate 19 0x30) = some 11553255926290448384 := by decide
  obtain ⟨v, hnumeral, hrange, -⟩ := (hmeets _).mp hrun
  obtain ⟨hasSign, body, n, hsign, hbody, rfl⟩ := signedNumeral_iff.mp hnumeral
  obtain ⟨b, ds, hds, -, rfl⟩ := numeral_iff.mp hbody
  have hlimit := (inRange_signed hsign).mp hrange
  cases hsign
  have hdigits : digitsOf (0x33 :: List.replicate 19 0x30) = some (10, 3 :: List.replicate 19 0) := by
    decide
  cases hds.symm.trans hdigits
  exact absurd hlimit (by decide)

end IntParser

end Literal

end SexprWasm
