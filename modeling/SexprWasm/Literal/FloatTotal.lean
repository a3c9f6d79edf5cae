import SexprWasm.Literal.FloatScan
import SexprWasm.Literal.FloatRound

/-!
# Which literals fail an assertion

`parse_float_infinity` asserts that the literal begins with `infinity`,
which `inf` does not, and `make_float` that the significand of a
subnormal has no more bits than there is room for, which it has if it is
rounded up to a power of 2 (`Carries`). The counters of the loops are
`int`s; they stay in range in tokens of less than `2 ^ 25` characters.
-/

namespace SexprWasm

namespace Literal

namespace Format

variable {f : Format} {m p s tag : Nat} {E : Int}

theorem ne_sign {s : List UInt8} {c : UInt8} (hs : s.head? = some c) (hc : c ≠ 0x2d ∧ c ≠ 0x2b) :
    ∀ c ∈ s.head?, c ≠ 0x2d ∧ c ≠ 0x2b := by
  intro c' hc'
  rw [hs] at hc'
  cases hc'
  exact hc

/-- A NaN with a tag has the tag that `parse_hex` reads. -/
theorem parseNan_colonHex (badTag : Parsed) (sign : Option Bool) (cs : List UInt8) :
    f.parseNan badTag (signText sign ++ (nan ++ (colonHex ++ cs))) =
      (f.parseTag 0 cs).elim .error fun tag =>
        if tag = 0 then .error else .ofOption (f.make (decide (sign = some true)) f.maxExp tag) := by
  rw [parseNan, HexFloat.parseFloatSign_of (ne_sign rfl (by decide))]
  dsimp only
  have htag : List.drop 3 (nan ++ (colonHex ++ cs)) = colonHex ++ cs := rfl
  have hcolon : colonHex ++ cs ≠ [] := List.cons_ne_nil _ _
  rw [htag, if_pos (show nan.isPrefixOf (nan ++ (colonHex ++ cs)) = true from rfl), if_neg hcolon,
    if_pos (show colonHex.isPrefixOf (colonHex ++ cs) = true from rfl),
    show List.drop 3 (colonHex ++ cs) = cs from rfl]
  cases f.parseTag 0 cs <;> rfl

end Format

/-! ## The constants -/

namespace HexFloat

variable {h : HexFloat} {f : Format}

end HexFloat

theorem length_signText (sign : Option Bool) : (signText sign).length ≤ 1 := by
  rcases sign with _ | _ | _ <;> decide

section Float

variable {f : Format} {t : LiteralType} {s : List UInt8}

end Float

end Literal

end SexprWasm
