import SexprWasm.Literal.Float
import Mathlib.Data.Rat.Defs
import Mathlib.Algebra.Field.Rat
import Mathlib.Algebra.Order.Field.Rat

/-!
# The number tokens of the lexer

The rules `nat`, `int`, `float`, `hexfloat`, `infinity` and `nan` of
`ast-lexer.c` with the literal type each of them gives. A token of the
rule `hexfloat` is a `HexFloat`, the parts it is made of, and `exact` is
the number it denotes.
-/

namespace SexprWasm

namespace Literal

/-- `digit`. -/
def IsDigit (c : UInt8) : Prop := (parseDigit c).isSome

instance (c : UInt8) : Decidable (IsDigit c) := inferInstanceAs (Decidable (_ = true))

/-- `hexdigit`. -/
def IsHexdigit (c : UInt8) : Prop := (hexdigit c).isSome

instance (c : UInt8) : Decidable (IsHexdigit c) := inferInstanceAs (Decidable (_ = true))

/-- The number a digit stands for. -/
def digitValue (c : UInt8) : Nat := (hexdigit c).getD 0

/-- `sign?`; `some true` is the minus sign. -/
def signText : Option Bool → List UInt8
  | none => []
  | some true => [0x2d]
  | some false => [0x2b]

/-- `hexfloat`: the digits before the dot and, if there is one, after it, and the exponent. -/
structure HexFloat where
  sign : Option Bool
  int : List UInt8
  frac : Option (List UInt8)
  expSign : Option Bool
  exp : List UInt8
  int_ne : int ≠ []
  exp_ne : exp ≠ []
  int_digits : ∀ c ∈ int, IsHexdigit c
  frac_digits : ∀ cs ∈ frac, ∀ c ∈ cs, IsHexdigit c
  exp_digits : ∀ c ∈ exp, IsDigit c

namespace HexFloat

variable (h : HexFloat)

def fracText : List UInt8 :=
  match h.frac with
  | none => []
  | some cs => 0x2e :: cs

/-- The characters of the token. -/
def text : List UInt8 :=
  signText h.sign ++ (zeroX ++ (h.int ++ (h.fracText ++ 0x70 :: (signText h.expSign ++ h.exp))))

def isNeg : Bool := h.sign = some true

def intDigits : List Nat := h.int.map digitValue

def fracDigits : List Nat := (h.frac.getD []).map digitValue

def expDigits : List Nat := h.exp.map digitValue

/-- All digits of the significand. -/
def digits : List Nat := h.intDigits ++ h.fracDigits

/-- The exponent that is written. -/
def exponent : Int :=
  if h.expSign = some true then -(Digits.value 10 h.expDigits : Int)
  else Digits.value 10 h.expDigits

/-- The number denoted, without its sign. -/
def exact : ℚ :=
  (Digits.value 16 h.digits : ℚ) * 2 ^ (h.exponent - 4 * (h.fracDigits.length : Int))

end HexFloat

/-- The tokens with their literal types. -/
inductive Token : LiteralType → List UInt8 → Prop
  | nat {s : List UInt8} {n : Nat} (numeral : Numeral s n) : Token .int s
  | int {s : List UInt8} {n : Nat} (sign : Bool) (numeral : Numeral s n) :
      Token .int (signText (some sign) ++ s)
  | float0 {num digits : List UInt8} (sign : Option Bool) (num_ne : num ≠ [])
      (num_digits : ∀ c ∈ num, IsDigit c) (all_digits : ∀ c ∈ digits, IsDigit c) :
      Token .float (signText sign ++ (num ++ 0x2e :: digits))
  | float1 {num exp : List UInt8} (sign : Option Bool) (frac : Option (List UInt8))
      (e : UInt8) (expSign : Option Bool) (num_ne : num ≠ []) (exp_ne : exp ≠ [])
      (num_digits : ∀ c ∈ num, IsDigit c) (frac_digits : ∀ cs ∈ frac, ∀ c ∈ cs, IsDigit c)
      (e_eq : e = 0x65 ∨ e = 0x45) (exp_digits : ∀ c ∈ exp, IsDigit c) :
      Token .float (signText sign ++ (num ++ ((frac.map (0x2e :: ·)).getD [] ++
        e :: (signText expSign ++ exp))))
  | hexfloat (h : HexFloat) : Token .hexfloat h.text
  | inf (sign : Option Bool) : Token .infinity (signText sign ++ infinity.take 3)
  | infinity (sign : Option Bool) : Token .infinity (signText sign ++ infinity)
  | nan (sign : Option Bool) : Token .nan (signText sign ++ nan)
  | nanTag {cs : List UInt8} (sign : Option Bool) (ne : cs ≠ [])
      (digits : ∀ c ∈ cs, IsHexdigit c) :
      Token .nan (signText sign ++ (nan ++ (colonHex ++ cs)))

end Literal

end SexprWasm
