import SexprWasm.Lib.Digits

/-!
# Integer literals

The functions of `literal.c` that read integers, over the bytes between
`s` and `end`. `WASM_ERROR` is `none`; numbers of 64 bits are naturals
below `2 ^ 64`. The sign is looked at before `s` is compared with `end`,
which for no bytes at all reads the byte after them; the result is
`WASM_ERROR` whatever that byte is.

`Numeral` and `Meets` say what the functions are for: the grammar of the
numerals, and that a function reads those in its range and nothing else.
-/

namespace SexprWasm

namespace Literal

/-- `(unsigned int)(c - lo) <= n`. -/
def within (c : UInt8) (lo n : Nat) : Prop := lo ≤ c.toNat ∧ c.toNat - lo ≤ n

instance (c : UInt8) (lo n : Nat) : Decidable (within c lo n) :=
  inferInstanceAs (Decidable (_ ∧ _))

/-- `wasm_parse_hexdigit`. -/
def parseHexdigit (c : UInt8) : Option Nat :=
  if within c 0x30 9 then some (c.toNat - 0x30)
  else if within c 0x61 6 then some (10 + (c.toNat - 0x61))
  else if within c 0x41 6 then some (10 + (c.toNat - 0x41))
  else none

/-- The digit of the decimal loop in `wasm_parse_uint64`. -/
def parseDigit (c : UInt8) : Option Nat :=
  if within c 0x30 9 then some (c.toNat - 0x30) else none

/-- The loops in `wasm_parse_uint64`. -/
def parseDigits (digit? : UInt8 → Option Nat) (base : Nat) : Nat → List UInt8 → Option Nat
  | value, [] => some value
  | oldValue, c :: cs =>
    match digit? c with
    | none => none
    | some digit =>
      let value := (oldValue * base + digit) % 2 ^ 64
      if oldValue > value then none else parseDigits digit? base value cs

/-- `wasm_parse_uint64`. -/
def parseUint64 (s : List UInt8) : Option Nat :=
  match s with
  | [] => none
  | 0x30 :: 0x78 :: s => if s = [] then none else parseDigits parseHexdigit 16 0 s
  | s => parseDigits parseDigit 10 0 s

/-- `WasmParseIntType`. -/
inductive ParseIntType
  | unsignedOnly
  | signedAndUnsigned
  deriving DecidableEq, Repr

/-- The sign in `wasm_parse_int64` and `wasm_parse_int32`: `has_sign`, and what is left. -/
def parseSign (parseType : ParseIntType) (s : List UInt8) : Option (Bool × List UInt8) :=
  match s with
  | 0x2d :: s => if parseType = .unsignedOnly then none else some (true, s)
  | 0x2b :: s => if parseType = .unsignedOnly then none else some (false, s)
  | s => some (false, s)

/-- `wasm_parse_int64`. -/
def parseInt64 (s : List UInt8) (parseType : ParseIntType) : Option Nat := do
  let (hasSign, s) ← parseSign parseType s
  let value ← parseUint64 s
  if hasSign then
    if value > 2 ^ 63 then none else some ((2 ^ 64 - 1 - value + 1) % 2 ^ 64)
  else some value

/-- `wasm_parse_int32`. -/
def parseInt32 (s : List UInt8) (parseType : ParseIntType) : Option Nat := do
  let (hasSign, s) ← parseSign parseType s
  let value ← parseUint64 s
  if hasSign then
    if value > 2 ^ 31 then none else some ((2 ^ 32 - 1 - value + 1) % 2 ^ 32)
  else if value > 2 ^ 32 - 1 then none
  else some (value % 2 ^ 32)

/-! ## What the functions are for -/

/-- `hexdigit` of the text grammar. -/
def hexdigit (c : UInt8) : Option Nat :=
  if within c 0x30 9 then some (c.toNat - 0x30)
  else if within c 0x61 5 then some (10 + (c.toNat - 0x61))
  else if within c 0x41 5 then some (10 + (c.toNat - 0x41))
  else none

/-- Digits in base `b`, at least one, and the number they denote. -/
def Denotes (digit? : UInt8 → Option Nat) (b : Nat) (cs : List UInt8) (n : Nat) : Prop :=
  cs ≠ [] ∧ ∃ ds, cs.mapM digit? = some ds ∧ n = Digits.value b ds

/-- `nat` of the text grammar: `num` or `hexnum`, and the number. -/
inductive Numeral : List UInt8 → Nat → Prop
  | num {cs : List UInt8} {n : Nat} (digits : Denotes parseDigit 10 cs n) : Numeral cs n
  | hexnum {cs : List UInt8} {n : Nat} (digits : Denotes hexdigit 16 cs n) :
      Numeral (0x30 :: 0x78 :: cs) n

/-- `nat` or, with a sign, `int` of the text grammar. -/
inductive SignedNumeral (parseType : ParseIntType) : List UInt8 → Int → Prop
  | nat {s : List UInt8} {n : Nat} (numeral : Numeral s n) : SignedNumeral parseType s n
  | plus {s : List UInt8} {n : Nat} (signed : parseType = .signedAndUnsigned)
      (numeral : Numeral s n) : SignedNumeral parseType (0x2b :: s) n
  | minus {s : List UInt8} {n : Nat} (signed : parseType = .signedAndUnsigned)
      (numeral : Numeral s n) : SignedNumeral parseType (0x2d :: s) (-n)

/-- The three functions, the last two in each mode. -/
inductive IntParser
  | uint64
  | int32 (parseType : ParseIntType)
  | int64 (parseType : ParseIntType)
  deriving DecidableEq, Repr

namespace IntParser

def run : IntParser → List UInt8 → Option Nat
  | uint64, s => parseUint64 s
  | int32 parseType, s => parseInt32 s parseType
  | int64 parseType, s => parseInt64 s parseType

/-- `wasm_parse_uint64` takes no sign. -/
def parseType : IntParser → ParseIntType
  | uint64 => .unsignedOnly
  | int32 parseType => parseType
  | int64 parseType => parseType

/-- The bits of the result. -/
def width : IntParser → Nat
  | uint64 => 64
  | int32 _ => 32
  | int64 _ => 64

/-- The smallest number of the type in the mode. -/
def min (parser : IntParser) : Int :=
  match parser.parseType with
  | .unsignedOnly => 0
  | .signedAndUnsigned => -2 ^ (parser.width - 1)

/-- The range of the type in the mode. -/
def InRange (parser : IntParser) (v : Int) : Prop := parser.min ≤ v ∧ v < 2 ^ parser.width

/-- The function reads the numerals in its range, and nothing else. -/
def Meets (parser : IntParser) (s : List UInt8) : Prop :=
  ∀ out, parser.run s = some out ↔
    ∃ v, SignedNumeral parser.parseType s v ∧ parser.InRange v ∧ (out : Int) = v % 2 ^ parser.width

end IntParser

end Literal

end SexprWasm
