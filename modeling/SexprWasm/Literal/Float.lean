import SexprWasm.Common
import SexprWasm.Literal.Integer

/-!
# Float literals

The functions of `literal.c` that read and write floats. Those for
`float` and those for `double` are the same but for the constants, which
`Format` stands for; where they differ the definition takes the
difference as an argument. Words of 32 and 64 bits are naturals below
`2 ^ bits`.

A failing assertion is `none` or `abort`, and so is an `int` that
overflows: the counters of the loops may do that in literals of `2 ^ 25`
characters and more. `strtof` and `strtod` are arguments.
-/

namespace SexprWasm

namespace Literal

/-- An `int`. -/
@[irreducible] def int (x : Int) : Option Int := if -2 ^ 31 ≤ x ∧ x < 2 ^ 31 then some x else none

/-- `sizeof` in bits, and `F32_SIG_BITS` or `F64_SIG_BITS`. -/
structure Format where
  bits : Nat
  sigBits : Nat
  le_bits : sigBits + 9 ≤ bits
  bits_le : bits ≤ sigBits + 12
  le_sigBits : 23 ≤ sigBits
  sigBits_le : sigBits ≤ 52
  deriving DecidableEq

namespace Format

variable (f : Format)

/-- `F32_SIG_MASK`. -/
def sigMask : Nat := 2 ^ f.sigBits - 1

/-- `F32_SIG_PLUS_ONE_BITS`. -/
def sigPlusOneBits : Nat := f.sigBits + 1

/-- `F32_SIG_PLUS_ONE_MASK`. -/
def sigPlusOneMask : Nat := 2 ^ f.sigPlusOneBits - 1

/-- `F32_SIGN_SHIFT`. -/
def signShift : Nat := f.bits - 1

/-- `F32_EXP_MASK`. -/
def expMask : Nat := 2 ^ (f.signShift - f.sigBits) - 1

/-- `F32_EXP_BIAS`. -/
def expBias : Nat := 2 ^ (f.signShift - f.sigBits - 1) - 1

/-- `F32_MIN_EXP`. -/
def minExp : Int := -f.expBias

/-- `F32_MAX_EXP`. -/
def maxExp : Int := f.expBias + 1

/-- `F32_QUIET_NAN_TAG`. -/
def quietNanTag : Nat := 2 ^ (f.sigBits - 1)

/-- `wasm_clz_u32`. -/
def clz (n : Nat) : Nat := f.bits - 1 - n.log2

end Format

/-- The `F32` constants. -/
def f32 : Format := ⟨32, 23, by decide, by decide, by decide, by decide⟩

/-- The `F64` constants. -/
def f64 : Format := ⟨64, 52, by decide, by decide, by decide, by decide⟩

example : f32.sigMask = 0x7fffff ∧ f32.sigPlusOneMask = 0xffffff ∧ f32.expMask = 0xff ∧
    f32.expBias = 127 ∧ f32.quietNanTag = 0x400000 := by decide

example : f64.sigMask = 0xfffffffffffff ∧ f64.sigPlusOneMask = 0x1fffffffffffff ∧
    f64.expMask = 0x7ff ∧ f64.expBias = 1023 ∧ f64.quietNanTag = 0x8000000000000 := by decide

namespace Format

variable (f : Format)

/-! ## Reading -/

/-- `make_float`. -/
def make (sign : Bool) (exp : Int) (sig : Nat) : Option Nat :=
  if f.minExp ≤ exp ∧ exp ≤ f.maxExp ∧ sig ≤ f.sigMask then
    some (sign.toNat <<< f.signShift ||| (exp + f.expBias).toNat <<< f.sigBits ||| sig)
  else none

/-- `shift_float_and_round_to_nearest`. -/
def shiftAndRoundToNearest (significand shift : Nat) : Option Nat :=
  if shift = 0 then none
  else if significand.testBit shift then
    some (((significand + 1 <<< (shift - 1)) % 2 ^ f.bits) >>> shift)
  else some (significand >>> shift)

end Format

/-- The sign all of the functions begin with. -/
def parseFloatSign : List UInt8 → Bool × List UInt8
  | 0x2d :: s => (true, s)
  | 0x2b :: s => (false, s)
  | s => (false, s)

/-- What a function comes to: `WASM_OK`, `WASM_ERROR` or a failing assertion. -/
inductive Parsed
  | ok (bits : Nat)
  | error
  | abort
  deriving DecidableEq, Repr

def Parsed.ofOption : Option Nat → Parsed
  | some bits => .ok bits
  | none => .abort

/-- `nan`. -/
def nan : List UInt8 := [0x6e, 0x61, 0x6e]

/-- `:0x`. -/
def colonHex : List UInt8 := [0x3a, 0x30, 0x78]

/-- `0x`. -/
def zeroX : List UInt8 := [0x30, 0x78]

/-- `infinity`. -/
def infinity : List UInt8 := [0x69, 0x6e, 0x66, 0x69, 0x6e, 0x69, 0x74, 0x79]

namespace Format

variable (f : Format)

/-- The loop of `parse_float_nan`. -/
def parseTag : Nat → List UInt8 → Option Nat
  | tag, [] => some tag
  | tag, c :: s =>
    match parseHexdigit c with
    | none => none
    | some digit =>
      let tag := (tag * 16 + digit) % 2 ^ f.bits
      if tag > f.sigMask then none else parseTag tag s

/-- `parse_float_nan`; `badTag` is what another character than `:` after `nan` leads to. -/
def parseNan (badTag : Parsed) (s : List UInt8) : Parsed :=
  let (isNeg, s) := parseFloatSign s
  if nan.isPrefixOf s then
    let s := s.drop 3
    if s = [] then .ofOption (f.make isNeg f.maxExp f.quietNanTag)
    else if colonHex.isPrefixOf s then
      match f.parseTag 0 (s.drop 3) with
      | none => .error
      | some tag => if tag = 0 then .error else .ofOption (f.make isNeg f.maxExp tag)
    else badTag
  else .abort

/-- `parse_float_infinity`. -/
def parseInfinity (s : List UInt8) : Option Nat :=
  let (isNeg, s) := parseFloatSign s
  if infinity.isPrefixOf s then f.make isNeg f.maxExp 0 else none

end Format

/-- The variables of the first loop in `parse_float_hex`: `significand_shift` is by how much the
significand is shifted if another digit is added to it. -/
structure Scan where
  seenDot : Bool := false
  significand : Nat := 0
  shift : Int := 0
  bits : Int := 0
  exponent : Int := 0
  deriving DecidableEq, Repr

namespace Scan

/-- The loop at a `.`. -/
def dot (st : Scan) : Option Scan := do
  let exponent ← if st.significand ≠ 0 then int (st.exponent + st.shift) else some st.exponent
  some { st with seenDot := true, shift := 0, exponent }

/-- The digit is added to the significand. -/
def append (f : Format) (digit : Nat) (st : Scan) : Option Scan := do
  let significand :=
    if st.significand ≠ 0 then (st.significand <<< st.shift.toNat) % 2 ^ f.bits else st.significand
  let exponent ← if st.seenDot then int (st.exponent - st.shift) else some st.exponent
  let bits ← int (st.bits + 4)
  some { st with significand := (significand + digit) % 2 ^ f.bits, shift := 0, bits, exponent }

/-- The loop at a digit. -/
def digit (f : Format) (digit : Nat) (st : Scan) : Option Scan := do
  let shift ← int (st.shift + 4)
  let st := { st with shift }
  if digit = 0 then some st
  else if st.significand = 0 then st.append f digit
  else
    let bits ← int (st.bits + shift)
    if bits ≤ f.sigBits + 1 + 4 then st.append f digit else some st

/-- The loop, up to the first other character. -/
def run (f : Format) (st : Scan) : List UInt8 → Option (Scan × List UInt8)
  | [] => some (st, [])
  | c :: s =>
    if c = 0x2e then do
      let st ← st.dot
      st.run f s
    else
      match parseHexdigit c with
      | none => some (st, c :: s)
      | some digit => do
        let st ← st.digit f digit
        st.run f s

/-- `significand_exponent` after the loop. -/
def finalExponent (st : Scan) : Option Int :=
  if st.seenDot then some st.exponent else int (st.exponent + st.shift)

end Scan

namespace Format

variable (f : Format)

/-- The loop over the exponent in `parse_float_hex`. -/
def scanExponent (add : Int) (exponent : Int) : List UInt8 → Option Int
  | [] => some exponent
  | c :: s => do
    let digit ← parseDigit c
    let exponent ← int (exponent * 10 + digit)
    let sum ← int (exponent + add)
    if sum ≥ f.maxExp then some exponent else scanExponent add exponent s

/-- `exponent_is_neg`, `significand_exponent_add` and what is left after the sign. -/
def parseExponentSign (significandExponent : Int) : List UInt8 → Option (Bool × Int × List UInt8)
  | 0x2d :: s => do
    let add ← int (-significandExponent)
    some (true, add, s)
  | 0x2b :: s => some (false, significandExponent, s)
  | s => some (false, 0, s)

/-- The significand is rounded, or shifted up, to this many bits. -/
def toPrecision (precision significand : Nat) : Option Nat :=
  let significandBits := f.bits - f.clz significand
  if significandBits > precision then
    f.shiftAndRoundToNearest significand (significandBits - precision)
  else some ((significand <<< (precision - significandBits)) % 2 ^ f.bits)

/-- The second rounding of a subnormal. -/
def denormalize (significand shift : Nat) : Option Nat :=
  if shift ≠ 0 then (f.shiftAndRoundToNearest significand shift).map (· &&& f.sigMask)
  else some significand

/-- The branch of `parse_float_hex` for what may be subnormal. -/
def roundSubnormal (isNeg : Bool) (significand : Nat) (exponent : Int) : Option Nat := do
  let significand ← f.toPrecision f.sigBits significand
  let shift := (f.minExp - exponent).toNat
  if shift < f.sigBits then
    let significand ← f.denormalize significand shift
    if significand ≠ 0 then f.make isNeg f.minExp significand else f.make isNeg f.minExp 0
  else f.make isNeg f.minExp 0

/-- The branch of `parse_float_hex` for a normal value. -/
def roundNormal (isNeg : Bool) (significand : Nat) (exponent : Int) : Option Nat := do
  let rounded ← f.toPrecision f.sigPlusOneBits significand
  if f.bits - f.clz significand > f.sigPlusOneBits ∧ rounded > f.sigPlusOneMask then
    f.make isNeg (exponent + 1) (rounded &&& f.sigMask)
  else f.make isNeg exponent (rounded &&& f.sigMask)

/-- The end of `parse_float_hex`, from the significand and the exponent of its first bit. -/
def round (isNeg : Bool) (significand : Nat) (exponent : Int) : Option Nat :=
  if exponent ≥ f.maxExp then f.make isNeg f.maxExp 0
  else if exponent ≤ f.minExp then f.roundSubnormal isNeg significand exponent
  else f.roundNormal isNeg significand exponent

/-- The part of `parse_float_hex` after the `p`. -/
def parseHexExponent (isNeg : Bool) (significand : Nat) (significandExponent : Int)
    (s : List UInt8) : Option Nat :=
  if significand = 0 then f.make isNeg f.minExp 0
  else if s = [] then none
  else do
    let (exponentIsNeg, add, s) ← parseExponentSign significandExponent s
    let exponent ← f.scanExponent add 0 s
    let exponent := if exponentIsNeg then -exponent else exponent
    let sum ← int (significandExponent + ((f.bits - f.clz significand : Nat) : Int))
    let exponent ← int (exponent + (sum - 1))
    f.round isNeg significand exponent

/-- `parse_float_hex`. -/
def parseHex (s : List UInt8) : Option Nat := do
  let (isNeg, s) := parseFloatSign s
  if zeroX.isPrefixOf s then
    let (st, s) ← Scan.run f {} (s.drop 2)
    let significandExponent ← st.finalExponent
    match s with
    | 0x70 :: s => f.parseHexExponent isNeg st.significand significandExponent s
    | _ => none
  else none

end Format

/-- `parse_float_nan` asserts that `:0x` follows. -/
def parseFloatNan : List UInt8 → Parsed := f32.parseNan .abort

/-- `parse_double_nan` checks that `:0x` follows. -/
def parseDoubleNan : List UInt8 → Parsed := f64.parseNan .error

def parseFloatHex : List UInt8 → Option Nat := f32.parseHex

def parseDoubleHex : List UInt8 → Option Nat := f64.parseHex

def parseFloatInfinity : List UInt8 → Option Nat := f32.parseInfinity

def parseDoubleInfinity : List UInt8 → Option Nat := f64.parseInfinity

/-- `WasmLiteralType`. -/
inductive LiteralType
  | int | float | hexfloat | infinity | nan
  deriving DecidableEq, Repr

/-- `strtof` and `strtod`: the bits, if the whole literal is read and `errno` is not set. -/
structure Decimal where
  strtof : List UInt8 → Option Nat
  strtod : List UInt8 → Option Nat

/-- A decimal literal that is not read, or out of range, is an error. -/
def Parsed.ofDecimal : Option Nat → Parsed
  | some bits => .ok bits
  | none => .error

/-- `wasm_parse_float`. -/
def parseFloat (decimal : Decimal) (literalType : LiteralType) (s : List UInt8) : Parsed :=
  match literalType with
  | .int | .float => .ofDecimal (decimal.strtof s)
  | .hexfloat => .ofOption (parseFloatHex s)
  | .infinity => .ofOption (parseFloatInfinity s)
  | .nan => parseFloatNan s

/-- `wasm_parse_double`. -/
def parseDouble (decimal : Decimal) (literalType : LiteralType) (s : List UInt8) : Parsed :=
  match literalType with
  | .int | .float => .ofDecimal (decimal.strtod s)
  | .hexfloat => .ofOption (parseDoubleHex s)
  | .infinity => .ofOption (parseDoubleInfinity s)
  | .nan => parseDoubleNan s

/-- `parse_const` of `ast-parser.y`. -/
def parseConst (decimal : Decimal) (type : ValueType) (literalType : LiteralType)
    (s : List UInt8) : Parsed :=
  match type with
  | .i32 => .ofDecimal (parseInt32 s .signedAndUnsigned)
  | .i64 => .ofDecimal (parseInt64 s .signedAndUnsigned)
  | .f32 => parseFloat decimal literalType s
  | .f64 => parseDouble decimal literalType s

end Literal

end SexprWasm
