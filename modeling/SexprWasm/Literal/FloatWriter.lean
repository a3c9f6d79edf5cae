import SexprWasm.Literal.Float

/-!
# Writing floats

`wasm_write_float_hex` and `wasm_write_double_hex` of `literal.c`. The
loop over the fraction gets as many rounds as a word has nybbles and is
`none` if that is not enough.
-/

namespace SexprWasm

namespace Literal

/-- `s_hex_digits`. -/
def hexDigits : List UInt8 :=
  [0x30, 0x31, 0x32, 0x33, 0x34, 0x35, 0x36, 0x37, 0x38, 0x39, 0x61, 0x62, 0x63, 0x64, 0x65, 0x66]

/-- `s_hex_digits[nybble]`. -/
def hexDigit (nybble : Nat) : UInt8 := hexDigits.getD nybble 0

/-- `'0' + digit`. -/
def decimalDigit (digit : Nat) : UInt8 := UInt8.ofNat (0x30 + digit)

namespace Format

variable (f : Format)

/-- The first of the nybbles of a word. -/
def topNybble (sig : Nat) : Nat := (sig >>> (f.bits - 4)) &&& 0xf

/-- The loop that skips leading zeroes; how many nybbles are left. -/
def skipZeroes : Nat → Nat → Nat × Nat
  | 0, sig => (0, sig)
  | n + 1, sig =>
    if sig &&& (0xf <<< (f.bits - 4)) = 0 then skipZeroes n ((sig <<< 4) % 2 ^ f.bits)
    else (n + 1, sig)

/-- The loop over the nybbles of a NaN's tag. -/
def tagNybbles : Nat → Nat → List Nat
  | 0, _ => []
  | n + 1, sig => f.topNybble sig :: tagNybbles n ((sig <<< 4) % 2 ^ f.bits)

/-- The digits of a NaN's tag. -/
def writeTag (sig : Nat) : List UInt8 :=
  let (n, sig) := f.skipZeroes (f.bits / 4) sig
  (f.tagNybbles n sig).map hexDigit

/-- Infinity or NaN. -/
def writeSpecial (sig : Nat) : List UInt8 :=
  if sig = 0 then infinity
  else nan ++ if sig ≠ f.quietNanTag then colonHex ++ f.writeTag sig else []

/-- The loop over the nybbles of the fraction. -/
def fracNybbles : Nat → Nat → Option (List Nat)
  | n, sig =>
    if sig = 0 then some []
    else
      match n with
      | 0 => none
      | n + 1 => (fracNybbles n ((sig <<< 4) % 2 ^ f.bits)).map (f.topNybble sig :: ·)

/-- A subnormal; the significand is shifted up, and the implicit 1 shifted out. -/
def normalize (exp : Int) (sig : Nat) : Nat × Int :=
  let leadingZeroes := f.clz sig
  (if leadingZeroes < f.bits - 1 then (sig <<< (leadingZeroes + 1)) % 2 ^ f.bits else 0,
    exp - leadingZeroes)

/-- The dot and the fraction, and the exponent that goes with it. -/
def writeFraction (exp : Int) (sig : Nat) : Option (List UInt8 × Int) :=
  if sig = 0 then some ([], exp)
  else
    let (sig, exp) := if exp = f.minExp then f.normalize exp sig else (sig, exp)
    (f.fracNybbles (f.bits / 4) sig).map fun nybbles => (0x2e :: nybbles.map hexDigit, exp)

/-- What comes after the `p`. -/
def writeExponent (writeDigits : Nat → List UInt8) (isZero : Bool) (exp : Int) : List UInt8 :=
  if isZero then [0x2b, 0x30]
  else if exp < 0 then 0x2d :: writeDigits (-exp).toNat
  else 0x2b :: writeDigits exp.toNat

/-- A finite number. -/
def writeFinite (writeDigits : Nat → List UInt8) (exp : Int) (sig : Nat) : Option (List UInt8) :=
  let isZero : Bool := sig = 0 ∧ exp = f.minExp
  (f.writeFraction exp ((sig <<< (f.bits - f.sigBits)) % 2 ^ f.bits)).map fun (frac, exp) =>
    zeroX ++ (if isZero then 0x30 else 0x31) :: (frac ++ 0x70 :: writeExponent writeDigits isZero exp)

/-- What is written to `buffer`. -/
def writeHex (writeDigits : Nat → List UInt8) (bits : Nat) : Option (List UInt8) :=
  let isNeg : Bool := bits >>> f.signShift ≠ 0
  let exp : Int := ((bits >>> f.sigBits) &&& f.expMask : Nat) - f.expBias
  let sig := bits &&& f.sigMask
  (if exp = f.maxExp then some (f.writeSpecial sig) else f.writeFinite writeDigits exp sig).map
    ((if isNeg then [0x2d] else []) ++ ·)

end Format

/-- The exponent of a `float`, which has three digits at most, and the first of these is a 1. -/
def floatExponent (exp : Nat) : List UInt8 :=
  (if exp ≥ 100 then [0x31] else []) ++
    ((if exp ≥ 10 then [decimalDigit (exp / 10 % 10)] else []) ++ [decimalDigit (exp % 10)])

/-- The exponent of a `double`. -/
def doubleExponent (exp : Nat) : List UInt8 :=
  (if exp ≥ 1000 then [0x31] else []) ++
    ((if exp ≥ 100 then [decimalDigit (exp / 100 % 10)] else []) ++
      ((if exp ≥ 10 then [decimalDigit (exp / 10 % 10)] else []) ++ [decimalDigit (exp % 10)]))

/-- `WASM_MAX_FLOAT_HEX`. -/
def maxFloatHex : Nat := 20

/-- `WASM_MAX_DOUBLE_HEX`. -/
def maxDoubleHex : Nat := 40

/-- The text is copied to the caller's buffer, cut short if that is too small for it. -/
def copyOut (size : Nat) (text : List UInt8) : List UInt8 :=
  if text.length ≥ size then text.take (size - 1) else text

/-- `wasm_write_float_hex`. -/
def writeFloatHex (size bits : Nat) : Option (List UInt8) :=
  (f32.writeHex floatExponent bits).map (copyOut size)

/-- `wasm_write_double_hex`. -/
def writeDoubleHex (size bits : Nat) : Option (List UInt8) :=
  (f64.writeHex doubleExponent bits).map (copyOut size)

end Literal

end SexprWasm
