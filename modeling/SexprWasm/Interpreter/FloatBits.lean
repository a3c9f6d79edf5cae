import SexprWasm.Literal.Float

/-!
# Floats by their bits

The constants, the predicates on raw bits and the operations on `float`
and `double` of `interpreter.c`. The arithmetic is the processor's and
the C library's, and a parameter (`Fpu`); comparisons and the casts to
integers are exact, and defined here.
-/

namespace SexprWasm

namespace Interpreter

open Literal (Format)

/-- The types that have a `FLOAT_TYPE`. -/
inductive FloatType
  | f32 | f64
  deriving DecidableEq, Repr

@[reducible] def FloatType.valueType : FloatType → ValueType
  | .f32 => .f32
  | .f64 => .f64

def FloatType.format : FloatType → Format
  | .f32 => Literal.f32
  | .f64 => Literal.f64

/-- `F32_INF` and `F64_INF`. -/
def FloatType.inf : FloatType → Nat
  | .f32 => 0x7f800000
  | .f64 => 0x7ff0000000000000

/-- `F32_NEG_INF` and `F64_NEG_INF`. -/
def FloatType.negInf : FloatType → Nat
  | .f32 => 0xff800000
  | .f64 => 0xfff0000000000000

/-- `F32_NEG_ZERO` and `F64_NEG_ZERO`. -/
def FloatType.negZero : FloatType → Nat
  | .f32 => 0x80000000
  | .f64 => 0x8000000000000000

/-- `F32_NEG_ONE` and `F64_NEG_ONE`. -/
def FloatType.negOne : FloatType → Nat
  | .f32 => 0xbf800000
  | .f64 => 0xbff0000000000000

/-- `F32_QUIET_NAN` and `F64_QUIET_NAN`. -/
def FloatType.quietNan : FloatType → Nat
  | .f32 => 0x7fc00000
  | .f64 => 0x7ff8000000000000

/-- `F32_QUIET_NAN_BIT` and `F64_QUIET_NAN_BIT`. -/
def FloatType.quietNanBit : FloatType → Nat
  | .f32 => 0x00400000
  | .f64 => 0x0008000000000000

/-- `F32_SIGN_MASK` and `F64_SIGN_MASK`. -/
def FloatType.signMask : FloatType → Nat
  | .f32 => 0x80000000
  | .f64 => 0x8000000000000000

def f32Max : Nat := 0x7f7fffff
def f32NegMax : Nat := 0xff7fffff
def f32SigMask : Nat := 0x7fffff

/-- `is_nan_f32` and `is_nan_f64`. -/
def FloatType.isNan (t : FloatType) (bits : Nat) : Bool :=
  (t.inf < bits ∧ bits < t.negZero) ∨ t.negInf < bits

/-- `is_zero_f32` and `is_zero_f64`. -/
def FloatType.isZero (t : FloatType) (bits : Nat) : Bool := bits = 0 ∨ bits = t.negZero

/-! ## The ranges of the conversions -/

def isInRangeI32TruncSF32 (bits : Nat) : Bool :=
  bits < 0x4f000000 ∨ (FloatType.f32.negZero ≤ bits ∧ bits ≤ 0xcf000000)

def isInRangeI64TruncSF32 (bits : Nat) : Bool :=
  bits < 0x5f000000 ∨ (FloatType.f32.negZero ≤ bits ∧ bits ≤ 0xdf000000)

def isInRangeI32TruncUF32 (bits : Nat) : Bool :=
  bits < 0x4f800000 ∨ (FloatType.f32.negZero ≤ bits ∧ bits < FloatType.f32.negOne)

def isInRangeI64TruncUF32 (bits : Nat) : Bool :=
  bits < 0x5f800000 ∨ (FloatType.f32.negZero ≤ bits ∧ bits < FloatType.f32.negOne)

def isInRangeI32TruncSF64 (bits : Nat) : Bool :=
  bits ≤ 0x41dfffffffc00000 ∨ (FloatType.f64.negZero ≤ bits ∧ bits ≤ 0xc1e0000000000000)

def isInRangeI32TruncUF64 (bits : Nat) : Bool :=
  bits ≤ 0x41efffffffe00000 ∨ (FloatType.f64.negZero ≤ bits ∧ bits < FloatType.f64.negOne)

def isInRangeI64TruncSF64 (bits : Nat) : Bool :=
  bits < 0x43e0000000000000 ∨ (FloatType.f64.negZero ≤ bits ∧ bits ≤ 0xc3e0000000000000)

def isInRangeI64TruncUF64 (bits : Nat) : Bool :=
  bits < 0x43f0000000000000 ∨ (FloatType.f64.negZero ≤ bits ∧ bits < FloatType.f64.negOne)

def isInRangeF64DemoteF32 (bits : Nat) : Bool :=
  bits ≤ 0x47efffffe0000000 ∨ (FloatType.f64.negZero ≤ bits ∧ bits ≤ 0xc7efffffe0000000)

def isInRangeF64DemoteF32RoundToF32Max (bits : Nat) : Bool :=
  0x47efffffe0000000 < bits ∧ bits < 0x47effffff0000000

def isInRangeF64DemoteF32RoundToNegF32Max (bits : Nat) : Bool :=
  0xc7efffffe0000000 < bits ∧ bits < 0xc7effffff0000000

/-! ## Casts and comparisons -/

/-- A number without its sign and its fraction; those with exponent 0 are smaller than 1, and
an exponent of all ones counts as one more. -/
def truncatedMagnitude (f : Format) (exp sig : Nat) : Nat :=
  let shift : Int := exp - f.expBias - f.sigBits
  if exp = 0 then 0 else (2 ^ f.sigBits + sig) <<< shift.toNat >>> (-shift).toNat

/-- The number without its fraction. -/
def truncated (f : Format) (bits : Nat) : Int :=
  let magnitude := truncatedMagnitude f (bits >>> f.sigBits &&& f.expMask) (bits &&& f.sigMask)
  if bits.testBit f.signShift then -magnitude else magnitude

/-- The numbers of an integer type. -/
def InIntRange (signed : Bool) (width : Nat) (x : Int) : Prop :=
  if signed then -2 ^ (width - 1) ≤ x ∧ x < 2 ^ (width - 1) else 0 ≤ x ∧ x < 2 ^ width

instance (signed : Bool) (width : Nat) (x : Int) : Decidable (InIntRange signed width x) :=
  inferInstanceAs (Decidable (ite _ _ _))

/-- The cast of a float to an integer type, which is undefined out of its range. -/
def castToInt (f : Format) (signed : Bool) (width bits : Nat) : Option Int :=
  if InIntRange signed width (truncated f bits) then some (truncated f bits) else none

/-- The place of a float that is not a NaN in the order of the numbers. -/
def orderKey (f : Format) (bits : Nat) : Int :=
  if bits.testBit f.signShift then -(bits % 2 ^ f.signShift : Nat) else (bits % 2 ^ f.signShift : Nat)

/-- The C operators that compare floats. -/
inductive FloatCompare
  | eq | ne | lt | le | gt | ge
  deriving DecidableEq, Repr

def FloatCompare.holds (t : FloatType) (lhs rhs : Nat) : FloatCompare → Bool
  | .eq => !t.isNan lhs && !t.isNan rhs && orderKey t.format lhs == orderKey t.format rhs
  | .ne => t.isNan lhs || t.isNan rhs || orderKey t.format lhs != orderKey t.format rhs
  | .lt => !t.isNan lhs && !t.isNan rhs && orderKey t.format lhs < orderKey t.format rhs
  | .le => !t.isNan lhs && !t.isNan rhs && orderKey t.format lhs ≤ orderKey t.format rhs
  | .gt => !t.isNan lhs && !t.isNan rhs && orderKey t.format rhs < orderKey t.format lhs
  | .ge => !t.isNan lhs && !t.isNan rhs && orderKey t.format rhs ≤ orderKey t.format lhs

/-! ## Arithmetic -/

/-- The functions of the C library that `UNOP_FLOAT` is used with. -/
inductive FloatUnary
  | ceil | floor | trunc | nearbyint | sqrt
  deriving DecidableEq, Repr

/-- The C operators on floats. -/
inductive FloatBinary
  | add | sub | mul | div
  deriving DecidableEq, Repr

/-- Arithmetic on bits. `ofInt`, `demote` and `promote` are casts from an integer, of a
`double` to `float` and of a `float` to `double`. -/
structure Fpu where
  unary : FloatType → FloatUnary → Nat → Nat
  binary : FloatType → FloatBinary → Nat → Nat → Nat
  ofInt : FloatType → Int → Nat
  demote : Nat → Nat
  promote : Nat → Nat

end Interpreter

end SexprWasm
