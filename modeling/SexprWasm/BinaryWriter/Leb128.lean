import SexprWasm.Leb128

/-!
# LEB128 integers, writing

The LEB128 functions of `binary-writer.c`, as the bytes they put into
their array `data`. `value` is a mathematical integer of the range of
its C type; `>>` of a signed value rounds down, as it does where the
shift is arithmetic.
-/

namespace SexprWasm

def maxU32Leb128Bytes : Nat := 5

def maxU64Leb128Bytes : Nat := 10

/-- `LEB128_LOOP_UNTIL(end_cond)` with `room` bytes left in `data`; `none` where it would write
past the end of `data`. The condition sees the value after the shift and the byte before it. -/
def leb128LoopUntil (endCond : Int → Nat → Bool) : Nat → Int → Option (List UInt8)
  | 0, _ => none
  | room + 1, value =>
    let byte := (value % 0x80).toNat
    let value := value / 0x80
    if endCond value byte then some [UInt8.ofNat byte]
    else (leb128LoopUntil endCond room value).map (UInt8.ofNat (byte + 0x80) :: ·)

/-- `byte & 0x40`. -/
def byteIsNegative (byte : Nat) : Bool := byte / 0x40 % 2 = 1

/-- `wasm_write_u32_leb128_at`. -/
def wasmWriteU32Leb128 (value : Int) : Option (List UInt8) :=
  leb128LoopUntil (fun value _ => value = 0) maxU32Leb128Bytes value

/-- The two loops of the signed writers. -/
def writeSignedLeb128 (room : Nat) (value : Int) : Option (List UInt8) :=
  if value < 0 then leb128LoopUntil (fun value byte => value = -1 && byteIsNegative byte) room value
  else leb128LoopUntil (fun value byte => value = 0 && !byteIsNegative byte) room value

def wasmWriteI32Leb128 (value : Int) : Option (List UInt8) :=
  writeSignedLeb128 maxU32Leb128Bytes value

def writeI64Leb128 (value : Int) : Option (List UInt8) := writeSignedLeb128 maxU64Leb128Bytes value

/-- `wasm_write_fixed_u32_leb128_raw`, with room for its five bytes. -/
def wasmWriteFixedU32Leb128 (value : Nat) : List UInt8 :=
  [UInt8.ofNat (value % 0x80 + 0x80), UInt8.ofNat (value / 2 ^ 7 % 0x80 + 0x80),
    UInt8.ofNat (value / 2 ^ 14 % 0x80 + 0x80), UInt8.ofNat (value / 2 ^ 21 % 0x80 + 0x80),
    UInt8.ofNat (value / 2 ^ 28 % 0x10)]

end SexprWasm
