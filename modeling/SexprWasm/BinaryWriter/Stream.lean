import SexprWasm.BinaryWriter.Leb128
import SexprWasm.Lib.Buffer

/-!
# The stream, and lengths filled in later

`stream.c` over the memory writer of `writer.c`, and the functions of
`binary-writer.c` that leave room for a length and fill it in once it is
known. `buf` holds the bytes of the output buffer up to its `size`, and a
gap that a write leaves holds zeros; the writers here leave none. Offsets
are `size_t`, but the LEB128 writers take theirs as `uint32_t`. A failed
assertion is `none`. The dump that goes to a log stream is left out.
-/

namespace SexprWasm

/-- `WasmWriteBinaryOptions`. -/
structure WriteBinaryOptions where
  canonicalizeLebs : Bool := true
  writeDebugNames : Bool := false
  isInvalid : Bool := false
  deriving DecidableEq, Repr

namespace BinaryWriter

/-- `buf` and `offset` are the stream's. -/
structure Context where
  buf : List UInt8 := []
  offset : Nat := 0
  lastSectionOffset : Nat := 0
  lastSectionLebSizeGuess : Nat := 0
  deriving DecidableEq, Repr

abbrev WriteM (α : Type) : Type := StateT Context Option α

def assert (c : Bool) : WriteM Unit := fun s => if c then some ((), s) else none

/-- The bytes of a LEB128 writer, which does not run out of room. -/
def orAbort {α : Type} (a : Option α) : WriteM α := fun s => a.map fun a => (a, s)

namespace WasmStream

def wasmWriteDataAt (offset : Nat) (src : List UInt8) : WriteM Unit :=
  modify fun c => { c with buf := Buffer.writeAt 0 c.buf offset src }

def wasmWriteData (src : List UInt8) : WriteM Unit := do
  let c ← get
  wasmWriteDataAt c.offset src
  modify fun c => { c with offset := c.offset + src.length }

def wasmMoveData (dstOffset srcOffset size : Nat) : WriteM Unit :=
  modify fun c =>
    { c with buf := Buffer.writeAt 0 c.buf dstOffset (Buffer.window c.buf srcOffset size) }

def wasmWriteU8 (value : Nat) : WriteM Unit := do
  assert (value ≤ 0xff)
  wasmWriteData [UInt8.ofNat value]

def wasmWriteU32 (value : Nat) : WriteM Unit := wasmWriteData (Buffer.leBytes 4 value)

def wasmWriteU64 (value : Nat) : WriteM Unit := wasmWriteData (Buffer.leBytes 8 value)

/-- `wasm_write_u32_leb128_at`; the value is converted to `uint32_t` by the call. -/
def wasmWriteU32Leb128At (offset : Nat) (value : Int) : WriteM Nat := do
  let data ← orAbort (SexprWasm.wasmWriteU32Leb128 (value % maxU32))
  wasmWriteDataAt (u32 offset) data
  return data.length

/-- `wasm_write_u32_leb128`. -/
def writeU32Leb128 (value : Int) : WriteM Unit := do
  let c ← get
  let length ← wasmWriteU32Leb128At c.offset value
  modify fun c => { c with offset := c.offset + length }

def wasmWriteFixedU32Leb128At (offset value : Nat) : WriteM Unit :=
  wasmWriteDataAt (u32 offset) (SexprWasm.wasmWriteFixedU32Leb128 value)

/-- `wasm_write_i32_leb128`; the value is converted to `int32_t` by the call. -/
def writeI32Leb128 (value : Int) : WriteM Unit := do
  let data ← orAbort (SexprWasm.wasmWriteI32Leb128 (cInt value))
  wasmWriteData data

/-- `write_i64_leb128`; the value is converted to `int64_t` by the call. -/
def writeI64Leb128 (value : Int) : WriteM Unit := do
  let data ← orAbort (SexprWasm.writeI64Leb128 (value.bmod maxU64))
  wasmWriteData data

def wasmWriteStr (s : List UInt8) : WriteM Unit := do
  writeU32Leb128 s.length
  wasmWriteData s

def wasmWriteOpcode (opcode : WasmOpcode) : WriteM Unit := wasmWriteU8 opcode.code

def wasmWriteType (type : WasmType) : WriteM Unit := writeI32Leb128 type.code

end WasmStream

/-! ## Lengths -/

section Lengths

open WasmStream

variable (options : WriteBinaryOptions)

/-- The loop of `size_u32_leb128`, for at most `fuel` turns. -/
def countU32Leb128 : Nat → Nat → Nat
  | 0, _ => 0
  | fuel + 1, value =>
    let value := value / 0x80
    if value = 0 then 1 else countU32Leb128 fuel value + 1

/-- `size_u32_leb128`; nothing is left of an `uint32_t` after five turns. -/
def sizeU32Leb128 (value : Nat) : Nat := countU32Leb128 maxU32Leb128Bytes value

def writeU32Leb128Space (lebSizeGuess : Nat) : WriteM Nat := do
  assert (lebSizeGuess ≤ maxU32Leb128Bytes)
  let c ← get
  let result := u32 c.offset
  let bytesToWrite := if options.canonicalizeLebs then lebSizeGuess else maxU32Leb128Bytes
  wasmWriteData (List.replicate bytesToWrite 0)
  return result

/-- The difference of a `size_t` and two `uint32_t`, as an `uint32_t`. -/
def sizeBetween (end_ start lebSize : Nat) : Nat :=
  (((end_ : Int) - start - lebSize) % maxU32).toNat

def writeFixupU32Leb128Size (offset lebSizeGuess : Nat) : WriteM Unit := do
  let c ← get
  if options.canonicalizeLebs then
    let size := sizeBetween c.offset offset lebSizeGuess
    let lebSize := sizeU32Leb128 size
    if lebSize ≠ lebSizeGuess then
      wasmMoveData (u32 (offset + lebSize)) (u32 (offset + lebSizeGuess)) size
    let _ ← wasmWriteU32Leb128At offset size
    -- the difference is an `uint32_t`
    modify fun c => { c with
      offset := c.offset + (((lebSize : Int) - lebSizeGuess) % maxU32).toNat }
  else
    let size := sizeBetween c.offset offset maxU32Leb128Bytes
    wasmWriteFixedU32Leb128At offset size

def beginKnownSection (sectionCode lebSizeGuess : Nat) : WriteM Unit := do
  let c ← get
  assert (c.lastSectionLebSizeGuess = 0)
  wasmWriteU8 sectionCode
  modify fun c => { c with lastSectionLebSizeGuess := lebSizeGuess }
  let offset ← writeU32Leb128Space options lebSizeGuess
  modify fun c => { c with lastSectionOffset := offset }

def beginCustomSection (name : List UInt8) (lebSizeGuess : Nat) : WriteM Unit := do
  beginKnownSection options 0 lebSizeGuess
  wasmWriteStr name

def endSection : WriteM Unit := do
  let c ← get
  assert (c.lastSectionLebSizeGuess ≠ 0)
  writeFixupU32Leb128Size options c.lastSectionOffset c.lastSectionLebSizeGuess
  modify fun c => { c with lastSectionLebSizeGuess := 0 }

end Lengths

end BinaryWriter

end SexprWasm
