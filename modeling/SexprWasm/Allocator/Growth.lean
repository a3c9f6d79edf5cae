import SexprWasm.Lib.Doubling
import SexprWasm.Common

/-!
# Vectors and output buffers

`wasm_ensure_capacity` and `wasm_resize_vector` of `vector.c`, and the
output buffer of the memory writer in `writer.c`, over a `size_t` of `w`
bits. A block of memory is the list of its bytes. `Realloc` is
`wasm_realloc` of some allocator: it leaves the program by `longjmp` or a
fatal error, or gives a block of the size it is asked for that starts
with the bytes of the old one.
-/

namespace SexprWasm

namespace Allocator

namespace Growth

open Doubling

structure Realloc where
  run : List UInt8 → Nat → Option (List UInt8)
  length_run : ∀ {old new size}, run old size = some new → new.length = size
  take_run : ∀ {old new size}, run old size = some new →
    new.take (min size old.length) = old.take size

/-- How a call ends: it returns, does not come back from the allocator, fails an assertion, or is
still in its loop. -/
inductive Result (α : Type) where
  | done (a : α)
  | left
  | assertion
  | running
  deriving DecidableEq

def Result.bind {α β : Type} : Result α → (α → Result β) → Result β
  | .done a, f => f a
  | .left, _ => .left
  | .assertion, _ => .assertion
  | .running, _ => .running

/-! ## Vectors -/

/-- `INITIAL_VECTOR_CAPACITY`. -/
def initialVectorCapacity : Nat := 8

/-- `*data`, `*size` and `*capacity`. -/
structure Vector where
  data : List UInt8 := []
  size : Nat := 0
  capacity : Nat := 0
  deriving DecidableEq

section

variable (realloc : Realloc) (w fuel : Nat)

/-- `new_capacity`, after the loop. -/
def newCapacity (capacity desiredSize : Nat) : Option Nat :=
  double (2 ^ w) desiredSize fuel
    (if capacity ≠ 0 then capacity * 2 % 2 ^ w else initialVectorCapacity)

/-- `wasm_ensure_capacity`. -/
def ensureCapacity (v : Vector) (desiredSize eltByteSize : Nat) : Result Vector :=
  if desiredSize > v.capacity then
    match newCapacity w fuel v.capacity desiredSize with
    | none => .running
    | some capacity =>
      let newByteSize := capacity * eltByteSize % 2 ^ w
      match realloc.run v.data newByteSize with
      | none => .left
      | some data => .done { v with data, capacity }
  else .done v

/-- `memset(data + offset, 0, n)`. -/
def zeroBytes (data : List UInt8) (offset n : Nat) : List UInt8 :=
  data.take offset ++ List.replicate n 0 ++ data.drop (offset + n)

/-- `wasm_resize_vector`. -/
def resizeVector (v : Vector) (desiredSize eltByteSize : Nat) : Result Vector :=
  let oldSize := v.size
  (ensureCapacity realloc w fuel v desiredSize eltByteSize).bind fun v =>
    let data :=
      if desiredSize > oldSize then
        zeroBytes v.data (oldSize * eltByteSize % 2 ^ w)
          ((desiredSize - oldSize) * eltByteSize % 2 ^ w)
      else v.data
    .done { v with data, size := desiredSize }

/-! ## Output buffers -/

/-- `WasmOutputBuffer`. -/
structure OutputBuffer where
  start : List UInt8 := []
  size : Nat := 0
  capacity : Nat := 0
  deriving DecidableEq

/-- `new_capacity`, after the loop. -/
def newBufferCapacity (capacity ensureCapacity : Nat) : Option Nat :=
  double (2 ^ w) ensureCapacity fuel (capacity * 2 % 2 ^ w)

/-- The numbers of bytes that are multiplied by 2 on the way. -/
def bufferFactors (capacity ensureCapacity : Nat) : List Nat :=
  if ensureCapacity > capacity then
    capacity :: doubled (2 ^ w) ensureCapacity fuel (capacity * 2 % 2 ^ w)
  else []

/-- `ensure_output_buffer_capacity`. -/
def ensureOutputBufferCapacity (buf : OutputBuffer) (ensureCapacity : Nat) :
    Result OutputBuffer :=
  if ensureCapacity > buf.capacity then
    if buf.capacity ≠ 0 then
      match newBufferCapacity w fuel buf.capacity ensureCapacity with
      | none => .running
      | some capacity =>
        match realloc.run buf.start capacity with
        | none => .left
        | some start => .done { buf with start, capacity }
    else .assertion
  else .done buf

/-- `memcpy(start + offset, data, size)`. -/
def copyBytes (start : List UInt8) (offset : Nat) (data : List UInt8) : List UInt8 :=
  start.take offset ++ data ++ start.drop (offset + data.length)

/-- `write_data_to_output_buffer`. -/
def writeData (buf : OutputBuffer) (offset : Nat) (data : List UInt8) : Result OutputBuffer :=
  let end_ := (offset + data.length) % 2 ^ w
  (ensureOutputBufferCapacity realloc w fuel buf end_).bind fun buf =>
    .done { buf with start := copyBytes buf.start offset data, size := max buf.size end_ }

end

/-! ## What growing is for -/

/-- `wasm_ensure_capacity` ends, the byte size is the product, and where the allocator gives a
block there is room in it and the old elements are in their places. -/
structure VectorGrows (realloc : Realloc) (w : Nat) (v : Vector) (desiredSize eltByteSize : Nat) :
    Prop where
  terminates : ∃ fuel, ensureCapacity realloc w fuel v desiredSize eltByteSize ≠ .running
  exact : v.capacity < desiredSize →
    ∀ fuel capacity, newCapacity w fuel v.capacity desiredSize = some capacity →
      capacity * eltByteSize < 2 ^ w
  grown : ∀ fuel v', ensureCapacity realloc w fuel v desiredSize eltByteSize = .done v' →
    desiredSize ≤ v'.capacity ∧ v'.data.length = v'.capacity * eltByteSize ∧
      v'.data.take v.data.length = v.data ∧ v'.size = v.size

/-- `ensure_output_buffer_capacity` ends, no doubling wraps around, and where the allocator gives a
block there is room in it and the old bytes are in their places. -/
structure BufferGrows (realloc : Realloc) (w : Nat) (buf : OutputBuffer) (ensureCapacity : Nat) :
    Prop where
  terminates : ∃ fuel, ensureOutputBufferCapacity realloc w fuel buf ensureCapacity ≠ .running ∧
    ensureOutputBufferCapacity realloc w fuel buf ensureCapacity ≠ .assertion
  exact : ∀ fuel, ∀ n ∈ bufferFactors w fuel buf.capacity ensureCapacity, n * 2 < 2 ^ w
  grown : ∀ fuel buf', ensureOutputBufferCapacity realloc w fuel buf ensureCapacity = .done buf' →
    ensureCapacity ≤ buf'.capacity ∧ buf'.start.length = buf'.capacity ∧
      buf'.start.take buf.start.length = buf.start ∧ buf'.size = buf.size

/-- The first capacity that is tried, before it is cut to `size_t`. -/
def firstCapacity (capacity : Nat) : Nat :=
  if capacity = 0 then initialVectorCapacity else capacity * 2

/-- When a vector grows as it should: it has the room, or the first doubling with room for the
request is below `2 ^ w` in bytes. For elements of at most one byte, which are not multiplied, it
is enough that a doubling modulo `2 ^ w` has the room. -/
def VectorFits (w capacity desiredSize eltByteSize : Nat) : Prop :=
  desiredSize ≤ capacity ∨
    if eltByteSize ≤ 1 then
      ∃ k, desiredSize ≤ wrapped (2 ^ w) (firstCapacity capacity) k
    else
      ∃ k, First (firstCapacity capacity * 2 ^ ·) desiredSize k ∧
        firstCapacity capacity * 2 ^ k * eltByteSize < 2 ^ w

/-- When an output buffer grows as it should: it has the room, or there is a capacity to double,
and its first doubling with room for the request is below `2 ^ w`. -/
def BufferFits (w capacity ensureCapacity : Nat) : Prop :=
  ensureCapacity ≤ capacity ∨
    capacity ≠ 0 ∧ ∃ k, First (capacity * 2 * 2 ^ ·) ensureCapacity k ∧
      capacity * 2 * 2 ^ k < 2 ^ w

end Growth

end Allocator

end SexprWasm
