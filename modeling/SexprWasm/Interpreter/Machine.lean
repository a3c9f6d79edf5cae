import SexprWasm.Interpreter.ReadBinary

/-!
# The machine

What `wasm_run_interpreter` works on: a thread, the environment it
shares with the others, and the `pc`, and the macros that get at them.
The stacks are arrays with the number of entries in use; a pop leaves
its entry where it was. An entry is the bits of `WasmInterpreterValue`,
low byte first, and a push of 32 bits writes only the low half.

A macro that traps returns from the function it stands in: it is an
error with what is returned in `result`. Undefined behaviour, such as
an access outside of an array, is `abort` like a failing `assert`.
-/

namespace SexprWasm

/-- `VALUE_TYPE_I32` and the others are unsigned integers of this width. -/
@[reducible] def ValueType.bits : ValueType → Nat
  | .i32 | .f32 => 32
  | .i64 | .f64 => 64

/-- What a write to the field of a type makes of an entry. -/
def ValueType.overlay (type : ValueType) (entry v : Nat) : Nat :=
  entry / 2 ^ type.bits * 2 ^ type.bits + v % 2 ^ type.bits

namespace Interpreter

/-- `WasmInterpreterResult`. -/
inductive Result
  | ok | returned
  | trapMemoryAccessOutOfBounds | trapIntegerOverflow | trapIntegerDivideByZero
  | trapInvalidConversionToInteger | trapUndefinedTableIndex | trapUninitializedTableElement
  | trapUnreachable | trapIndirectCallSignatureMismatch | trapCallStackExhausted
  | trapValueStackExhausted | trapHostResultTypeMismatch | trapHostTrapped
  | argumentTypeMismatch | unknownExport | exportKindMismatch
  deriving DecidableEq, Repr

/-- `WasmInterpreterThread`; the tops are the numbers of entries below them. -/
structure Thread where
  valueStack : List Nat
  valueStackTop : Nat := 0
  callStack : List Nat
  callStackTop : Nat := 0
  pc : Nat := invalidOffset
  deriving DecidableEq, Repr

/-- `pc` is the local variable of `wasm_run_interpreter`, as an offset into the istream. -/
structure Machine where
  env : Environment
  thread : Thread
  pc : Nat := 0
  result : Result := .ok

abbrev Exec (α : Type) : Type := Callback Machine α

namespace Machine

open Callback

/-- `TRAP`. -/
def trap {α : Type} (result : Result) : Exec α := fun m => .error { m with result }

/-- `TRAP_IF`. -/
def trapIf (cond : Bool) (result : Result) : Exec Unit :=
  if cond then trap result else Callback.pure ()

/-- `TRAP_UNLESS`. -/
def trapUnless (cond : Bool) (result : Result) : Exec Unit := trapIf (!cond) result

/-! ## The value stack -/

/-- Make `entry` the one at `index`, and the last. -/
def put (m : Machine) (index entry : Nat) : Machine :=
  { m with thread := { m.thread with
      valueStack := m.thread.valueStack.set index entry, valueStackTop := index + 1 } }

/-- Only the entries below `height` are in use. -/
def setTop (m : Machine) (height : Nat) : Machine :=
  { m with thread := { m.thread with valueStackTop := height } }

/-- `CHECK_STACK`. -/
def checkStack : Exec Unit := do
  let m ← get
  trapIf (m.thread.valueStack.length ≤ m.thread.valueStackTop) .trapValueStackExhausted

/-- `PUSH`. -/
def push (v : Nat) : Exec Unit := do
  checkStack
  modify fun m => m.put m.thread.valueStackTop v

/-- `PUSH_TYPE`. -/
def pushType (type : ValueType) (v : Nat) : Exec Unit := do
  checkStack
  modify fun m =>
    m.put m.thread.valueStackTop
      (type.overlay (m.thread.valueStack.getD m.thread.valueStackTop 0) v)

/-- `PICK` where it is read. -/
def pick (depth : Nat) : Exec Nat := do
  let m ← get
  assert (depth ≤ m.thread.valueStackTop)
  orAbort m.thread.valueStack[m.thread.valueStackTop - depth]?

/-- `PICK` where it is assigned to. -/
def setPick (depth v : Nat) : Exec Unit := do
  let m ← get
  assert (depth ≤ m.thread.valueStackTop ∧
    m.thread.valueStackTop - depth < m.thread.valueStack.length)
  modify fun m =>
    { m with thread := { m.thread with
        valueStack := m.thread.valueStack.set (m.thread.valueStackTop - depth) v } }

/-- `POP`. -/
def pop : Exec Nat := do
  let v ← pick 1
  modify fun m => m.setTop (m.thread.valueStackTop - 1)
  return v

/-- `POP_I32` and the others. -/
def popType (type : ValueType) : Exec (BitVec type.bits) := do
  return BitVec.ofNat type.bits (← pop)

/-- An assignment to the field of a type in `TOP()`. -/
def modifyTop (type : ValueType) (f : BitVec type.bits → BitVec type.bits) : Exec Unit := do
  let entry ← pick 1
  setPick 1 (type.overlay entry (f (BitVec.ofNat type.bits entry)).toNat)

/-- `DROP_KEEP`. -/
def dropKeep (drop keep : Nat) : Exec Unit := do
  assert (keep ≤ 1)
  if keep = 1 then
    setPick (u32 (drop + 1)) (← pick 1)
  let m ← get
  assert (drop ≤ m.thread.valueStackTop)
  modify fun m => m.setTop (m.thread.valueStackTop - drop)

/-- The next `size` bytes of the istream, low byte first. -/
def readBytes (size : Nat) : Exec Nat := do
  let m ← get
  let bytes := Buffer.window m.env.istream m.pc size
  assert (bytes.length = size)
  modify fun m => { m with pc := m.pc + size }
  return Buffer.ofLeBytes bytes

def readU8 : Exec Nat := readBytes 1

def readU32 : Exec Nat := readBytes 4

def readU64 : Exec Nat := readBytes 8

/-- `GOTO`. -/
def goto (offset : Nat) : Exec Unit := modify fun m => { m with pc := offset }

/-- `PUSH_CALL`. -/
def pushCall : Exec Unit := do
  let m ← get
  trapIf (m.thread.callStack.length ≤ m.thread.callStackTop) .trapCallStackExhausted
  modify fun m =>
    { m with thread := { m.thread with
        callStack := m.thread.callStack.set m.thread.callStackTop (u32 m.pc)
        callStackTop := m.thread.callStackTop + 1 } }

/-- `POP_CALL`. -/
def popCall : Exec Nat := do
  let m ← get
  assert (0 < m.thread.callStackTop)
  modify fun m => { m with thread := { m.thread with callStackTop := m.thread.callStackTop - 1 } }
  orAbort m.thread.callStack[m.thread.callStackTop - 1]?

/-- `read_table_entry_at`, in the order it is written: the offset, the drop and the keep count. -/
def readTableEntryAt (at_ : Nat) : Exec (Nat × Nat × Nat) := do
  let m ← get
  let entry := Buffer.window m.env.istream at_ tableEntrySize
  assert (entry.length = tableEntrySize)
  return (Buffer.ofLeBytes (Buffer.window entry 0 4), Buffer.ofLeBytes (Buffer.window entry 4 4),
    Buffer.ofLeBytes (Buffer.window entry 8 1))

/-! ## Memories and globals -/

/-- `GET_MEMORY`: the index and what is there. -/
def getMemory : Exec (Nat × Memory) := do
  let memoryIndex ← readU32
  let m ← get
  let memory ← orAbort m.env.memories[memoryIndex]?
  return (memoryIndex, memory)

def setMemory (memoryIndex : Nat) (memory : Memory) : Exec Unit :=
  modify fun m => { m with env := { m.env with memories := m.env.memories.set memoryIndex memory } }

def setGlobal (index : Nat) (global : Global) : Exec Unit :=
  modify fun m => { m with env := { m.env with globals := m.env.globals.set index global } }

end Machine

end Interpreter

end SexprWasm
