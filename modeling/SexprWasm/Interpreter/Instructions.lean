import SexprWasm.Interpreter.Machine
import SexprWasm.Interpreter.FloatBits

/-!
# The instructions

The macros of `interpreter.c` that one or several opcodes consist of,
the switch of `wasm_run_interpreter` (`execute`), and the loop around
it. `VALUE_TYPE` is `BitVec`; floats are handled by their bits.

The status of `wasm_call_host` is not looked at where an instruction
calls a host function (`ignoreResult`). `goto exit_loop` is taken when
`result` is no longer `ok`.
-/

namespace SexprWasm

namespace Interpreter

/-- `MEM_TYPE_I8` and the others. -/
inductive MemType
  | i8 | u8 | i16 | u16 | i32 | u32 | i64 | u64 | f32 | f64
  deriving DecidableEq, Repr

/-- `sizeof`. -/
def MemType.size : MemType → Nat
  | .i8 | .u8 => 1
  | .i16 | .u16 => 2
  | .i32 | .u32 | .f32 => 4
  | .i64 | .u64 | .f64 => 8

def MemType.signed : MemType → Bool
  | .i8 | .i16 | .i32 | .i64 => true
  | .u8 | .u16 | .u32 | .u64 | .f32 | .f64 => false

/-- What the code is compiled for: `wasm_realloc`, where `none` is `NULL`, and the floats. -/
structure Platform where
  realloc : List UInt8 → Nat → Option (List UInt8)
  fpu : Fpu

/-- The opcodes only the interpreter has, by their byte. -/
def InterpreterOpcode.ofCode? (code : Nat) : Option InterpreterOpcode :=
  [.alloca, .brUnless, .callHost, .data, .dropKeep].find? fun op => op.code = code

namespace Machine

open Callback

/-! ## Memory -/

/-- `MEM_TYPE_EXTEND`: a cast of what was read to the 32 or 64 bits that are pushed. -/
def extend (type : ValueType) (memType : MemType) (value : Nat) : Nat :=
  if memType.signed then ((BitVec.ofNat (8 * memType.size) value).signExtend type.bits).toNat
  else value

/-- `LOAD`. -/
def load (type : ValueType) (memType : MemType) : Exec Unit := do
  let (_, memory) ← getMemory
  let offset := (← popType .i32).toNat + (← readU32)
  trapIf (memory.byteSize < offset + memType.size) .trapMemoryAccessOutOfBounds
  let bytes := Buffer.window memory.data (SexprWasm.u32 offset) memType.size
  assert (bytes.length = memType.size)
  pushType type (extend type memType (Buffer.ofLeBytes bytes))

/-- `STORE`. -/
def store (type : ValueType) (memType : MemType) : Exec Unit := do
  let (memoryIndex, memory) ← getMemory
  let value ← popType type
  let offset := (← popType .i32).toNat + (← readU32)
  let src := Buffer.leBytes memType.size value.toNat
  trapIf (memory.byteSize < offset + memType.size) .trapMemoryAccessOutOfBounds
  assert (SexprWasm.u32 offset + memType.size ≤ memory.data.length)
  setMemory memoryIndex
    { memory with data := Buffer.writeAt 0 memory.data (SexprWasm.u32 offset) src }

/-- `WASM_OPCODE_CURRENT_MEMORY`. -/
def currentMemory : Exec Unit := do
  let (_, memory) ← getMemory
  pushType .i32 memory.pageLimits.initial

/-- `WASM_OPCODE_GROW_MEMORY`. -/
def growMemory (p : Platform) : Exec Unit := do
  let (memoryIndex, memory) ← getMemory
  let oldPageSize := memory.pageLimits.initial
  let oldByteSize := memory.byteSize
  let growPages ← popType .i32
  let newPageSize := SexprWasm.u32 (oldPageSize + growPages.toNat)
  let maxPageSize := if memory.pageLimits.hasMax then memory.pageLimits.max else wasmMaxPages
  if maxPageSize < newPageSize then pushType .i32 (2 ^ 32 - 1)
  else if 2 ^ 32 - 1 < newPageSize * wasmPageSize then pushType .i32 (2 ^ 32 - 1)
  else
    let newByteSize := newPageSize * wasmPageSize
    match p.realloc memory.data newByteSize with
    | none => pushType .i32 (2 ^ 32 - 1)
    | some newData =>
      -- the subtraction is of `uint32_t`
      let cleared := SexprWasm.u32 (newByteSize + 2 ^ 32 - oldByteSize)
      assert (oldByteSize + cleared ≤ newData.length)
      setMemory memoryIndex
        { pageLimits := { memory.pageLimits with initial := newPageSize }
          byteSize := newByteSize
          data := Buffer.writeAt 0 newData oldByteSize (List.replicate cleared 0) }
      pushType .i32 oldPageSize

/-! ## Integers -/

/-- `BINOP`; an operator gives the bits of its result. -/
def binop (rtype type : ValueType) (op : BitVec type.bits → BitVec type.bits → Nat) :
    Exec Unit := do
  let rhs ← popType type
  let lhs ← popType type
  pushType rtype (op lhs rhs)

/-- `BINOP_SIGNED`, which is used for comparisons. -/
def binopSigned (rtype type : ValueType) (op : Int → Int → Bool) : Exec Unit :=
  binop rtype type fun lhs rhs => (op lhs.toInt rhs.toInt).toNat

/-- `SHIFT_MASK_I32` and `SHIFT_MASK_I64`. -/
def shiftMask (type : ValueType) : Nat := type.bits - 1

/-- `BINOP_SHIFT`. -/
def binopShift (type : ValueType) (op : BitVec type.bits → Nat → BitVec type.bits) : Exec Unit :=
  binop type type fun lhs rhs => (op lhs (rhs.toNat &&& shiftMask type)).toNat

/-- `BINOP_ROT`, by the two shifts of a direction. -/
def binopRot (type : ValueType) (shift0 shift1 : BitVec type.bits → Nat → BitVec type.bits) :
    Exec Unit :=
  binop type type fun lhs rhs =>
    let amount := rhs.toNat &&& shiftMask type
    if amount ≠ 0 then (shift0 lhs amount ||| shift1 lhs (shiftMask type + 1 - amount)).toNat
    else lhs.toNat

/-- `BINOP_DIV_REM_U`. -/
def binopDivRemU (type : ValueType) (op : BitVec type.bits → BitVec type.bits → BitVec type.bits) :
    Exec Unit := do
  let rhs ← popType type
  let lhs ← popType type
  trapIf (rhs = 0) .trapIntegerDivideByZero
  pushType type (op lhs rhs).toNat

/-- `BINOP_DIV_S`. -/
def binopDivS (type : ValueType) : Exec Unit := do
  let rhs ← popType type
  let lhs ← popType type
  trapIf (rhs = 0) .trapIntegerDivideByZero
  trapIf (lhs = BitVec.intMin type.bits ∧ rhs = BitVec.allOnes type.bits) .trapIntegerOverflow
  pushType type (lhs.sdiv rhs).toNat

/-- `BINOP_REM_S`. -/
def binopRemS (type : ValueType) : Exec Unit := do
  let rhs ← popType type
  let lhs ← popType type
  trapIf (rhs = 0) .trapIntegerDivideByZero
  if lhs = BitVec.intMin type.bits ∧ rhs = BitVec.allOnes type.bits then pushType type 0
  else pushType type (lhs.srem rhs).toNat

/-- An instruction that pops a value and pushes one. -/
def unop (rtype type : ValueType) (f : BitVec type.bits → Nat) : Exec Unit := do
  let value ← popType type
  pushType rtype (f value)

/-- `WASM_OPCODE_I32_CLZ` and `WASM_OPCODE_I64_CLZ`. -/
def clz (type : ValueType) : Exec Unit :=
  unop type type fun value => if value ≠ 0 then value.clz.toNat else type.bits

/-- `WASM_OPCODE_I32_CTZ` and `WASM_OPCODE_I64_CTZ`. -/
def ctz (type : ValueType) : Exec Unit :=
  unop type type fun value => if value ≠ 0 then value.ctz.toNat else type.bits

/-- `WASM_OPCODE_I32_POPCNT` and `WASM_OPCODE_I64_POPCNT`. -/
def popcnt (type : ValueType) : Exec Unit := unop type type fun value => value.cpop.toNat

/-- `WASM_OPCODE_I32_EQZ` and `WASM_OPCODE_I64_EQZ`; each pushes its own type. -/
def eqz (type : ValueType) : Exec Unit := unop type type fun value => (value == 0).toNat

/-! ## Floats -/

/-- `UNOP_FLOAT`. -/
def unopFloat (p : Platform) (t : FloatType) (func : FloatUnary) : Exec Unit :=
  unop t.valueType t.valueType fun value => p.fpu.unary t func value.toNat

/-- `BINOP_FLOAT`. -/
def binopFloat (p : Platform) (t : FloatType) (op : FloatBinary) : Exec Unit :=
  binop t.valueType t.valueType fun lhs rhs => p.fpu.binary t op lhs.toNat rhs.toNat

/-- What `BINOP_FLOAT_DIV` pushes. -/
def floatDiv (p : Platform) (t : FloatType) (lhs rhs : Nat) : Nat :=
  if t.isZero rhs then
    if t.isNan lhs then lhs ||| t.quietNan
    else if t.isZero lhs then t.quietNan
    else ((lhs &&& t.signMask) ^^^ (rhs &&& t.signMask)) ||| t.inf
  else p.fpu.binary t .div lhs rhs

/-- `BINOP_FLOAT_DIV`. -/
def binopFloatDiv (p : Platform) (t : FloatType) : Exec Unit :=
  binop t.valueType t.valueType fun lhs rhs => floatDiv p t lhs.toNat rhs.toNat

/-- `BINOP_FLOAT_COMPARE`. -/
def binopFloatCompare (t : FloatType) (op : FloatCompare) : Exec Unit :=
  binop .i32 t.valueType fun lhs rhs => (op.holds t lhs.toNat rhs.toNat).toNat

/-- `MIN_OP` and `MAX_OP`, on integers. -/
def minMaxOp : FloatCompare → Nat → Nat → Bool
  | .gt, lhs, rhs => rhs < lhs
  | _, lhs, rhs => lhs < rhs

/-- `result` of `MINMAX_FLOAT`, where `op` is `lt` for `MIN_OP` and `gt` for `MAX_OP`. -/
def minmax (t : FloatType) (op : FloatCompare) (lhs rhs : Nat) : Nat :=
  if t.isNan lhs then lhs ||| t.quietNanBit
  else if t.isNan rhs then rhs ||| t.quietNanBit
  else if (lhs ^^^ rhs) &&& t.signMask ≠ 0 then if !minMaxOp op lhs rhs then lhs else rhs
  else if op.holds t lhs rhs then lhs else rhs

/-- `MINMAX_FLOAT`. -/
def minmaxFloat (t : FloatType) (op : FloatCompare) : Exec Unit :=
  binop t.valueType t.valueType fun lhs rhs => minmax t op lhs.toNat rhs.toNat

/-- `WASM_OPCODE_F32_ABS` and `WASM_OPCODE_F64_ABS`. -/
def floatAbs (t : FloatType) : Exec Unit :=
  modifyTop t.valueType fun bits => bits &&& ~~~(BitVec.ofNat _ t.signMask)

/-- `WASM_OPCODE_F32_NEG` and `WASM_OPCODE_F64_NEG`. -/
def floatNeg (t : FloatType) : Exec Unit :=
  modifyTop t.valueType fun bits => bits ^^^ BitVec.ofNat _ t.signMask

/-- `WASM_OPCODE_F32_COPYSIGN` and `WASM_OPCODE_F64_COPYSIGN`. -/
def floatCopysign (t : FloatType) : Exec Unit :=
  binop t.valueType t.valueType fun lhs rhs =>
    ((lhs &&& ~~~(BitVec.ofNat _ t.signMask)) ||| (rhs &&& BitVec.ofNat _ t.signMask)).toNat

/-! ## Conversions -/

/-- The eight `TRUNC` opcodes: the test for the range, and the type of the cast. -/
def truncFloat (rtype : ValueType) (t : FloatType) (isInRange : Nat → Bool) (signed : Bool) :
    Exec Unit := do
  let value ← popType t.valueType
  trapIf (t.isNan value.toNat) .trapInvalidConversionToInteger
  trapUnless (isInRange value.toNat) .trapIntegerOverflow
  let x ← orAbort (castToInt t.format signed rtype.bits value.toNat)
  pushType rtype (BitVec.ofInt rtype.bits x).toNat

/-- The `CONVERT_S` opcodes. -/
def convertS (p : Platform) (t : FloatType) (type : ValueType) : Exec Unit :=
  unop t.valueType type fun value => p.fpu.ofInt t value.toInt

/-- The `CONVERT_U` opcodes. -/
def convertU (p : Platform) (t : FloatType) (type : ValueType) : Exec Unit :=
  unop t.valueType type fun value => p.fpu.ofInt t value.toNat

/-- What `WASM_OPCODE_F32_DEMOTE_F64` pushes. -/
def demote (p : Platform) (value : Nat) : Nat :=
  if isInRangeF64DemoteF32 value then p.fpu.demote value
  else if isInRangeF64DemoteF32RoundToF32Max value then f32Max
  else if isInRangeF64DemoteF32RoundToNegF32Max value then f32NegMax
  else
    let sign := value >>> 32 &&& FloatType.f32.signMask
    let tag := if FloatType.f64.isNan value then
      FloatType.f32.quietNanBit ||| (value >>> (52 - 23) &&& f32SigMask) else 0
    sign ||| FloatType.f32.inf ||| tag

/-! ## Calls -/

/-- The arguments of a host function; the types are those of the parameters, the last first. -/
def popArgs : List ValueType → List TypedValue → Exec (List TypedValue)
  | [], args => return args
  | type :: types, args => do
    let value ← pop
    popArgs types (⟨type, value⟩ :: args)

/-- The last loop of `wasm_call_host`. A callback fills in a result for each type. -/
def pushResults : List ValueType → List TypedValue → Exec Unit
  | [], _ => return
  | _ :: _, [] => abort
  | type :: types, result :: results => do
    trapIf (result.type ≠ type) .trapHostResultTypeMismatch
    push result.value
    pushResults types results

/-- `wasm_call_host`. -/
def callHost (func : Func) : Exec Unit := do
  let m ← get
  match func with
  | .defined _ => abort
  | .host func =>
    let sig ← orAbort m.env.sigs[func.sigIndex]?
    let args ← popArgs sig.paramTypes.reverse []
    match func.callback sig args with
    | none => trap .trapHostTrapped
    | some results => pushResults sig.resultTypes results

/-- A call whose status is dropped. -/
def ignoreResult (call : Exec Unit) : Exec Unit := fun m =>
  match call m with
  | .ok _ m' => .ok () m'
  | .error m' => .ok () { m' with result := m.result }
  | .abort => .abort

/-- `WASM_OPCODE_CALL_HOST`. -/
def callHostFunc : Exec Unit := do
  let funcIndex ← readU32
  let m ← get
  let func ← orAbort m.env.funcs[funcIndex]?
  ignoreResult (callHost func)

/-- The function a `call_indirect` with a given table and signature comes to. -/
def indirectFunc (tableIndex sigIndex entryIndex : Nat) : Exec Func := do
  let m ← get
  let table ← orAbort m.env.tables[tableIndex]?
  let sig ← orAbort m.env.sigs[sigIndex]?
  match table.funcIndexes[entryIndex]? with
  | none => trap .trapUndefinedTableIndex
  | some funcIndex =>
    trapIf (funcIndex = invalidIndex) .trapUninitializedTableElement
    let func ← orAbort m.env.funcs[funcIndex]?
    let funcSig ← orAbort m.env.sigs[func.sigIndex]?
    trapUnless (funcSignaturesAreEqual funcSig sig) .trapIndirectCallSignatureMismatch
    return func

/-- `WASM_OPCODE_CALL_INDIRECT`. -/
def callIndirect : Exec Unit := do
  let tableIndex ← readU32
  let sigIndex ← readU32
  let entryIndex ← popType .i32
  match ← indirectFunc tableIndex sigIndex entryIndex.toNat with
  | .host func => ignoreResult (callHost (.host func))
  | .defined func => do
    pushCall
    goto func.offset

/-! ## The switch -/

/-- The case of `wasm_run_interpreter` for an opcode of the binary format. `top` is
`call_stack_return_top`. -/
def execute (p : Platform) (top : Nat) : WasmOpcode → Exec Unit
  | .select => do
    let cond ← popType .i32
    let false_ ← pop
    let true_ ← pop
    push (if cond ≠ 0 then true_ else false_)
  | .br => do goto (← readU32)
  | .brIf => do
    let newPc ← readU32
    if (← popType .i32) ≠ 0 then goto newPc
  | .brTable => do
    let numTargets ← readU32
    let tableOffset ← readU32
    let key ← popType .i32
    let keyOffset := SexprWasm.u32 ((if numTargets ≤ key.toNat then numTargets else key.toNat) * tableEntrySize)
    let (newPc, dropCount, keepCount) ← readTableEntryAt (tableOffset + keyOffset)
    dropKeep dropCount keepCount
    goto newPc
  | .return_ => do
    let m ← get
    if m.thread.callStackTop = top then modify fun m => { m with result := .returned }
    else goto (← popCall)
  | .unreachable => trap .trapUnreachable
  | .i32Const => do pushType .i32 (← readU32)
  | .i64Const => do pushType .i64 (← readU64)
  | .f32Const => do pushType .f32 (← readU32)
  | .f64Const => do pushType .f64 (← readU64)
  | .getGlobal => do
    let index ← readU32
    let m ← get
    let global ← orAbort m.env.globals[index]?
    push global.typedValue.value
  | .setGlobal => do
    let index ← readU32
    let m ← get
    let global ← orAbort m.env.globals[index]?
    let value ← pop
    setGlobal index { global with typedValue := { global.typedValue with value } }
  | .getLocal => do
    let value ← pick (← readU32)
    push value
  | .setLocal => do
    let value ← pop
    setPick (← readU32) value
  | .teeLocal => do setPick (← readU32) (← pick 1)
  | .call => do
    let offset ← readU32
    pushCall
    goto offset
  | .callIndirect => callIndirect
  | .i32Load8S => load .i32 .i8
  | .i32Load8U => load .i32 .u8
  | .i32Load16S => load .i32 .i16
  | .i32Load16U => load .i32 .u16
  | .i64Load8S => load .i64 .i8
  | .i64Load8U => load .i64 .u8
  | .i64Load16S => load .i64 .i16
  | .i64Load16U => load .i64 .u16
  | .i64Load32S => load .i64 .i32
  | .i64Load32U => load .i64 .u32
  | .i32Load => load .i32 .u32
  | .i64Load => load .i64 .u64
  | .f32Load => load .f32 .f32
  | .f64Load => load .f64 .f64
  | .i32Store8 => store .i32 .u8
  | .i32Store16 => store .i32 .u16
  | .i64Store8 => store .i64 .u8
  | .i64Store16 => store .i64 .u16
  | .i64Store32 => store .i64 .u32
  | .i32Store => store .i32 .u32
  | .i64Store => store .i64 .u64
  | .f32Store => store .f32 .f32
  | .f64Store => store .f64 .f64
  | .currentMemory => currentMemory
  | .growMemory => growMemory p
  | .i32Add => binop .i32 .i32 fun lhs rhs => (lhs + rhs).toNat
  | .i32Sub => binop .i32 .i32 fun lhs rhs => (lhs - rhs).toNat
  | .i32Mul => binop .i32 .i32 fun lhs rhs => (lhs * rhs).toNat
  | .i32DivS => binopDivS .i32
  | .i32DivU => binopDivRemU .i32 (· / ·)
  | .i32RemS => binopRemS .i32
  | .i32RemU => binopDivRemU .i32 (· % ·)
  | .i32And => binop .i32 .i32 fun lhs rhs => (lhs &&& rhs).toNat
  | .i32Or => binop .i32 .i32 fun lhs rhs => (lhs ||| rhs).toNat
  | .i32Xor => binop .i32 .i32 fun lhs rhs => (lhs ^^^ rhs).toNat
  | .i32Shl => binopShift .i32 (· <<< ·)
  | .i32ShrU => binopShift .i32 (· >>> ·)
  | .i32ShrS => binopShift .i32 BitVec.sshiftRight
  | .i32Eq => binop .i32 .i32 fun lhs rhs => (lhs == rhs).toNat
  | .i32Ne => binop .i32 .i32 fun lhs rhs => (lhs != rhs).toNat
  | .i32LtS => binopSigned .i32 .i32 (· < ·)
  | .i32LeS => binopSigned .i32 .i32 (· ≤ ·)
  | .i32LtU => binop .i32 .i32 fun lhs rhs => (lhs < rhs : Bool).toNat
  | .i32LeU => binop .i32 .i32 fun lhs rhs => (lhs ≤ rhs : Bool).toNat
  | .i32GtS => binopSigned .i32 .i32 (· > ·)
  | .i32GeS => binopSigned .i32 .i32 (· ≥ ·)
  | .i32GtU => binop .i32 .i32 fun lhs rhs => (lhs > rhs : Bool).toNat
  | .i32GeU => binop .i32 .i32 fun lhs rhs => (lhs ≥ rhs : Bool).toNat
  | .i32Clz => clz .i32
  | .i32Ctz => ctz .i32
  | .i32Popcnt => popcnt .i32
  | .i32Eqz => eqz .i32
  | .i64Add => binop .i64 .i64 fun lhs rhs => (lhs + rhs).toNat
  | .i64Sub => binop .i64 .i64 fun lhs rhs => (lhs - rhs).toNat
  | .i64Mul => binop .i64 .i64 fun lhs rhs => (lhs * rhs).toNat
  | .i64DivS => binopDivS .i64
  | .i64DivU => binopDivRemU .i64 (· / ·)
  | .i64RemS => binopRemS .i64
  | .i64RemU => binopDivRemU .i64 (· % ·)
  | .i64And => binop .i64 .i64 fun lhs rhs => (lhs &&& rhs).toNat
  | .i64Or => binop .i64 .i64 fun lhs rhs => (lhs ||| rhs).toNat
  | .i64Xor => binop .i64 .i64 fun lhs rhs => (lhs ^^^ rhs).toNat
  | .i64Shl => binopShift .i64 (· <<< ·)
  | .i64ShrU => binopShift .i64 (· >>> ·)
  | .i64ShrS => binopShift .i64 BitVec.sshiftRight
  | .i64Eq => binop .i32 .i64 fun lhs rhs => (lhs == rhs).toNat
  | .i64Ne => binop .i32 .i64 fun lhs rhs => (lhs != rhs).toNat
  | .i64LtS => binopSigned .i32 .i64 (· < ·)
  | .i64LeS => binopSigned .i32 .i64 (· ≤ ·)
  | .i64LtU => binop .i32 .i64 fun lhs rhs => (lhs < rhs : Bool).toNat
  | .i64LeU => binop .i32 .i64 fun lhs rhs => (lhs ≤ rhs : Bool).toNat
  | .i64GtS => binopSigned .i32 .i64 (· > ·)
  | .i64GeS => binopSigned .i32 .i64 (· ≥ ·)
  | .i64GtU => binop .i32 .i64 fun lhs rhs => (lhs > rhs : Bool).toNat
  | .i64GeU => binop .i32 .i64 fun lhs rhs => (lhs ≥ rhs : Bool).toNat
  | .i64Clz => clz .i64
  | .i64Ctz => ctz .i64
  | .i64Popcnt => popcnt .i64
  | .f32Add => binopFloat p .f32 .add
  | .f32Sub => binopFloat p .f32 .sub
  | .f32Mul => binopFloat p .f32 .mul
  | .f32Div => binopFloatDiv p .f32
  | .f32Min => minmaxFloat .f32 .lt
  | .f32Max => minmaxFloat .f32 .gt
  | .f32Abs => floatAbs .f32
  | .f32Neg => floatNeg .f32
  | .f32Copysign => floatCopysign .f32
  | .f32Ceil => unopFloat p .f32 .ceil
  | .f32Floor => unopFloat p .f32 .floor
  | .f32Trunc => unopFloat p .f32 .trunc
  | .f32Nearest => unopFloat p .f32 .nearbyint
  | .f32Sqrt => unopFloat p .f32 .sqrt
  | .f32Eq => binopFloatCompare .f32 .eq
  | .f32Ne => binopFloatCompare .f32 .ne
  | .f32Lt => binopFloatCompare .f32 .lt
  | .f32Le => binopFloatCompare .f32 .le
  | .f32Gt => binopFloatCompare .f32 .gt
  | .f32Ge => binopFloatCompare .f32 .ge
  | .f64Add => binopFloat p .f64 .add
  | .f64Sub => binopFloat p .f64 .sub
  | .f64Mul => binopFloat p .f64 .mul
  | .f64Div => binopFloatDiv p .f64
  | .f64Min => minmaxFloat .f64 .lt
  | .f64Max => minmaxFloat .f64 .gt
  | .f64Abs => floatAbs .f64
  | .f64Neg => floatNeg .f64
  | .f64Copysign => floatCopysign .f64
  | .f64Ceil => unopFloat p .f64 .ceil
  | .f64Floor => unopFloat p .f64 .floor
  | .f64Trunc => unopFloat p .f64 .trunc
  | .f64Nearest => unopFloat p .f64 .nearbyint
  | .f64Sqrt => unopFloat p .f64 .sqrt
  | .f64Eq => binopFloatCompare .f64 .eq
  | .f64Ne => binopFloatCompare .f64 .ne
  | .f64Lt => binopFloatCompare .f64 .lt
  | .f64Le => binopFloatCompare .f64 .le
  | .f64Gt => binopFloatCompare .f64 .gt
  | .f64Ge => binopFloatCompare .f64 .ge
  | .i32TruncSF32 => truncFloat .i32 .f32 isInRangeI32TruncSF32 true
  | .i32TruncSF64 => truncFloat .i32 .f64 isInRangeI32TruncSF64 true
  | .i32TruncUF32 => truncFloat .i32 .f32 isInRangeI32TruncUF32 false
  | .i32TruncUF64 => truncFloat .i32 .f64 isInRangeI32TruncUF64 false
  | .i32WrapI64 => unop .i32 .i64 fun value => (value.setWidth 32).toNat
  | .i64TruncSF32 => truncFloat .i64 .f32 isInRangeI64TruncSF32 true
  | .i64TruncSF64 => truncFloat .i64 .f64 isInRangeI64TruncSF64 true
  | .i64TruncUF32 => truncFloat .i64 .f32 isInRangeI64TruncUF32 false
  | .i64TruncUF64 => truncFloat .i64 .f64 isInRangeI64TruncUF64 false
  | .i64ExtendSI32 => unop .i64 .i32 fun value => (value.signExtend 64).toNat
  | .i64ExtendUI32 => unop .i64 .i32 fun value => (value.setWidth 64).toNat
  | .f32ConvertSI32 => convertS p .f32 .i32
  | .f32ConvertUI32 => convertU p .f32 .i32
  | .f32ConvertSI64 => convertS p .f32 .i64
  | .f32ConvertUI64 => convertU p .f32 .i64
  | .f32DemoteF64 => unop .f32 .f64 fun value => demote p value.toNat
  | .f32ReinterpretI32 => unop .f32 .i32 BitVec.toNat
  | .f64ConvertSI32 => convertS p .f64 .i32
  | .f64ConvertUI32 => convertU p .f64 .i32
  | .f64ConvertSI64 => convertS p .f64 .i64
  | .f64ConvertUI64 => convertU p .f64 .i64
  | .f64PromoteF32 => unop .f64 .f32 fun value => p.fpu.promote value.toNat
  | .f64ReinterpretI64 => unop .f64 .i64 BitVec.toNat
  | .i32ReinterpretF32 => unop .i32 .f32 BitVec.toNat
  | .i64ReinterpretF64 => unop .i64 .f64 BitVec.toNat
  | .i32Rotr => binopRot .i32 (· >>> ·) (· <<< ·)
  | .i32Rotl => binopRot .i32 (· <<< ·) (· >>> ·)
  | .i64Rotr => binopRot .i64 (· >>> ·) (· <<< ·)
  | .i64Rotl => binopRot .i64 (· <<< ·) (· >>> ·)
  | .i64Eqz => eqz .i64
  | .drop => do
    let _ ← pop
  | .nop => return
  | .block | .loop | .if_ | .else_ | .end_ => abort

/-- `WASM_OPCODE_ALLOCA`: the check comes after the addition. -/
def alloca : Exec Unit := do
  let m ← get
  let oldTop := m.thread.valueStackTop
  let count ← readU32
  modify fun m => m.setTop (oldTop + count)
  checkStack
  modify fun m =>
    { m with thread := { m.thread with
        valueStack := Buffer.writeAt 0 m.thread.valueStack oldTop (List.replicate count 0) } }

/-- The cases for the opcodes only the interpreter has. -/
def executeInterpreter : InterpreterOpcode → Exec Unit
  | .alloca => alloca
  | .brUnless => do
    let newPc ← readU32
    if (← popType .i32) = 0 then goto newPc
  | .callHost => callHostFunc
  | .data => abort
  | .dropKeep => do
    let dropCount ← readU32
    let keepCount ← readU8
    dropKeep dropCount keepCount

/-- One turn of the loop. -/
def step (p : Platform) (top : Nat) : Exec Unit := do
  let opcode ← readU8
  match WasmOpcode.ofCode? opcode with
  | some op => execute p top op
  | none =>
    match InterpreterOpcode.ofCode? opcode with
    | some op => executeInterpreter op
    | none => abort

/-- The loop, which `goto exit_loop` leaves. -/
def loop (p : Platform) (top : Nat) : Nat → Exec Unit
  | 0 => return
  | numInstructions + 1 => do
    step p top
    let m ← get
    when (m.result = .ok) (loop p top numInstructions)

/-- `wasm_run_interpreter`. It returns `result`, also where it traps. -/
def runInterpreter (p : Platform) (numInstructions callStackReturnTop : Nat) : Exec Unit := do
  modify fun m => { m with result := .ok }
  let m ← get
  assert (callStackReturnTop < m.thread.callStack.length)
  modify fun m => { m with pc := m.thread.pc }
  loop p callStackReturnTop numInstructions
  modify fun m => { m with thread := { m.thread with pc := SexprWasm.u32 m.pc } }

end Machine

end Interpreter

end SexprWasm
