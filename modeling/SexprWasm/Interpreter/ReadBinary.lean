import SexprWasm.BinaryReader.Reader
import SexprWasm.Interpreter.Environment

/-!
# From callbacks to the environment

`binary-reader-interpreter.c`: the loader checks types and emits code
in one pass. The type stack and the label stack are lists with the top
first; a depth that has been through `translate_depth` counts from the
bottom, as in C, and indexes `depthFixups` and `getLabel`.
`ctx->module` is kept apart from the modules before it and joins them
when the reader returns. What a failing host delegate leaves appended
is dropped by the reset that follows; here the object is appended when
the delegate has succeeded.

Every `assert` and every access to a vector is an `orAbort` or an
`assert`. Sizes are of type `size_t`, which is 64 bits wide; offsets,
limits, drop counts and local counts are cut to 32 bits.
-/

namespace SexprWasm

namespace Interpreter

inductive LabelType
  | func | block | loop | if_ | else_
  deriving DecidableEq, Repr

/-- `offset` is the branch location in the istream. -/
structure Label where
  labelType : LabelType
  sig : List ValueType
  typeStackLimit : Nat
  offset : Nat
  fixupOffset : Nat
  deriving DecidableEq, Repr

/-- `is_host_import` with `host_import_module` or `import_index`. -/
inductive ImportSource
  | host (moduleIndex : Nat)
  | module (importIndex : Nat)
  deriving DecidableEq, Repr

/-- `currentFunc` is an index into the functions of the environment. -/
structure Context where
  env : Environment
  module : DefinedModule
  currentFunc : Option Nat := none
  typeStack : List WasmType := []
  labelStack : List Label := []
  funcFixups : List (List Nat) := []
  depthFixups : List (List Nat) := []
  istreamOffset : Nat
  sigIndexMapping : List Nat := []
  funcIndexMapping : List Nat := []
  globalIndexMapping : List Nat := []
  numFuncImports : Nat := 0
  numGlobalImports : Nat := 0
  initExprValue : TypedValue := ⟨.any, 0⟩
  tableOffset : Nat := 0
  importSource : ImportSource := .module 0

abbrev Load (α : Type) : Type := Callback Context α

open Callback

/-- The opcodes only the interpreter has. -/
inductive InterpreterOpcode
  | alloca | brUnless | callHost | data | dropKeep
  deriving DecidableEq, Repr

/-- They follow the last opcode of the binary format. -/
def InterpreterOpcode.code : InterpreterOpcode → Nat
  | .alloca => 0xc0
  | .brUnless => 0xc1
  | .callHost => 0xc2
  | .data => 0xc3
  | .dropKeep => 0xc4

/-- `WASM_TABLE_ENTRY_SIZE`. -/
def tableEntrySize : Nat := 9

/-- Subtraction of `size_t`. -/
def sizeSub (a b : Nat) : Nat := if b ≤ a then a - b else a + 2 ^ 64 - b

def modifyEnv (f : Environment → Environment) : Load Unit :=
  modify fun c => { c with env := f c.env }

/-! ## Index spaces -/

/-- A label by its depth from the bottom. -/
def getLabel (depth : Nat) : Load Label := do
  let c ← get
  orAbort c.labelStack.reverse[depth]?

def topLabel : Load Label := do
  let c ← get
  orAbort c.labelStack.head?

def translateSigIndexToEnv (sigIndex : Nat) : Load Nat := do
  let c ← get
  orAbort c.sigIndexMapping[sigIndex]?

def getSignatureByEnvIndex (sigIndex : Nat) : Load FuncSignature := do
  let c ← get
  orAbort c.env.sigs[sigIndex]?

def getSignatureByModuleIndex (sigIndex : Nat) : Load FuncSignature := do
  getSignatureByEnvIndex (← translateSigIndexToEnv sigIndex)

def translateFuncIndexToEnv (funcIndex : Nat) : Load Nat := do
  let c ← get
  orAbort c.funcIndexMapping[funcIndex]?

def translateDefinedFuncIndexToEnv (funcIndex : Nat) : Load Nat := do
  let c ← get
  translateFuncIndexToEnv (funcIndex + c.numFuncImports)

def translateModuleFuncIndexToDefined (funcIndex : Nat) : Load Nat := do
  let c ← get
  assert (c.numFuncImports ≤ funcIndex)
  return funcIndex - c.numFuncImports

def getFuncByEnvIndex (funcIndex : Nat) : Load Func := do
  let c ← get
  orAbort c.env.funcs[funcIndex]?

/-- A function whose union is read as `defined`. -/
def getDefinedFunc (funcIndex : Nat) : Load DefinedFunc := do
  match ← getFuncByEnvIndex funcIndex with
  | .defined func => return func
  | .host _ => abort

def setDefinedFunc (funcIndex : Nat) (func : DefinedFunc) : Load Unit :=
  modifyEnv fun env => { env with funcs := env.funcs.set funcIndex (.defined func) }

def translateGlobalIndexToEnv (globalIndex : Nat) : Load Nat := do
  let c ← get
  orAbort c.globalIndexMapping[globalIndex]?

def translateDefinedGlobalIndexToEnv (globalIndex : Nat) : Load Nat := do
  let c ← get
  translateGlobalIndexToEnv (globalIndex + c.numGlobalImports)

def getGlobalByEnvIndex (globalIndex : Nat) : Load Global := do
  let c ← get
  orAbort c.env.globals[globalIndex]?

def getGlobalByModuleIndex (globalIndex : Nat) : Load Global := do
  getGlobalByEnvIndex (← translateGlobalIndexToEnv globalIndex)

def getLocalTypeByIndex (func : DefinedFunc) (localIndex : Nat) : Load ValueType :=
  orAbort func.paramAndLocalTypes[localIndex]?

def translateLocalIndex (localIndex : Nat) : Load Nat := do
  let c ← get
  assert (localIndex < c.typeStack.length)
  return u32 (c.typeStack.length - localIndex)

/-- The function `ctx->current_func` points to, with its index. -/
def getCurrentFunc : Load (Nat × DefinedFunc) := do
  let c ← get
  let funcIndex ← orAbort c.currentFunc
  return (funcIndex, ← getDefinedFunc funcIndex)

/-! ## Emitting code -/

def emitDataAt (offset : Nat) (data : List UInt8) : Load Unit :=
  modifyEnv fun env => { env with istream := Buffer.writeAt 0 env.istream offset data }

def emitData (data : List UInt8) : Load Unit := do
  let c ← get
  emitDataAt c.istreamOffset data
  modify fun c => { c with istreamOffset := u32 (c.istreamOffset + data.length) }

def emitI8 (value : Nat) : Load Unit := emitData (Buffer.leBytes 1 value)
def emitI32 (value : Nat) : Load Unit := emitData (Buffer.leBytes 4 value)
def emitI64 (value : Nat) : Load Unit := emitData (Buffer.leBytes 8 value)
def emitI32At (offset value : Nat) : Load Unit := emitDataAt offset (Buffer.leBytes 4 value)

def emitOpcode (opcode : WasmOpcode) : Load Unit := emitI8 opcode.code
def emitInterpreterOpcode (opcode : InterpreterOpcode) : Load Unit := emitI8 opcode.code

def getIstreamOffset : Load Nat := do
  let c ← get
  return c.istreamOffset

def emitDropKeep (drop keep : Nat) : Load Unit := do
  assert (drop ≠ maxU32 - 1)
  assert (keep ≤ 1)
  when (0 < drop) <|
    if drop = 1 ∧ keep = 0 then
      emitOpcode .drop
    else do
      emitInterpreterOpcode .dropKeep
      emitI32 drop
      emitI8 keep

/-- `append_fixup` to the entry `index`, after the vector has been resized if it is
too short. -/
def appendFixup (fixups : List (List Nat)) (index offset : Nat) : List (List Nat) :=
  (fixups ++ List.replicate (index + 1 - fixups.length) []).modify index (· ++ [offset])

def emitBrOffset (depth offset : Nat) : Load Unit := do
  when (offset = invalidOffset) <| modify fun c =>
    { c with depthFixups := appendFixup c.depthFixups depth c.istreamOffset }
  emitI32 offset

def getLabelBrArity (label : Label) : Nat :=
  if label.labelType ≠ .loop then label.sig.length else 0

/-- `drop_count` of `emit_br` and `emit_br_table_offset`, with the assertion before it. -/
def brDropCount (label : Label) : Load Nat := do
  let c ← get
  let arity := getLabelBrArity label
  assert (u32 (label.typeStackLimit + arity) ≤ c.typeStack.length)
  return u32 (sizeSub (sizeSub c.typeStack.length label.typeStackLimit) arity)

def emitBr (depth : Nat) : Load Unit := do
  let label ← getLabel depth
  let dropCount ← brDropCount label
  emitDropKeep dropCount (getLabelBrArity label)
  emitOpcode .br
  emitBrOffset depth label.offset

def emitBrTableOffset (depth : Nat) : Load Unit := do
  let label ← getLabel depth
  let dropCount ← brDropCount label
  emitBrOffset depth label.offset
  emitI32 dropCount
  emitI8 (getLabelBrArity label)

def fixupTopLabel (offset : Nat) : Load Unit := do
  let c ← get
  let top := c.labelStack.length - 1
  match c.depthFixups[top]? with
  | none => Callback.pure ()
  | some fixups => do
    forEach (fun fixup => emitI32At fixup offset) fixups
    modify fun c => { c with depthFixups := c.depthFixups.set top [] }

def emitFuncOffset (func : DefinedFunc) (funcIndex : Nat) : Load Unit := do
  when (func.offset = invalidOffset) do
    let definedIndex ← translateModuleFuncIndexToDefined funcIndex
    modify fun c => { c with funcFixups := appendFixup c.funcFixups definedIndex c.istreamOffset }
  emitI32 func.offset

/-! ## The type stack -/

def translateDepth (depth : Nat) : Load Nat := do
  let c ← get
  assert (depth < c.labelStack.length)
  return c.labelStack.length - 1 - depth

def pushLabel (labelType : LabelType) (sig : List ValueType) (offset fixupOffset : Nat) :
    Load Unit :=
  modify fun c =>
    { c with
      labelStack :=
        { labelType, sig, typeStackLimit := u32 c.typeStack.length, offset, fixupOffset } ::
          c.labelStack }

def popLabel : Load Unit := do
  let _ ← topLabel
  modify fun c =>
    { c with
      labelStack := c.labelStack.tail
      depthFixups := c.depthFixups.take (c.labelStack.length - 1) }

def topType : Load WasmType := do
  let c ← get
  let label ← topLabel
  assert (label.typeStackLimit < c.typeStack.length)
  orAbort c.typeStack.head?

def topTypeIsAny : Load Bool := do
  let c ← get
  let (_, func) ← getCurrentFunc
  return func.paramAndLocalTypes.length < c.typeStack.length && c.typeStack.head? = some .any

/-- `RETURN_OK_IF_TOP_TYPE_IS_ANY`, and `check` otherwise. -/
def unlessTopTypeIsAny (check : Load Unit) : Load Unit := do
  let isAny ← topTypeIsAny
  when (!isAny) check

/-- How many entries are above the limit of the top label. -/
def typeStackAvail : Load Nat := do
  let c ← get
  let label ← topLabel
  return sizeSub c.typeStack.length label.typeStackLimit

def checkTypeStackLimit (expected : Nat) : Load Unit :=
  unlessTopTypeIsAny do
    let avail ← typeStackAvail
    ensure (expected ≤ avail)

def checkTypeStackLimitExact (expected : Nat) : Load Unit :=
  unlessTopTypeIsAny do
    let avail ← typeStackAvail
    ensure (expected = avail)

/-- `type_stack.size = limit`; a larger size would show entries past the end. -/
def resetTypeStackTo (limit : Nat) : Load Unit := do
  let c ← get
  assert (limit ≤ c.typeStack.length)
  modify fun c => { c with typeStack := c.typeStack.drop (c.typeStack.length - limit) }

def resetTypeStackToLimit : Load Unit := do
  let label ← topLabel
  resetTypeStackTo label.typeStackLimit

def checkType (expected actual : WasmType) : Load Unit :=
  unlessTopTypeIsAny (ensure (expected = actual))

/-- The topmost entries are compared with `expected` in reverse, from the lowest up. -/
def checkNTypes (expected : List ValueType) : Load Unit :=
  unlessTopTypeIsAny do
    checkTypeStackLimit expected.length
    let c ← get
    assert (expected.length ≤ c.typeStack.length)
    forEach (fun types => checkType types.1 types.2)
      (expected.reverse.map ValueType.toType |>.zip (c.typeStack.take expected.length).reverse)

def popType : Load WasmType := do
  let type ← topType
  when (type ≠ .any) <| modify fun c => { c with typeStack := c.typeStack.tail }
  return type

def pushType (type : WasmType) : Load Unit :=
  unlessTopTypeIsAny <|
    when (type ≠ .void) <| modify fun c => { c with typeStack := type :: c.typeStack }

def pushTypes (types : List ValueType) : Load Unit :=
  unlessTopTypeIsAny (forEach (fun type => pushType type) types)

def popAndCheck1Type (expected : WasmType) : Load Unit :=
  unlessTopTypeIsAny do
    checkTypeStackLimit 1
    let actual ← popType
    checkType expected actual

def popAndCheck2Types (expected1 expected2 : WasmType) : Load Unit :=
  unlessTopTypeIsAny do
    checkTypeStackLimit 2
    let actual2 ← popType
    let actual1 ← popType
    checkType expected1 actual1
    checkType expected2 actual2

def checkOpcode1 (opcode : WasmOpcode) : Load Unit :=
  unlessTopTypeIsAny do
    popAndCheck1Type opcode.info.param1Type
    pushType opcode.info.resultType

def checkOpcode2 (opcode : WasmOpcode) : Load Unit :=
  unlessTopTypeIsAny do
    popAndCheck2Types opcode.info.param1Type opcode.info.param2Type
    pushType opcode.info.resultType

/-- The loop of `on_call_expr` and `on_call_indirect_expr` over the parameters. -/
def popParams (paramTypes : List ValueType) : Load Unit :=
  forEach (fun (expected : ValueType) => do
    let arg ← popType
    checkType expected arg) paramTypes.reverse

def dropTypesForReturn (arity : Nat) : Load Unit :=
  unlessTopTypeIsAny do
    let c ← get
    if arity ≤ c.typeStack.length then
      emitDropKeep (u32 (c.typeStack.length - arity)) arity
    else
      assert (c.typeStack.length = 0)

/-! ## Function bodies -/

def beginFunctionBody (index : Nat) : Load Unit := do
  let funcIndex ← translateDefinedFuncIndexToEnv index
  let func ← getDefinedFunc funcIndex
  let sig ← getSignatureByEnvIndex func.sigIndex
  let offset ← getIstreamOffset
  modify fun c =>
    { c with currentFunc := some funcIndex, depthFixups := [], typeStack := [], labelStack := [] }
  let c ← get
  let fixups ← orAbort c.funcFixups[index]?
  forEach (fun fixup => emitI32At fixup offset) fixups
  setDefinedFunc funcIndex
    { func with
      offset
      localDeclCount := 0
      localCount := 0
      paramAndLocalTypes := func.paramAndLocalTypes ++ sig.paramTypes }
  modify fun c => { c with typeStack := sig.paramTypes.reverse.map ValueType.toType }
  pushLabel .func sig.resultTypes invalidOffset invalidOffset

def endFunctionBody : Load Unit := do
  let label ← topLabel
  ensure (label.labelType = .func)
  checkNTypes label.sig
  checkTypeStackLimitExact label.sig.length
  fixupTopLabel (← getIstreamOffset)
  let isAny ← topTypeIsAny
  -- unreachable, unless a branch comes here, and then the stack has been checked
  when isAny do
    resetTypeStackToLimit
    pushTypes label.sig
  dropTypesForReturn label.sig.length
  emitOpcode .return_
  popLabel
  modify fun c => { c with currentFunc := none, typeStack := [] }

def onLocalDeclCount (count : Nat) : Load Unit := do
  let (funcIndex, func) ← getCurrentFunc
  setDefinedFunc funcIndex { func with localDeclCount := count }

def onLocalDecl (declIndex count : Nat) (type : ValueType) : Load Unit := do
  let (funcIndex, func) ← getCurrentFunc
  let localCount := u32 (func.localCount + count)
  setDefinedFunc funcIndex { func with localCount }
  forEach (fun (type : ValueType) => do
    let (funcIndex, func) ← getCurrentFunc
    setDefinedFunc funcIndex { func with paramAndLocalTypes := func.paramAndLocalTypes ++ [type] }
    pushType type) (List.replicate count type)
  -- `local_decl_count - 1` wraps if the count is 0, and then there is no declaration
  when (declIndex + 1 = func.localDeclCount) do
    emitInterpreterOpcode .alloca
    emitI32 localCount
    let label ← topLabel
    assert (label.labelType = .func)
    modify fun c =>
      { c with
        labelStack :=
          { label with typeStackLimit := u32 (label.typeStackLimit + localCount) } ::
            c.labelStack.tail }

def onUnaryExpr (opcode : WasmOpcode) : Load Unit := do
  checkOpcode1 opcode
  emitOpcode opcode

def onBinaryExpr (opcode : WasmOpcode) : Load Unit := do
  checkOpcode2 opcode
  emitOpcode opcode

def onIfExpr (sig : List ValueType) : Load Unit := do
  checkTypeStackLimit 1
  popAndCheck1Type .i32
  emitInterpreterOpcode .brUnless
  let fixupOffset ← getIstreamOffset
  emitI32 invalidOffset
  pushLabel .if_ sig invalidOffset fixupOffset

def onElseExpr : Load Unit := do
  let label ← topLabel
  ensure (label.labelType = .if_)
  checkNTypes label.sig
  let fixupCondOffset := label.fixupOffset
  emitOpcode .br
  let fixupOffset ← getIstreamOffset
  modify fun c =>
    { c with
      labelStack := { label with labelType := .else_, fixupOffset } :: c.labelStack.tail }
  emitI32 invalidOffset
  emitI32At fixupCondOffset (← getIstreamOffset)
  resetTypeStackTo label.typeStackLimit

/-- The switch of `on_end_expr`. -/
def fixupIf (label : Label) : Load Unit := do
  let offset ← getIstreamOffset
  match label.labelType with
  | .if_ | .else_ => emitI32At label.fixupOffset offset
  | .block | .loop => Callback.pure ()
  | .func => error

def onEndExpr : Load Unit := do
  let label ← topLabel
  fixupIf label
  checkNTypes label.sig
  checkTypeStackLimitExact label.sig.length
  fixupTopLabel (← getIstreamOffset)
  resetTypeStackToLimit
  pushTypes label.sig
  popLabel

/-- The end of the unconditional branches. -/
def setUnreachable : Load Unit := do
  resetTypeStackToLimit
  pushType .any

def checkDepth (depth : Nat) : Load Unit := do
  let c ← get
  ensure (depth < c.labelStack.length)

def onBrExpr (depth : Nat) : Load Unit := do
  checkDepth depth
  let depth ← translateDepth depth
  let label ← getLabel depth
  when (label.labelType ≠ .loop) (checkNTypes label.sig)
  emitBr depth
  setUnreachable

def onBrIfExpr (depth : Nat) : Load Unit := do
  checkDepth depth
  let depth ← translateDepth depth
  popAndCheck1Type .i32
  -- flipped, so that the branch taken can drop values from the stack
  emitInterpreterOpcode .brUnless
  let fixupBrOffset ← getIstreamOffset
  emitI32 invalidOffset
  emitBr depth
  emitI32At fixupBrOffset (← getIstreamOffset)

def onBrTableTarget (depth : Nat) : Load Unit := do
  let depth ← translateDepth depth
  let label ← getLabel depth
  checkNTypes label.sig
  emitBrTableOffset depth

def onBrTableExpr (targetDepths : List Nat) (defaultTargetDepth : Nat) : Load Unit := do
  popAndCheck1Type .i32
  emitOpcode .brTable
  emitI32 targetDepths.length
  let fixupTableOffset ← getIstreamOffset
  emitI32 invalidOffset
  -- says how many bytes of data follow, for the disassembler
  emitInterpreterOpcode .data
  emitI32 (u32 ((targetDepths.length + 1) * tableEntrySize))
  emitI32At fixupTableOffset (← getIstreamOffset)
  forEach onBrTableTarget (targetDepths ++ [defaultTargetDepth])
  setUnreachable

def emitCall (func : Func) (envIndex funcIndex : Nat) : Load Unit :=
  match func with
  | .host _ => do
    emitInterpreterOpcode .callHost
    emitI32 envIndex
  | .defined func => do
    emitOpcode .call
    emitFuncOffset func funcIndex

def onCallExpr (funcIndex : Nat) : Load Unit := do
  let envIndex ← translateFuncIndexToEnv funcIndex
  let func ← getFuncByEnvIndex envIndex
  let sig ← getSignatureByEnvIndex func.sigIndex
  checkTypeStackLimit sig.paramTypes.length
  popParams sig.paramTypes
  emitCall func envIndex funcIndex
  pushTypes sig.resultTypes

def onCallIndirectExpr (sigIndex : Nat) : Load Unit := do
  let envIndex ← translateSigIndexToEnv sigIndex
  let sig ← getSignatureByEnvIndex envIndex
  popAndCheck1Type .i32
  checkTypeStackLimit sig.paramTypes.length
  popParams sig.paramTypes
  emitOpcode .callIndirect
  let c ← get
  emitI32 c.module.tableIndex
  emitI32 envIndex
  pushTypes sig.resultTypes

def onDropExpr : Load Unit := do
  checkTypeStackLimit 1
  emitOpcode .drop
  let _ ← popType

def onConstExpr (opcode : WasmOpcode) (type : ValueType) (emitValue : Load Unit) : Load Unit := do
  emitOpcode opcode
  emitValue
  pushType type

def onI32ConstExpr (value : Nat) : Load Unit := onConstExpr .i32Const .i32 (emitI32 value)
def onI64ConstExpr (value : Nat) : Load Unit := onConstExpr .i64Const .i64 (emitI64 value)
def onF32ConstExpr (valueBits : Nat) : Load Unit := onConstExpr .f32Const .f32 (emitI32 valueBits)
def onF64ConstExpr (valueBits : Nat) : Load Unit := onConstExpr .f64Const .f64 (emitI64 valueBits)

def checkGlobal (globalIndex : Nat) : Load Unit := do
  let c ← get
  ensure (globalIndex < u32 c.globalIndexMapping.length)

def onGetGlobalExpr (globalIndex : Nat) : Load Unit := do
  checkGlobal globalIndex
  let global ← getGlobalByModuleIndex globalIndex
  emitOpcode .getGlobal
  emitI32 (← translateGlobalIndexToEnv globalIndex)
  pushType global.typedValue.type

def onSetGlobalExpr (globalIndex : Nat) : Load Unit := do
  checkGlobal globalIndex
  let global ← getGlobalByModuleIndex globalIndex
  ensure global.mutable_
  popAndCheck1Type global.typedValue.type
  emitOpcode .setGlobal
  emitI32 (← translateGlobalIndexToEnv globalIndex)

/-- `CHECK_LOCAL`, and the type of the local. -/
def checkLocal (localIndex : Nat) : Load ValueType := do
  let (_, func) ← getCurrentFunc
  ensure (localIndex < u32 func.paramAndLocalTypes.length)
  getLocalTypeByIndex func localIndex

def onGetLocalExpr (localIndex : Nat) : Load Unit := do
  let type ← checkLocal localIndex
  emitOpcode .getLocal
  emitI32 (← translateLocalIndex localIndex)
  pushType type

def onSetLocalExpr (localIndex : Nat) : Load Unit := do
  let type ← checkLocal localIndex
  popAndCheck1Type type
  emitOpcode .setLocal
  emitI32 (← translateLocalIndex localIndex)

def onTeeLocalExpr (localIndex : Nat) : Load Unit := do
  let type ← checkLocal localIndex
  checkTypeStackLimit 1
  let value ← topType
  checkType type value
  emitOpcode .teeLocal
  emitI32 (← translateLocalIndex localIndex)

def onGrowMemoryExpr : Load Unit := do
  popAndCheck1Type .i32
  emitOpcode .growMemory
  let c ← get
  emitI32 c.module.memoryIndex
  pushType .i32

/-- The immediates of a load or a store. -/
def emitMemoryAccess (opcode : WasmOpcode) (offset : Nat) : Load Unit := do
  emitOpcode opcode
  let c ← get
  emitI32 c.module.memoryIndex
  emitI32 offset

def onLoadExpr (opcode : WasmOpcode) (offset : Nat) : Load Unit := do
  checkOpcode1 opcode
  emitMemoryAccess opcode offset

def onStoreExpr (opcode : WasmOpcode) (offset : Nat) : Load Unit := do
  checkOpcode2 opcode
  emitMemoryAccess opcode offset

def onCurrentMemoryExpr : Load Unit := do
  emitOpcode .currentMemory
  let c ← get
  emitI32 c.module.memoryIndex
  pushType .i32

def onReturnExpr : Load Unit := do
  let (_, func) ← getCurrentFunc
  let sig ← getSignatureByEnvIndex func.sigIndex
  checkNTypes sig.resultTypes
  dropTypesForReturn sig.resultTypes.length
  emitOpcode .return_
  setUnreachable

def onSelectExpr : Load Unit := do
  popAndCheck1Type .i32
  checkTypeStackLimit 2
  let right ← popType
  let left ← popType
  checkType left right
  emitOpcode .select
  pushType left

def onUnreachableExpr : Load Unit := do
  emitOpcode .unreachable
  setUnreachable

/-- The alignment of a memory access is not looked at. -/
def onExpr : Instr → Load Unit
  | .unreachable => onUnreachableExpr
  | .nop => Callback.pure ()
  | .block sig => pushLabel .block sig invalidOffset invalidOffset
  | .loop sig => do pushLabel .loop sig (← getIstreamOffset) invalidOffset
  | .if_ sig => onIfExpr sig
  | .else_ => onElseExpr
  | .end_ => onEndExpr
  | .br depth => onBrExpr depth
  | .brIf depth => onBrIfExpr depth
  | .brTable targetDepths defaultTargetDepth => onBrTableExpr targetDepths defaultTargetDepth
  | .return_ => onReturnExpr
  | .call funcIndex => onCallExpr funcIndex
  | .callIndirect sigIndex => onCallIndirectExpr sigIndex
  | .drop => onDropExpr
  | .select => onSelectExpr
  | .getLocal localIndex => onGetLocalExpr localIndex
  | .setLocal localIndex => onSetLocalExpr localIndex
  | .teeLocal localIndex => onTeeLocalExpr localIndex
  | .getGlobal globalIndex => onGetGlobalExpr globalIndex
  | .setGlobal globalIndex => onSetGlobalExpr globalIndex
  | .load opcode _ offset => onLoadExpr opcode offset
  | .store opcode _ offset => onStoreExpr opcode offset
  | .currentMemory => onCurrentMemoryExpr
  | .growMemory => onGrowMemoryExpr
  | .i32Const value => onI32ConstExpr value
  | .i64Const value => onI64ConstExpr value
  | .f32Const valueBits => onF32ConstExpr valueBits
  | .f64Const valueBits => onF64ConstExpr valueBits
  | .unary opcode => onUnaryExpr opcode
  | .binary opcode => onBinaryExpr opcode
  | .compare opcode => onBinaryExpr opcode
  | .convert opcode => onUnaryExpr opcode

/-! ## Sections -/

def modifyModule (f : DefinedModule → DefinedModule) : Load Unit :=
  modify fun c => { c with module := f c.module }

def onSignatureCount (count : Nat) : Load Unit :=
  modify fun c =>
    { c with
      sigIndexMapping := (List.range count).map (c.env.sigs.length + ·)
      env := { c.env with sigs := c.env.sigs ++ List.replicate count ⟨[], []⟩ } }

def onSignature (index : Nat) (paramTypes resultTypes : List ValueType) : Load Unit := do
  let envIndex ← translateSigIndexToEnv index
  let _ ← getSignatureByEnvIndex envIndex
  modifyEnv fun env => { env with sigs := env.sigs.set envIndex { paramTypes, resultTypes } }

def onImportCount (count : Nat) : Load Unit :=
  modifyModule fun m => { m with imports := List.replicate count ⟨[], [], .func⟩ }

def getImport (index : Nat) : Load Import := do
  let c ← get
  orAbort c.module.imports[index]?

/-- The modules of the environment, with the one being read as the last. -/
def Context.modules (c : Context) : List Module := c.env.modules ++ [.defined c.module]

def setImport (index : Nat) (import_ : Import) (source : ImportSource) : Load Unit :=
  modify fun c =>
    { c with
      module := { c.module with imports := c.module.imports.set index import_ }
      importSource := source }

def onImport (index : Nat) (moduleName fieldName : List UInt8) : Load Unit := do
  let import_ ← getImport index
  let c ← get
  match findBindingIndexByName c.env.registeredModuleBindings moduleName with
  | none => error
  | some moduleIndex =>
      match ← orAbort c.modules[moduleIndex]? with
      | .host _ =>
          setImport index { import_ with moduleName, fieldName } (.host moduleIndex)
      | .defined module =>
          match ← orAbort (module.getExportByName fieldName) with
          | none => error
          | some export_ =>
              setImport index { moduleName, fieldName, kind := export_.kind }
                (.module export_.index)

def checkImportKind (import_ : Import) (expectedKind : ExternalKind) : Load Unit :=
  ensure (import_.kind = expectedKind)

def checkImportLimits (declaredLimits actualLimits : Limits) : Load Unit :=
  ensure (declaredLimits.initial ≤ actualLimits.initial &&
    (!declaredLimits.hasMax || actualLimits.hasMax && actualLimits.max ≤ declaredLimits.max))

/-- The delegate of `ctx->host_import_module`. -/
def getHostDelegate (moduleIndex : Nat) : Load HostImportDelegate := do
  let c ← get
  match ← orAbort c.env.modules[moduleIndex]? with
  | .host module => return module.importDelegate
  | .defined _ => abort

/-- `append_export` to `ctx->host_import_module`. -/
def appendHostExport (moduleIndex : Nat) (kind : ExternalKind) (itemIndex : Nat)
    (name : List UInt8) : Load Unit :=
  modifyEnv fun env =>
    { env with
      modules := env.modules.modify moduleIndex
        (Module.modifyHeader fun m => m.appendExport kind itemIndex name) }

def appendFuncImport (funcIndex : Nat) : Load Unit :=
  modify fun c =>
    { c with
      funcIndexMapping := c.funcIndexMapping ++ [funcIndex]
      numFuncImports := c.numFuncImports + 1 }

def onImportFunc (index sigIndex : Nat) : Load Unit := do
  let import_ ← getImport index
  let c ← get
  assert (sigIndex < c.env.sigs.length)
  let sigIndex ← translateSigIndexToEnv sigIndex
  match c.importSource with
  | .host moduleIndex => do
      let delegate ← getHostDelegate moduleIndex
      let sig ← getSignatureByEnvIndex sigIndex
      match delegate.importFunc import_ sig with
      | none => error
      | some callback => do
          let func : HostFunc :=
            { sigIndex, moduleName := import_.moduleName, fieldName := import_.fieldName, callback }
          modifyEnv fun env => { env with funcs := env.funcs ++ [.host func] }
          appendHostExport moduleIndex .func c.env.funcs.length import_.fieldName
          appendFuncImport c.env.funcs.length
  | .module importIndex => do
      checkImportKind import_ .func
      let func ← getFuncByEnvIndex importIndex
      let importSig ← getSignatureByEnvIndex sigIndex
      let sig ← getSignatureByEnvIndex func.sigIndex
      ensure (sigIndex = func.sigIndex || funcSignaturesAreEqual importSig sig)
      appendFuncImport importIndex

/-- `init_table_func_indexes` on a new table. -/
def newTable (limits : Limits) : Table :=
  { limits, funcIndexes := List.replicate limits.initial invalidIndex }

def setTableIndex (tableIndex : Nat) : Load Unit :=
  modifyModule fun m => { m with tableIndex }

def setMemoryIndex (memoryIndex : Nat) : Load Unit :=
  modifyModule fun m => { m with memoryIndex }

def onImportTable (index : Nat) (elemLimits : Limits) : Load Unit := do
  let c ← get
  ensure (c.module.tableIndex = invalidIndex)
  let import_ ← getImport index
  match c.importSource with
  | .host moduleIndex => do
      let delegate ← getHostDelegate moduleIndex
      match delegate.importTable import_ (newTable elemLimits) with
      | none => error
      | some table => do
          modifyEnv fun env => { env with tables := env.tables ++ [table] }
          checkImportLimits elemLimits table.limits
          setTableIndex c.env.tables.length
          appendHostExport moduleIndex .table c.env.tables.length import_.fieldName
  | .module importIndex => do
      checkImportKind import_ .table
      let table ← orAbort c.env.tables[importIndex]?
      checkImportLimits elemLimits table.limits
      setTableIndex importIndex

def onImportMemory (index : Nat) (pageLimits : Limits) : Load Unit := do
  let c ← get
  ensure (c.module.memoryIndex = invalidIndex)
  let import_ ← getImport index
  match c.importSource with
  | .host moduleIndex => do
      let delegate ← getHostDelegate moduleIndex
      match delegate.importMemory import_ with
      | none => error
      | some memory => do
          modifyEnv fun env => { env with memories := env.memories ++ [memory] }
          checkImportLimits pageLimits memory.pageLimits
          setMemoryIndex c.env.memories.length
          appendHostExport moduleIndex .memory c.env.memories.length import_.fieldName
  | .module importIndex => do
      checkImportKind import_ .memory
      let memory ← orAbort c.env.memories[importIndex]?
      checkImportLimits pageLimits memory.pageLimits
      setMemoryIndex importIndex

def appendGlobalImport (globalIndex : Nat) : Load Unit :=
  modify fun c =>
    { c with
      globalIndexMapping := c.globalIndexMapping ++ [globalIndex]
      numGlobalImports := c.numGlobalImports + 1 }

/-- Type and mutability of a global of another module are not compared. -/
def onImportGlobal (index : Nat) (type : ValueType) (mutable_ : Bool) : Load Unit := do
  let c ← get
  let import_ ← getImport index
  match c.importSource with
  | .host moduleIndex => do
      let delegate ← getHostDelegate moduleIndex
      match delegate.importGlobal import_ { typedValue := ⟨type, 0⟩, mutable_ } with
      | none => error
      | some global => do
          modifyEnv fun env => { env with globals := env.globals ++ [global] }
          appendHostExport moduleIndex .global c.env.globals.length import_.fieldName
          appendGlobalImport c.env.globals.length
  | .module importIndex => do
      checkImportKind import_ .global
      appendGlobalImport importIndex

def onFunctionSignaturesCount (count : Nat) : Load Unit :=
  modify fun c =>
    { c with
      funcIndexMapping :=
        c.funcIndexMapping ++ (List.range count).map (c.env.funcs.length + ·)
      env := { c.env with funcs := c.env.funcs ++ List.replicate count (.defined ⟨0, 0, 0, 0, []⟩) }
      funcFixups := List.replicate count [] }

def onFunctionSignature (index sigIndex : Nat) : Load Unit := do
  let funcIndex ← translateDefinedFuncIndexToEnv index
  let func ← getDefinedFunc funcIndex
  let sigIndex ← translateSigIndexToEnv sigIndex
  setDefinedFunc funcIndex { func with offset := invalidOffset, sigIndex }

def onTable (elemLimits : Limits) : Load Unit := do
  let c ← get
  ensure (c.module.tableIndex = invalidIndex)
  modifyEnv fun env => { env with tables := env.tables ++ [newTable elemLimits] }
  setTableIndex c.env.tables.length

def onMemory (pageLimits : Limits) : Load Unit := do
  let c ← get
  ensure (c.module.memoryIndex = invalidIndex)
  let byteSize := u32 (pageLimits.initial * wasmPageSize)
  modifyEnv fun env =>
    { env with
      memories := env.memories ++ [{ pageLimits, byteSize, data := List.replicate byteSize 0 }] }
  setMemoryIndex c.env.memories.length

def onGlobalCount (count : Nat) : Load Unit :=
  modify fun c =>
    { c with
      globalIndexMapping :=
        c.globalIndexMapping ++ (List.range count).map (c.env.globals.length + ·)
      env := { c.env with globals := c.env.globals ++ List.replicate count ⟨⟨.any, 0⟩, false⟩ } }

def setGlobal (globalIndex : Nat) (global : Global) : Load Unit :=
  modifyEnv fun env => { env with globals := env.globals.set globalIndex global }

def beginGlobal (index : Nat) (type : ValueType) (mutable_ : Bool) : Load Unit := do
  let globalIndex ← translateDefinedGlobalIndexToEnv index
  let global ← getGlobalByEnvIndex globalIndex
  setGlobal globalIndex { typedValue := { global.typedValue with type }, mutable_ }

def endGlobalInitExpr (index : Nat) : Load Unit := do
  let globalIndex ← translateDefinedGlobalIndexToEnv index
  let global ← getGlobalByEnvIndex globalIndex
  let c ← get
  setGlobal globalIndex { global with typedValue := c.initExprValue }

def setInitExprValue (type : WasmType) (value : Nat) : Load Unit :=
  modify fun c => { c with initExprValue := ⟨type, value⟩ }

def onInitExpr : InitExpr → Load Unit
  | .i32Const value => setInitExprValue .i32 value
  | .i64Const value => setInitExprValue .i64 value
  | .f32Const valueBits => setInitExprValue .f32 valueBits
  | .f64Const valueBits => setInitExprValue .f64 valueBits
  | .getGlobal globalIndex => do
    let refGlobal ← getGlobalByModuleIndex globalIndex
    modify fun c => { c with initExprValue := refGlobal.typedValue }

def onExport (kind : ExternalKind) (itemIndex : Nat) (name : List UInt8) : Load Unit := do
  let c ← get
  let itemIndex ← match kind with
    | .func => translateFuncIndexToEnv itemIndex
    | .table => Callback.pure c.module.tableIndex
    | .memory => Callback.pure c.module.memoryIndex
    | .global => translateGlobalIndexToEnv itemIndex
  modifyModule fun m =>
    { m with toModuleHeader := m.toModuleHeader.appendExport kind itemIndex name }

def onStartFunction (funcIndex : Nat) : Load Unit := do
  let startFuncIndex ← translateFuncIndexToEnv funcIndex
  modifyModule fun m => { m with startFuncIndex }

def endElemSegmentInitExpr : Load Unit := do
  let c ← get
  assert (c.initExprValue.type = .i32)
  modify fun c => { c with tableOffset := u32 c.initExprValue.value }

def onElemSegmentFunctionIndex (funcIndex : Nat) : Load Unit := do
  let c ← get
  assert (c.module.tableIndex ≠ invalidIndex)
  let table ← orAbort c.env.tables[c.module.tableIndex]?
  ensure (c.tableOffset < table.funcIndexes.length)
  let funcIndex ← translateFuncIndexToEnv funcIndex
  modify fun c =>
    { c with
      tableOffset := u32 (c.tableOffset + 1)
      env :=
        { c.env with
          tables := c.env.tables.set c.module.tableIndex
            { table with funcIndexes := table.funcIndexes.set c.tableOffset funcIndex } } }

def onDataSegmentData (data : List UInt8) : Load Unit := do
  let c ← get
  assert (c.module.memoryIndex ≠ invalidIndex)
  let memory ← orAbort c.env.memories[c.module.memoryIndex]?
  assert (c.initExprValue.type = .i32)
  let address := u32 c.initExprValue.value
  let endAddress := address + data.length
  ensure (data.length = 0 || endAddress ≤ memory.byteSize)
  assert (data.length = 0 || endAddress ≤ memory.data.length)
  when (data.length ≠ 0) <| modifyEnv fun env =>
    { env with
      memories := env.memories.set c.module.memoryIndex
        { memory with data := Buffer.writeAt 0 memory.data address data } }

/-- `s_binary_reader`; the callbacks that are not set do nothing. -/
def interpreterReader : Event → Load Unit
  | .onSignatureCount count => onSignatureCount count
  | .onSignature index paramTypes resultTypes => onSignature index paramTypes resultTypes
  | .onImportCount count => onImportCount count
  | .onImport index moduleName fieldName => onImport index moduleName fieldName
  | .onImportFunc index sigIndex => onImportFunc index sigIndex
  | .onImportTable index elemLimits => onImportTable index elemLimits
  | .onImportMemory index pageLimits => onImportMemory index pageLimits
  | .onImportGlobal index type mutable_ => onImportGlobal index type mutable_
  | .onFunctionSignaturesCount count => onFunctionSignaturesCount count
  | .onFunctionSignature index sigIndex => onFunctionSignature index sigIndex
  | .onTable _ elemLimits => onTable elemLimits
  | .onMemory _ pageLimits => onMemory pageLimits
  | .onGlobalCount count => onGlobalCount count
  | .beginGlobal index type mutable_ => beginGlobal index type mutable_
  | .endGlobalInitExpr index => endGlobalInitExpr index
  | .onExport _ kind itemIndex name => onExport kind itemIndex name
  | .onStartFunction funcIndex => onStartFunction funcIndex
  | .beginFunctionBody index => beginFunctionBody index
  | .onLocalDeclCount count => onLocalDeclCount count
  | .onLocalDecl declIndex count type => onLocalDecl declIndex count type
  | .onExpr instr => onExpr instr
  | .endFunctionBody _ => endFunctionBody
  | .endElemSegmentInitExpr _ => endElemSegmentInitExpr
  | .onElemSegmentFunctionIndex _ funcIndex => onElemSegmentFunctionIndex funcIndex
  | .onDataSegmentData _ data => onDataSegmentData data
  | .onInitExpr _ e => onInitExpr e
  | _ => Callback.pure ()

/-- The context `wasm_read_binary_interpreter` starts with. -/
def initialContext (env : Environment) : Context where
  env
  module :=
    { name := []
      exports := []
      exportBindings := {}
      memoryIndex := invalidIndex
      tableIndex := invalidIndex
      imports := []
      startFuncIndex := invalidIndex
      istreamStart := env.istream.length
      istreamEnd := 0 }
  istreamOffset := u32 env.istream.length

/-- The environment a successful load leaves. -/
def Context.finish (c : Context) : Environment :=
  { c.env with
    modules := c.env.modules ++ [.defined { c.module with istreamEnd := c.istreamOffset }]
    istream := c.env.istream.take c.istreamOffset }

/-- The environment a failed load leaves. -/
def Context.rollback (mark : Mark) (c : Context) : Environment :=
  Environment.resetToMark { c.env with modules := c.modules } mark

/-- `wasm_read_binary_interpreter`. -/
def wasmReadBinaryInterpreter (options : ReadBinaryOptions) (data : List UInt8) :
    Callback Environment Unit := fun env =>
  match wasmReadBinary interpreterReader options data (initialContext env) with
  | .ok _ c => .ok () c.finish
  | .error c => .error (c.rollback env.mark)
  | .abort => .abort

end Interpreter

end SexprWasm
