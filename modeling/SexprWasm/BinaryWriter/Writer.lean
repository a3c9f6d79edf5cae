import SexprWasm.Ast.Syntax
import SexprWasm.BinaryWriter.Locals
import SexprWasm.BinaryWriter.Stream
import SexprWasm.Text.BindingHash

/-!
# Writing a module

`binary-writer.c` above the stream. A section of `write_module` is a
definition of its own. Variables are resolved, so the `..._by_var` lookups
return the index as an `int`; only the one for signatures may fail. What
the name section needs of a `WasmFunc` beside its signature and locals is
given by the position of the function in `module->funcs`.
-/

namespace SexprWasm

namespace BinaryWriter

open Ast WasmStream

/-- `WasmBinarySection`. -/
inductive BinarySection
  | custom | type | import_ | function | table | memory | global | export_ | start | elem | code
  | data
  deriving DecidableEq, Repr

def BinarySection.sectionCode : BinarySection → Nat
  | .custom => 0
  | .type => 1
  | .import_ => 2
  | .function => 3
  | .table => 4
  | .memory => 5
  | .global => 6
  | .export_ => 7
  | .start => 8
  | .elem => 9
  | .code => 10
  | .data => 11

def wasmBinaryMagic : Nat := 0x6d736100
def wasmBinaryVersion : Nat := 0x0d

/-- `WASM_BINARY_SECTION_NAME`. -/
def wasmBinarySectionName : List UInt8 := [0x6e, 0x61, 0x6d, 0x65]

/-- `leb_size_guess` of `write_module`. -/
def lebSizeGuess : Nat := 1

/-! ## Indices -/

/-- `wasm_get_func_index_by_var` and its siblings. -/
def indexByVar (var : Var) : Int := cInt var

def wasmGetFuncTypeIndexBySig (m : Module) (sig : FuncSignature) : Int :=
  match m.funcTypes.findIdx? (· = sig) with
  | some i => cInt i
  | none => -1

def wasmGetFuncTypeIndexByDecl (m : Module) (decl : FuncDeclaration) : Int :=
  match decl.typeVar with
  | some var => indexByVar var
  | none => wasmGetFuncTypeIndexBySig m decl.sig

section Write

variable (options : WriteBinaryOptions) (m : Module)

/-- `assert(is_invalid || (index >= 0 && (size_t)index < size))`. -/
def assertIndex (index : Int) (size : Nat) : WriteM Unit :=
  assert (options.isInvalid || (0 ≤ index && index < size))

/-! ## Expressions -/

/-- The loop of `log2_u32`, for at most `fuel` turns. -/
def countLog2 : Nat → Nat → Nat
  | 0, _ => 0
  | fuel + 1, x => if x > 1 then countLog2 fuel (x / 2) + 1 else 0

/-- `log2_u32`; at most one bit of an `uint32_t` is left after 31 turns. -/
def log2U32 (x : Nat) : Nat := countLog2 32 x

def wasmGetOpcodeAlignment (opcode : WasmOpcode) (alignment : Nat) : Nat :=
  if alignment = useNaturalAlignment then opcode.info.memorySize else alignment

def writeInlineSignatureType : List ValueType → WriteM Unit
  | [] => wasmWriteType .void
  | [type] => wasmWriteType type
  | _ => wasmWriteU8 0xff

/-- `get_label_var_depth` and the number written. -/
def writeLabelVarDepth (var : Var) : WriteM Unit := writeU32Leb128 var

def writeLoadStore (opcode : WasmOpcode) (align offset : Nat) : WriteM Unit := do
  wasmWriteOpcode opcode
  let align := wasmGetOpcodeAlignment opcode align
  wasmWriteU8 (log2U32 align)
  writeU32Leb128 offset

def writeConst (const_ : Const) : WriteM Unit :=
  match const_.type with
  | .i32 => do
    wasmWriteOpcode .i32Const
    writeI32Leb128 const_.bits
  | .i64 => do
    wasmWriteOpcode .i64Const
    WasmStream.writeI64Leb128 const_.bits
  | .f32 => do
    wasmWriteOpcode .f32Const
    wasmWriteU32 const_.bits
  | .f64 => do
    wasmWriteOpcode .f64Const
    wasmWriteU64 const_.bits

def writeVar (opcode : WasmOpcode) (var : Var) : WriteM Unit := do
  let index := indexByVar var
  wasmWriteOpcode opcode
  writeU32Leb128 index

/-- `write_expr`, for an expression without a body. -/
def writeExpr : Expr → WriteM Unit
  | .unreachable => wasmWriteOpcode .unreachable
  | .nop => wasmWriteOpcode .nop
  | .br var => do
    wasmWriteOpcode .br
    writeLabelVarDepth var
  | .brIf var => do
    wasmWriteOpcode .brIf
    writeLabelVarDepth var
  | .brTable targets defaultTarget => do
    wasmWriteOpcode .brTable
    writeU32Leb128 targets.length
    targets.forM writeLabelVarDepth
    writeLabelVarDepth defaultTarget
  | .return_ => wasmWriteOpcode .return_
  | .call var => do
    let index := indexByVar var
    assertIndex options index m.funcDecls.length
    wasmWriteOpcode .call
    writeU32Leb128 index
  | .callIndirect var => do
    let index := indexByVar var
    assertIndex options index m.funcTypes.length
    wasmWriteOpcode .callIndirect
    writeU32Leb128 index
    writeU32Leb128 0
  | .drop => wasmWriteOpcode .drop
  | .select => wasmWriteOpcode .select
  | .getLocal var => writeVar .getLocal var
  | .setLocal var => writeVar .setLocal var
  | .teeLocal var => writeVar .teeLocal var
  | .getGlobal var => writeVar .getGlobal var
  | .setGlobal var => writeVar .setGlobal var
  | .load opcode align offset => writeLoadStore opcode.1 align offset
  | .store opcode align offset => writeLoadStore opcode.1 align offset
  | .currentMemory => do
    wasmWriteOpcode .currentMemory
    writeU32Leb128 0
  | .growMemory => do
    wasmWriteOpcode .growMemory
    writeU32Leb128 0
  | .const const_ => writeConst const_
  | .unary opcode => wasmWriteOpcode opcode.1
  | .binary opcode => wasmWriteOpcode opcode.1
  | .compare opcode => wasmWriteOpcode opcode.1
  | .convert opcode => wasmWriteOpcode opcode.1

/-- `write_expr_list`, with the cases of `write_expr` that call it again. -/
def writeExprList : ExprList → WriteM Unit
  | .nil => pure ()
  | .expr e next => do
    writeExpr options m e
    writeExprList next
  | .block sig first next => do
    wasmWriteOpcode .block
    writeInlineSignatureType sig
    writeExprList first
    wasmWriteOpcode .end_
    writeExprList next
  | .loop sig first next => do
    wasmWriteOpcode .loop
    writeInlineSignatureType sig
    writeExprList first
    wasmWriteOpcode .end_
    writeExprList next
  | .if_ sig true_ false_ next => do
    wasmWriteOpcode .if_
    writeInlineSignatureType sig
    writeExprList true_
    if false_ ≠ .nil then
      wasmWriteOpcode .else_
      writeExprList false_
    wasmWriteOpcode .end_
    writeExprList next

def writeInitExpr (expr : ExprList) : WriteM Unit := do
  writeExprList options m expr
  wasmWriteOpcode .end_

/-! ## Entries of the sections -/

/-- `write_func`. The loops over the locals end after as many turns as there are locals, if they
end at all. -/
def writeFunc (func : Func) : WriteM Unit := do
  let numParams := func.decl.sig.paramTypes.length
  let locals ← orAbort (writeFuncLocals (func.localTypes.length + 2) numParams func.localTypes)
  let bytes ← orAbort locals.bytes
  wasmWriteData bytes
  writeExprList options m func.firstExpr
  wasmWriteOpcode .end_

def wasmWriteLimits (limits : Limits) : WriteM Unit := do
  writeU32Leb128 (if limits.hasMax then 0x1 else 0 : Nat)
  writeU32Leb128 limits.initial
  if limits.hasMax then
    writeU32Leb128 limits.max

def writeTable (elemLimits : Limits) : WriteM Unit := do
  wasmWriteType .anyfunc
  wasmWriteLimits elemLimits

def writeMemory (pageLimits : Limits) : WriteM Unit := wasmWriteLimits pageLimits

def writeGlobalHeader (global : GlobalType) : WriteM Unit := do
  wasmWriteType global.type
  wasmWriteU8 (if global.mutable_ then 1 else 0)

def writeFuncType (sig : FuncSignature) : WriteM Unit := do
  wasmWriteType .func
  let numParams := u32 sig.paramTypes.length
  let numResults := u32 sig.resultTypes.length
  writeU32Leb128 numParams
  (sig.paramTypes.take numParams).forM fun type => wasmWriteType type
  writeU32Leb128 numResults
  (sig.resultTypes.take numResults).forM fun type => wasmWriteType type

def ImportKind.externalKind : ImportKind → ExternalKind
  | .func _ => .func
  | .table _ => .table
  | .memory _ => .memory
  | .global _ => .global

def writeImport (import_ : Import) : WriteM Unit := do
  wasmWriteStr import_.moduleName
  wasmWriteStr import_.fieldName
  wasmWriteU8 (ImportKind.externalKind import_.kind).code
  match import_.kind with
  | .func decl => writeU32Leb128 (wasmGetFuncTypeIndexByDecl m decl)
  | .table elemLimits => writeTable elemLimits
  | .memory pageLimits => writeMemory pageLimits
  | .global type => writeGlobalHeader type

def writeGlobal (global : Global) : WriteM Unit := do
  writeGlobalHeader global.toGlobalType
  writeInitExpr options m global.initExpr

/-- The size of an index space. -/
def spaceSize : ExternalKind → Nat
  | .func => m.funcDecls.length
  | .table => m.allTables.length
  | .memory => m.allMemories.length
  | .global => m.globalTypes.length

def writeExport (export_ : Export) : WriteM Unit := do
  wasmWriteStr export_.name
  wasmWriteU8 export_.kind.code
  let index := indexByVar export_.var
  assertIndex options index (spaceSize m export_.kind)
  writeU32Leb128 index

def writeElemSegment (segment : ElemSegment) : WriteM Unit := do
  let tableIndex := indexByVar segment.tableVar
  writeU32Leb128 tableIndex
  writeInitExpr options m segment.offset
  writeU32Leb128 segment.vars.length
  segment.vars.forM fun var => do
    let index := indexByVar var
    assertIndex options index m.funcDecls.length
    writeU32Leb128 index

def writeFunctionBody (func : Func) : WriteM Unit := do
  let bodySizeOffset ← writeU32Leb128Space options lebSizeGuess
  writeFunc options m func
  writeFixupU32Leb128Size options bodySizeOffset lebSizeGuess

def writeDataSegment (segment : DataSegment) : WriteM Unit := do
  let memoryIndex := indexByVar segment.memoryVar
  writeU32Leb128 memoryIndex
  writeInitExpr options m segment.offset
  writeU32Leb128 segment.data.length
  wasmWriteData segment.data

/-! ## Sections -/

/-- `begin_known_section`, the payload, `end_section`. -/
def knownSection (sectionCode : BinarySection) (payload : WriteM Unit) : WriteM Unit := do
  beginKnownSection options sectionCode.sectionCode lebSizeGuess
  payload
  endSection options

/-- A section of a vector: nothing if it is empty, else its size and its entries. -/
def vectorSection {α : Type} (sectionCode : BinarySection) (entries : List α)
    (writeEntry : α → WriteM Unit) : WriteM Unit :=
  if entries.length ≠ 0 then
    knownSection options sectionCode do
      writeU32Leb128 entries.length
      entries.forM writeEntry
  else
    pure ()

/-- The sections whose number of entries is an `uint32_t`. -/
def countedSection {α : Type} (sectionCode : BinarySection) (entries : List α)
    (writeEntry : α → WriteM Unit) : WriteM Unit :=
  vectorSection options sectionCode (entries.take (u32 entries.length)) writeEntry

def writeStart : WriteM Unit :=
  match m.starts.getLast? with
  | none => pure ()
  | some var =>
    let startFuncIndex := indexByVar var
    if startFuncIndex ≠ -1 then
      knownSection options .start (writeU32Leb128 startFuncIndex)
    else
      pure ()

/-! ### Names -/

/-- The names of a `WasmFunc`. -/
structure FuncNames where
  name : Option Text.Name := none
  paramBindings : Text.RawBindingHash := {}
  localBindings : Text.RawBindingHash := {}
  deriving DecidableEq, Repr

/-- `wasm_make_type_binding_reverse_mapping`. -/
def wasmMakeTypeBindingReverseMapping (types : List ValueType) (bindings : Text.RawBindingHash) :
    Option (List (Option Text.Name)) :=
  bindings.entries.foldlM (fun mapping entry =>
    match entry.name with
    | none => some mapping
    | some name =>
      let index := (entry.index % maxU32).toNat
      if index < mapping.length then some (mapping.set index (some name)) else none)
    (List.replicate (u32 types.length) none)

/-- A name that is null has no characters. -/
def writeName (name : Option Text.Name) : WriteM Unit := wasmWriteStr (name.getD [])

def writeBindings (types : List ValueType) (bindings : Text.RawBindingHash) : WriteM Unit := do
  let indexToName ← orAbort (wasmMakeTypeBindingReverseMapping types bindings)
  indexToName.forM writeName

/-- The names of a function with the given signature and locals. -/
def writeFuncNames (sig : FuncSignature) (localTypes : List ValueType) (names : FuncNames) :
    WriteM Unit := do
  writeName names.name
  let numParamsAndLocals := u32 (sig.paramTypes.length + localTypes.length)
  writeU32Leb128 numParamsAndLocals
  if numParamsAndLocals ≠ 0 then
    writeBindings sig.paramTypes names.paramBindings
    writeBindings localTypes names.localBindings

/-- `module->funcs`: an import has no locals. -/
def allFuncs : List (FuncSignature × List ValueType) :=
  m.funcImports.map (fun decl => (decl.sig, [])) ++ m.funcs.map fun f => (f.decl.sig, f.localTypes)

def writeNameSection (names : Nat → FuncNames) : WriteM Unit := do
  beginCustomSection options wasmBinarySectionName lebSizeGuess
  writeU32Leb128 (allFuncs m).length
  (allFuncs m).zipIdx.forM fun (func, i) => writeFuncNames func.1 func.2 (names i)
  endSection options

/-! ## The module -/

def writeModule (names : Nat → FuncNames) : WriteM Unit := do
  wasmWriteU32 wasmBinaryMagic
  wasmWriteU32 wasmBinaryVersion
  vectorSection options .type m.funcTypes writeFuncType
  vectorSection options .import_ m.imports (writeImport m)
  countedSection options .function m.funcs fun func =>
    writeU32Leb128 (wasmGetFuncTypeIndexByDecl m func.decl)
  countedSection options .table m.tables writeTable
  countedSection options .memory m.memories writeMemory
  countedSection options .global m.globals (writeGlobal options m)
  vectorSection options .export_ m.exports (writeExport options m)
  writeStart options m
  vectorSection options .elem m.elemSegments (writeElemSegment options m)
  countedSection options .code m.funcs (writeFunctionBody options m)
  vectorSection options .data m.dataSegments (writeDataSegment options m)
  if options.writeDebugNames then
    writeNameSection options m names

/-- `wasm_write_binary_module`: the bytes in the buffer of a memory writer. -/
def wasmWriteBinaryModule (names : Nat → FuncNames) : Option (List UInt8) :=
  (writeModule options m names {}).map fun p => p.2.buf

end Write

end BinaryWriter

end SexprWasm
