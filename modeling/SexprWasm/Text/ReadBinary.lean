import SexprWasm.Text.LinkedModule
import SexprWasm.BinaryReader.Reader

/-!
# From callbacks to a linked module

`binary-reader-ast.c` again, with the fields, the vectors and the names
that the AST of `Ast.ReadBinary` leaves out. Labels are as they are
there: a label holds the expressions it has got so far, and popping it
puts the node that owns them into the parent's list.
-/

namespace SexprWasm

namespace Text

namespace Linked

/-- The node whose list of expressions a label is open for. -/
inductive LabelOwner
  | func (func : Pointer)
  | block (sig : List ValueType)
  | loop (sig : List ValueType)
  | if_ (sig : List ValueType)
  | else_ (sig : List ValueType) (true_ : ExprList)
  deriving DecidableEq

structure LabelNode where
  owner : LabelOwner
  exprs : ExprList
  deriving DecidableEq

/-- `Context`; `currentInitExpr` points to the entity the initializer is part of. -/
structure ReadContext where
  module : Module := {}
  currentFunc : Option Pointer := none
  labelStack : List LabelNode := []
  currentInitExpr : Option Pointer := none
  deriving DecidableEq

abbrev ReadAst (α : Type) : Type := Callback ReadContext α

/-- Put a closed label's expressions in their place. `rest` are the labels below it. -/
def ReadContext.plug (c : ReadContext) (label : LabelNode) (rest : List LabelNode) : ReadContext :=
  let attach (e : ExprList) : ReadContext :=
    match rest with
    | [] => { c with labelStack := [] }
    | parent :: rest =>
        { c with labelStack := { parent with exprs := parent.exprs ++ e } :: rest }
  match label.owner with
  | .func p =>
      { c with
        labelStack := rest
        module := c.module.modifyFunc (fun func => { func with firstExpr := label.exprs }) p }
  | .block sig => attach (.block none sig label.exprs .nil)
  | .loop sig => attach (.loop none sig label.exprs .nil)
  | .if_ sig => attach (.if_ none sig label.exprs .nil .nil)
  | .else_ sig true_ => attach (.if_ none sig true_ label.exprs .nil)

open Callback

def modifyModule (f : Module → Module) : ReadAst Unit :=
  modify fun c => { c with module := f c.module }

/-! ## Labels and instructions -/

def pushLabel (owner : LabelOwner) : ReadAst Unit :=
  modify fun c => { c with labelStack := ⟨owner, .nil⟩ :: c.labelStack }

def popLabel : ReadAst Unit := fun c =>
  match c.labelStack with
  | [] => .error c
  | label :: rest => .ok () (c.plug label rest)

def appendExpr (e : Expr) : ReadAst Unit := fun c =>
  match c.labelStack with
  | [] => .error c
  | label :: rest =>
      .ok () { c with
        labelStack := { label with exprs := label.exprs ++ .expr e .nil } :: rest }

def onElseExpr : ReadAst Unit := fun c =>
  match c.labelStack with
  | ⟨.if_ sig, true_⟩ :: parent :: rest =>
      .ok () { c with labelStack := ⟨.else_ sig true_, .nil⟩ :: parent :: rest }
  | _ => .error c

/-- `1 << alignment_log2` on a 32-bit `int`; the shift counts modulo 32. -/
def alignOfLog2 (alignmentLog2 : Nat) : Nat := 2 ^ (alignmentLog2 % 32)

def onExpr : Instr → ReadAst Unit
  | .unreachable => appendExpr .unreachable
  | .nop => appendExpr .nop
  | .block sig => pushLabel (.block sig)
  | .loop sig => pushLabel (.loop sig)
  | .if_ sig => pushLabel (.if_ sig)
  | .else_ => onElseExpr
  | .end_ => popLabel
  | .br depth => appendExpr (.br (.index depth))
  | .brIf depth => appendExpr (.brIf (.index depth))
  | .brTable targetDepths defaultTargetDepth =>
      appendExpr (.brTable (targetDepths.map fun depth => .index depth) (.index defaultTargetDepth))
  | .return_ => appendExpr .return_
  | .call funcIndex => do
    let c ← get
    assert (funcIndex < c.module.funcs.length)
    appendExpr (.call (.index funcIndex))
  | .callIndirect sigIndex => do
    let c ← get
    assert (sigIndex < c.module.funcTypes.length)
    appendExpr (.callIndirect (.index sigIndex))
  | .drop => appendExpr .drop
  | .select => appendExpr .select
  | .getLocal localIndex => appendExpr (.getLocal (.index localIndex))
  | .setLocal localIndex => appendExpr (.setLocal (.index localIndex))
  | .teeLocal localIndex => appendExpr (.teeLocal (.index localIndex))
  | .getGlobal globalIndex => appendExpr (.getGlobal (.index globalIndex))
  | .setGlobal globalIndex => appendExpr (.setGlobal (.index globalIndex))
  | .load opcode alignmentLog2 offset =>
      appendExpr (.load opcode (alignOfLog2 alignmentLog2) offset)
  | .store opcode alignmentLog2 offset =>
      appendExpr (.store opcode (alignOfLog2 alignmentLog2) offset)
  | .currentMemory => appendExpr .currentMemory
  | .growMemory => appendExpr .growMemory
  | .i32Const value => appendExpr (.const .i32 value)
  | .i64Const value => appendExpr (.const .i64 value)
  | .f32Const valueBits => appendExpr (.const .f32 valueBits)
  | .f64Const valueBits => appendExpr (.const .f64 valueBits)
  | .unary opcode => appendExpr (.unary opcode)
  | .binary opcode => appendExpr (.binary opcode)
  | .compare opcode => appendExpr (.compare opcode)
  | .convert opcode => appendExpr (.convert opcode)

/-! ## Sections -/

/-- `wasm_append_module_field`, the type of the field and its entity, and the pointer to it. -/
def appendEntity (field : Field) (kind : Kind) : ReadAst Unit :=
  modifyModule fun m =>
    (m.appendFieldToList field).appendItemToVector (.own m.nodes.length) kind

/-- `ctx->module->func_types.data[sig_index]->sig`. -/
def declOfType (sigIndex : Nat) : ReadAst FuncDeclaration := do
  let c ← get
  let p ← orAbort c.module.funcTypes[sigIndex]?
  let funcType ← orAbort (c.module.funcType? p)
  return { typeVar := some (.index sigIndex), sig := funcType.sig }

/-- The callback for the kind of an import: it completes the last of `imports`. -/
def onImportKind (index : Nat) (kind : ImportKind) : ReadAst Unit := do
  let c ← get
  assert (index + 1 = c.module.imports.length)
  match c.module.imports[index]? with
  | some (.own p) =>
    modifyModule fun m =>
      ((m.modifyField p fun
        | some (.import_ i) => some (.import_ { i with kind := some kind })
        | field => field).appendItemToVector (.imported p) (.ofExternal kind.external)).countImport
          kind.external
  | _ => abort

def onImportFunc (index sigIndex : Nat) : ReadAst Unit := do
  let decl ← declOfType sigIndex
  onImportKind index (.func { decl })

def onFunctionSignature (sigIndex : Nat) : ReadAst Unit := do
  let decl ← declOfType sigIndex
  appendEntity (.func { decl }) .func

def onExport (kind : ExternalKind) (itemIndex : Nat) (name : List UInt8) : ReadAst Unit := do
  let c ← get
  assert (itemIndex < (c.module.vector (.ofExternal kind)).length)
  appendEntity (.export_ { kind, var := .index itemIndex, name }) .export_

def onStartFunction (funcIndex : Nat) : ReadAst Unit := do
  let c ← get
  assert (funcIndex < c.module.funcs.length)
  modifyModule fun m =>
    { m.appendFieldToList (.start (.index funcIndex)) with start := some m.nodes.length }

def onFunctionBodiesCount (count : Nat) : ReadAst Unit := do
  let c ← get
  assert (c.module.numFuncImports + count = c.module.funcs.length)

def beginFunctionBody (index : Nat) : ReadAst Unit := do
  let c ← get
  assert (index < c.module.funcs.length)
  let p ← orAbort c.module.funcs[index + c.module.numFuncImports]?
  modify fun c => { c with currentFunc := some p }
  pushLabel (.func p)

def onLocalDecl (count : Nat) (type : ValueType) : ReadAst Unit := do
  let c ← get
  let p ← orAbort c.currentFunc
  modifyModule fun m =>
    m.modifyFunc (fun func =>
      { func with localTypes := func.localTypes ++ List.replicate count type }) p

def endFunctionBody : ReadAst Unit := do
  popLabel
  modify fun c => { c with currentFunc := none }

def beginGlobalInitExpr (index : Nat) : ReadAst Unit := do
  let c ← get
  assert (c.module.numGlobalImports + index + 1 = c.module.globals.length)
  let p ← orAbort c.module.globals[index + c.module.numGlobalImports]?
  modify fun c => { c with currentInitExpr := some p }

/-- `begin_elem_segment_init_expr` and `begin_data_segment_init_expr`. -/
def beginSegmentInitExpr (kind : Kind) (index : Nat) : ReadAst Unit := do
  let c ← get
  assert (index + 1 = (c.module.vector kind).length)
  let p ← orAbort (c.module.vector kind)[index]?
  modify fun c => { c with currentInitExpr := some p }

def endInitExpr : ReadAst Unit :=
  modify fun c => { c with currentInitExpr := none }

/-- `wasm_new_const_expr` or `wasm_new_get_global_expr` for an initializer. -/
def initExpr : InitExpr → Expr
  | .i32Const value => .const .i32 value
  | .i64Const value => .const .i64 value
  | .f32Const valueBits => .const .f32 valueBits
  | .f64Const valueBits => .const .f64 valueBits
  | .getGlobal globalIndex => .getGlobal (.index globalIndex)

/-- `*ctx->current_init_expr = expr`, in the entity of a field. -/
def setInitExpr (expr : ExprList) : Option Field → Option Field
  | some (.global global) => some (.global { global with initExpr := expr })
  | some (.elemSegment segment) => some (.elemSegment { segment with offset := expr })
  | some (.dataSegment segment) => some (.dataSegment { segment with offset := expr })
  | field => field

def onInitExpr (e : InitExpr) : ReadAst Unit := do
  let c ← get
  match c.currentInitExpr with
  | some (.own p) =>
    modifyModule fun m => m.modifyField p (setInitExpr (.expr (initExpr e) .nil))
  | _ => abort

/-- `begin_elem_segment` and `begin_data_segment`. -/
def beginSegment (field : Field) (kind : Kind) (index : Nat) : ReadAst Unit := do
  let c ← get
  assert (index = (c.module.vector kind).length)
  appendEntity field kind

/-- Write to the last segment of a kind. -/
def modifySegment (kind : Kind) (index : Nat) (f : Option Field → Option Field) : ReadAst Unit := do
  let c ← get
  assert (index + 1 = (c.module.vector kind).length)
  match (c.module.vector kind)[index]? with
  | some (.own p) => modifyModule fun m => m.modifyField p f
  | _ => abort

def addVar (funcIndex : Nat) : Option Field → Option Field
  | some (.elemSegment segment) =>
    some (.elemSegment { segment with vars := segment.vars ++ [.index funcIndex] })
  | field => field

def setData (data : List UInt8) : Option Field → Option Field
  | some (.dataSegment segment) => some (.dataSegment { segment with data })
  | field => field

/-! ## Names -/

/-- `dup_name`: a name without characters becomes null. -/
def dupName (name : List UInt8) : StringSlice := if name.length = 0 then none else some name

def onFunctionNamesCount (count : Nat) : ReadAst Unit := do
  let c ← get
  ensure (count ≤ c.module.funcs.length)

def onFunctionName (index : Nat) (name : List UInt8) : ReadAst Unit := do
  let c ← get
  let p ← orAbort c.module.funcs[index]?
  modifyModule fun m =>
    { m with funcBindings := m.funcBindings ++ [(dupName name, index)] }.modifyFunc
      (fun func => { func with name := dupName name }) p

def onLocalNamesCount (index count : Nat) : ReadAst Unit := do
  let c ← get
  let p ← orAbort c.module.funcs[index]?
  let func ← orAbort (c.module.func? p)
  ensure (count ≤ func.decl.sig.paramTypes.length + func.localTypes.length)

def onLocalName (funcIndex localIndex : Nat) (name : List UInt8) : ReadAst Unit := do
  let c ← get
  let p ← orAbort c.module.funcs[funcIndex]?
  modifyModule fun m =>
    m.modifyFunc (fun func =>
      let numParams := func.decl.sig.paramTypes.length
      if localIndex < numParams then
        { func with paramBindings := func.paramBindings ++ [(dupName name, localIndex)] }
      else
        { func with
          localBindings := func.localBindings ++ [(dupName name, localIndex - numParams)] }) p

/-- `s_binary_reader`; the callbacks that are not set do nothing. -/
def astReader : Event → ReadAst Unit
  | .onSignature _ paramTypes resultTypes =>
      appendEntity (.funcType { sig := { paramTypes, resultTypes } }) .funcType
  | .onImport _ moduleName fieldName =>
      appendEntity (.import_ { moduleName, fieldName }) .import_
  | .onImportFunc index sigIndex => onImportFunc index sigIndex
  | .onImportTable index elemLimits => onImportKind index (.table { elemLimits })
  | .onImportMemory index pageLimits => onImportKind index (.memory { pageLimits })
  | .onImportGlobal index type mutable_ => onImportKind index (.global { type, mutable_ })
  | .onFunctionSignature _ sigIndex => onFunctionSignature sigIndex
  | .onTable _ elemLimits => appendEntity (.table { elemLimits }) .table
  | .onMemory _ pageLimits => appendEntity (.memory { pageLimits }) .memory
  | .beginGlobal _ type mutable_ => appendEntity (.global { type, mutable_ }) .global
  | .beginGlobalInitExpr index => beginGlobalInitExpr index
  | .endGlobalInitExpr _ => endInitExpr
  | .onExport _ kind itemIndex name => onExport kind itemIndex name
  | .onStartFunction funcIndex => onStartFunction funcIndex
  | .onFunctionBodiesCount count => onFunctionBodiesCount count
  | .beginFunctionBody index => beginFunctionBody index
  | .onLocalDecl _ count type => onLocalDecl count type
  | .onExpr instr => onExpr instr
  | .endFunctionBody _ => endFunctionBody
  | .beginElemSegment index tableIndex =>
      beginSegment (.elemSegment { tableVar := .index tableIndex }) .elemSegment index
  | .beginElemSegmentInitExpr index => beginSegmentInitExpr .elemSegment index
  | .endElemSegmentInitExpr _ => endInitExpr
  | .onElemSegmentFunctionIndexCount index _ => modifySegment .elemSegment index id
  | .onElemSegmentFunctionIndex index funcIndex =>
      modifySegment .elemSegment index (addVar funcIndex)
  | .beginDataSegment index memoryIndex =>
      beginSegment (.dataSegment { memoryVar := .index memoryIndex }) .dataSegment index
  | .beginDataSegmentInitExpr index => beginSegmentInitExpr .dataSegment index
  | .endDataSegmentInitExpr _ => endInitExpr
  | .onDataSegmentData index data => modifySegment .dataSegment index (setData data)
  | .onInitExpr _ e => onInitExpr e
  | .onFunctionNamesCount count => onFunctionNamesCount count
  | .onFunctionName index name => onFunctionName index name
  | .onLocalNamesCount index count => onLocalNamesCount index count
  | .onLocalName funcIndex localIndex name => onLocalName funcIndex localIndex name
  | _ => Callback.pure ()

/-- `wasm_read_binary_ast`; a module that could not be read is destroyed. -/
def readBinaryAst (options : ReadBinaryOptions) (data : List UInt8) : Outcome ReadContext Unit :=
  wasmReadBinary astReader options data {}

end Linked

end Text

end SexprWasm
