import SexprWasm.Ast.Syntax
import SexprWasm.BinaryReader.Reader

/-!
# From callbacks to the AST

`binary-reader-ast.c`. A label in C points into the tree that is being
built: `first` is the list its expressions go to, inside the parent's
last expression or at a function's `first_expr`. Here a label holds the
expressions it has got so far, and popping it puts the node that owns
them at the end of the parent's list, where the pointer had put it from
the start. Nothing reads the tree before the reader returns.

`on_block_expr`, `on_loop_expr` and `on_if_expr` push their label even
if `append_expr` has failed for want of a label. The node is freed then
and the label points into it; in the model such a label is the bottom
one and has no parent to go to.
-/

namespace SexprWasm

namespace Ast

inductive LabelType
  | func | block | loop | if_ | else_
  deriving DecidableEq, Repr

/-- The node whose list of expressions a label is open for. -/
inductive LabelOwner
  | func (index : Nat)
  | block (sig : List ValueType)
  | loop (sig : List ValueType)
  | if_ (sig : List ValueType)
  | else_ (sig : List ValueType) (true_ : ExprList)
  deriving DecidableEq, Repr

def LabelOwner.labelType : LabelOwner → LabelType
  | .func _ => .func
  | .block _ => .block
  | .loop _ => .loop
  | .if_ _ => .if_
  | .else_ _ _ => .else_

structure LabelNode where
  owner : LabelOwner
  exprs : ExprList
  deriving DecidableEq, Repr

/-- `*current_init_expr`. -/
inductive InitExprSlot
  | global (index : Nat)
  | elem (index : Nat)
  | data (index : Nat)
  deriving DecidableEq, Repr

/-- `currentImport` holds the names of an import until its kind is known. -/
structure ReadContext where
  module : Module := {}
  currentImport : Option (List UInt8 × List UInt8) := none
  currentFunc : Option Nat := none
  labelStack : List LabelNode := []
  currentInitExpr : Option InitExprSlot := none
  deriving DecidableEq, Repr

abbrev ReadAst (α : Type) : Type := Callback ReadContext α

namespace ReadContext

/-- Put a closed label's expressions in their place. `rest` are the labels below it. -/
def plug (c : ReadContext) (label : LabelNode) (rest : List LabelNode) : ReadContext :=
  let attach (e : ExprList) : ReadContext :=
    match rest with
    | [] => { c with labelStack := [] }
    | parent :: rest =>
        { c with labelStack := { parent with exprs := parent.exprs ++ e } :: rest }
  match label.owner with
  | .func i =>
      { c with
        labelStack := rest
        module := { c.module with
          funcs := c.module.funcs.modify i fun f => { f with firstExpr := label.exprs } } }
  | .block sig => attach (.block sig label.exprs .nil)
  | .loop sig => attach (.loop sig label.exprs .nil)
  | .if_ sig => attach (.if_ sig label.exprs .nil .nil)
  | .else_ sig true_ => attach (.if_ sig true_ label.exprs .nil)

end ReadContext

open Callback

def modifyModule (f : Module → Module) : ReadAst Unit :=
  modify fun c => { c with module := f c.module }

/-! ## Labels -/

def pushLabel (owner : LabelOwner) : ReadAst Unit :=
  modify fun c => { c with labelStack := ⟨owner, .nil⟩ :: c.labelStack }

def popLabel : ReadAst Unit := fun c =>
  match c.labelStack with
  | [] => .error c
  | label :: rest => .ok () (c.plug label rest)

def appendExpr (e : Expr) : ReadAst Unit := fun c =>
  match c.labelStack with
  | [] => .error c
  | label :: rest =>
      .ok () { c with
        labelStack := { label with exprs := label.exprs ++ .expr e .nil } :: rest }

/-! ## Instructions -/

def onElseExpr : ReadAst Unit := fun c =>
  match c.labelStack with
  | ⟨.if_ sig, true_⟩ :: parent :: rest =>
      .ok () { c with labelStack := ⟨.else_ sig true_, .nil⟩ :: parent :: rest }
  | _ => .error c

def onEndExpr : ReadAst Unit := popLabel

/-- `1 << alignment_log2` on a 32-bit `int`; the shift counts modulo 32. -/
def alignOfLog2 (alignmentLog2 : Nat) : Nat := 2 ^ (alignmentLog2 % 32)

def onExpr : Instr → ReadAst Unit
  | .unreachable => appendExpr .unreachable
  | .nop => appendExpr .nop
  | .block sig => pushLabel (.block sig)
  | .loop sig => pushLabel (.loop sig)
  | .if_ sig => pushLabel (.if_ sig)
  | .else_ => onElseExpr
  | .end_ => onEndExpr
  | .br depth => appendExpr (.br depth)
  | .brIf depth => appendExpr (.brIf depth)
  | .brTable targetDepths defaultTargetDepth =>
      appendExpr (.brTable (targetDepths.map fun depth => (depth : Int)) defaultTargetDepth)
  | .return_ => appendExpr .return_
  | .call funcIndex => do
    let c ← get
    assert (funcIndex < c.module.funcDecls.length)
    appendExpr (.call funcIndex)
  | .callIndirect sigIndex => do
    let c ← get
    assert (sigIndex < c.module.funcTypes.length)
    appendExpr (.callIndirect sigIndex)
  | .drop => appendExpr .drop
  | .select => appendExpr .select
  | .getLocal localIndex => appendExpr (.getLocal localIndex)
  | .setLocal localIndex => appendExpr (.setLocal localIndex)
  | .teeLocal localIndex => appendExpr (.teeLocal localIndex)
  | .getGlobal globalIndex => appendExpr (.getGlobal globalIndex)
  | .setGlobal globalIndex => appendExpr (.setGlobal globalIndex)
  | .load opcode alignmentLog2 offset => appendExpr (.load opcode (alignOfLog2 alignmentLog2) offset)
  | .store opcode alignmentLog2 offset =>
      appendExpr (.store opcode (alignOfLog2 alignmentLog2) offset)
  | .currentMemory => appendExpr .currentMemory
  | .growMemory => appendExpr .growMemory
  | .i32Const value => appendExpr (.const ⟨.i32, value⟩)
  | .i64Const value => appendExpr (.const ⟨.i64, value⟩)
  | .f32Const valueBits => appendExpr (.const ⟨.f32, valueBits⟩)
  | .f64Const valueBits => appendExpr (.const ⟨.f64, valueBits⟩)
  | .unary opcode => appendExpr (.unary opcode)
  | .binary opcode => appendExpr (.binary opcode)
  | .compare opcode => appendExpr (.compare opcode)
  | .convert opcode => appendExpr (.convert opcode)

/-! ## Sections -/

/-- Complete the import `on_import` has begun. -/
def onImportKind (index : Nat) (kind : ImportKind) : ReadAst Unit := do
  let c ← get
  let names ← orAbort c.currentImport
  assert (index = c.module.imports.length)
  modify fun c =>
    { c with
      currentImport := none
      module := { c.module with
        imports := c.module.imports ++ [{ moduleName := names.1, fieldName := names.2, kind }] } }

def onImportFunc (index sigIndex : Nat) : ReadAst Unit := do
  let c ← get
  let sig ← orAbort c.module.funcTypes[sigIndex]?
  onImportKind index (.func { typeVar := some sigIndex, sig })

def onFunctionSignature (sigIndex : Nat) : ReadAst Unit := do
  let c ← get
  let sig ← orAbort c.module.funcTypes[sigIndex]?
  modifyModule fun m =>
    { m with
      funcs := m.funcs ++ [{ decl := { typeVar := some sigIndex, sig }, localTypes := [], firstExpr := .nil }] }

def onExport (kind : ExternalKind) (itemIndex : Nat) (name : List UInt8) : ReadAst Unit := do
  let c ← get
  match kind with
  | .func => assert (itemIndex < c.module.funcDecls.length)
  | .table => assert (itemIndex < c.module.allTables.length)
  | .memory => assert (itemIndex < c.module.allMemories.length)
  | .global => assert (itemIndex < c.module.globalTypes.length)
  modifyModule fun m => { m with exports := m.exports ++ [{ name, kind, var := itemIndex }] }

def onStartFunction (funcIndex : Nat) : ReadAst Unit := do
  let c ← get
  assert (funcIndex < c.module.funcDecls.length)
  modifyModule fun m => { m with starts := m.starts ++ [(funcIndex : Int)] }

def onFunctionBodiesCount (count : Nat) : ReadAst Unit := do
  let c ← get
  assert (c.module.numFuncImports + count = c.module.funcDecls.length)

def beginFunctionBody (index : Nat) : ReadAst Unit := do
  let c ← get
  assert (index < c.module.funcs.length)
  modify fun c => { c with currentFunc := some index }
  pushLabel (.func index)

def onLocalDecl (count : Nat) (type : ValueType) : ReadAst Unit := do
  let c ← get
  let index ← orAbort c.currentFunc
  modifyModule fun m =>
    { m with
      funcs := m.funcs.modify index fun f =>
        { f with localTypes := f.localTypes ++ List.replicate count type } }

def endFunctionBody : ReadAst Unit := do
  popLabel
  modify fun c => { c with currentFunc := none }

def beginInitExpr (slot : InitExprSlot) : ReadAst Unit :=
  modify fun c => { c with currentInitExpr := some slot }

def endInitExpr : ReadAst Unit :=
  modify fun c => { c with currentInitExpr := none }

/-- `wasm_new_const_expr` or `wasm_new_get_global_expr` for an initializer. -/
def initExpr : InitExpr → Expr
  | .i32Const value => .const ⟨.i32, value⟩
  | .i64Const value => .const ⟨.i64, value⟩
  | .f32Const valueBits => .const ⟨.f32, valueBits⟩
  | .f64Const valueBits => .const ⟨.f64, valueBits⟩
  | .getGlobal globalIndex => .getGlobal globalIndex

/-- `*ctx->current_init_expr = expr`. -/
def setInitExpr (expr : ExprList) : InitExprSlot → ReadAst Unit
  | .global i => modifyModule fun m =>
      { m with globals := m.globals.modify i fun g => { g with initExpr := expr } }
  | .elem i => modifyModule fun m =>
      { m with elemSegments := m.elemSegments.modify i fun s => { s with offset := expr } }
  | .data i => modifyModule fun m =>
      { m with dataSegments := m.dataSegments.modify i fun s => { s with offset := expr } }

def onInitExpr (e : InitExpr) : ReadAst Unit := do
  let c ← get
  let slot ← orAbort c.currentInitExpr
  setInitExpr (.expr (initExpr e) .nil) slot

def beginElemSegment (index tableIndex : Nat) : ReadAst Unit := do
  let c ← get
  assert (index = c.module.elemSegments.length)
  modifyModule fun m =>
    { m with
      elemSegments := m.elemSegments ++ [{ tableVar := tableIndex, offset := .nil, vars := [] }] }

def onElemSegmentFunctionIndex (index funcIndex : Nat) : ReadAst Unit := do
  let c ← get
  assert (index + 1 = c.module.elemSegments.length)
  modifyModule fun m =>
    { m with
      elemSegments := m.elemSegments.modify index fun s => { s with vars := s.vars ++ [(funcIndex : Int)] } }

def beginDataSegment (index memoryIndex : Nat) : ReadAst Unit := do
  let c ← get
  assert (index = c.module.dataSegments.length)
  modifyModule fun m =>
    { m with
      dataSegments := m.dataSegments ++ [{ memoryVar := memoryIndex, offset := .nil, data := [] }] }

def onDataSegmentData (index : Nat) (data : List UInt8) : ReadAst Unit := do
  let c ← get
  assert (index + 1 = c.module.dataSegments.length)
  modifyModule fun m =>
    { m with dataSegments := m.dataSegments.modify index fun s => { s with data } }

def onFunctionNamesCount (count : Nat) : ReadAst Unit := do
  let c ← get
  ensure (count ≤ c.module.funcDecls.length)

/-- `wasm_get_num_params_and_locals`; an imported function has no locals. -/
def numParamsAndLocals (m : Module) (index : Nat) : Option Nat := do
  let decl ← m.funcDecls[index]?
  let localTypes := ((m.funcs[index - m.numFuncImports]?).map (·.localTypes)).getD []
  return decl.sig.paramTypes.length +
    (if index < m.numFuncImports then 0 else localTypes.length)

def onLocalNamesCount (index count : Nat) : ReadAst Unit := do
  let c ← get
  let n ← orAbort (numParamsAndLocals c.module index)
  ensure (count ≤ n)

/-- `s_binary_reader`; the callbacks that are not set do nothing. -/
def astReader : Event → ReadAst Unit
  | .onSignature _ paramTypes resultTypes =>
      modifyModule fun m => { m with funcTypes := m.funcTypes ++ [{ paramTypes, resultTypes }] }
  | .onImport _ moduleName fieldName =>
      modify fun c => { c with currentImport := some (moduleName, fieldName) }
  | .onImportFunc index sigIndex => onImportFunc index sigIndex
  | .onImportTable index elemLimits => onImportKind index (.table elemLimits)
  | .onImportMemory index pageLimits => onImportKind index (.memory pageLimits)
  | .onImportGlobal index type mutable_ => onImportKind index (.global { type, mutable_ })
  | .onFunctionSignature _ sigIndex => onFunctionSignature sigIndex
  | .onTable _ elemLimits => modifyModule fun m => { m with tables := m.tables ++ [elemLimits] }
  | .onMemory _ pageLimits =>
      modifyModule fun m => { m with memories := m.memories ++ [pageLimits] }
  | .beginGlobal _ type mutable_ =>
      modifyModule fun m => { m with globals := m.globals ++ [{ type, mutable_, initExpr := .nil }] }
  | .beginGlobalInitExpr index => do
    let c ← get
    assert (index + 1 = c.module.globals.length)
    beginInitExpr (.global index)
  | .endGlobalInitExpr _ => endInitExpr
  | .onExport _ kind itemIndex name => onExport kind itemIndex name
  | .onStartFunction funcIndex => onStartFunction funcIndex
  | .onFunctionBodiesCount count => onFunctionBodiesCount count
  | .beginFunctionBody index => beginFunctionBody index
  | .onLocalDecl _ count type => onLocalDecl count type
  | .onExpr instr => onExpr instr
  | .endFunctionBody _ => endFunctionBody
  | .beginElemSegment index tableIndex => beginElemSegment index tableIndex
  | .beginElemSegmentInitExpr index => do
    let c ← get
    assert (index + 1 = c.module.elemSegments.length)
    beginInitExpr (.elem index)
  | .endElemSegmentInitExpr _ => endInitExpr
  | .onElemSegmentFunctionIndexCount index _ => do
    let c ← get
    assert (index + 1 = c.module.elemSegments.length)
  | .onElemSegmentFunctionIndex index funcIndex => onElemSegmentFunctionIndex index funcIndex
  | .beginDataSegment index memoryIndex => beginDataSegment index memoryIndex
  | .beginDataSegmentInitExpr index => do
    let c ← get
    assert (index + 1 = c.module.dataSegments.length)
    beginInitExpr (.data index)
  | .endDataSegmentInitExpr _ => endInitExpr
  | .onDataSegmentData index data => onDataSegmentData index data
  | .onInitExpr _ e => onInitExpr e
  | .onFunctionNamesCount count => onFunctionNamesCount count
  | .onLocalNamesCount index count => onLocalNamesCount index count
  | _ => Callback.pure ()

/-- `wasm_read_binary_ast`. The labels still on the stack are destroyed when it returns,
with the expressions they point to. -/
def wasmReadBinaryAst (options : ReadBinaryOptions) (data : List UInt8) :
    Outcome ReadContext Unit :=
  wasmReadBinary astReader options data {}

end Ast

end SexprWasm
