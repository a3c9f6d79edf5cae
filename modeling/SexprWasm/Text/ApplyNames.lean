import SexprWasm.Text.Visitor

/-!
# Applying names

`apply-names.c`: every index becomes the name of the entity it denotes,
if that has one. A label is the name it is, whether an inner block has
the same label or not; an export is looked up among the functions,
whatever its kind. An index out of range stops the pass, except in an
export, and the names put in before it stay. Initial values of globals,
offsets of segments and the start function are not visited.
-/

namespace SexprWasm

namespace Text

namespace ApplyNames

/-- `Context`; `labels` is the stack with its top first. -/
structure Context where
  currentFunc : Option Func := none
  paramIndexToName : List StringSlice := []
  localIndexToName : List StringSlice := []
  labels : List StringSlice := []

def pushLabel (label : StringSlice) (ctx : Context) : Visit Context StringSlice :=
  .ok label { ctx with labels := label :: ctx.labels }

def popLabel (ctx : Context) : Visit Context Unit :=
  match ctx.labels with
  | [] => .abort
  | _ :: labels => .ok () { ctx with labels }

/-- `find_label_by_var`. -/
def findLabelByVar (ctx : Context) : Var → Option StringSlice
  | .name n => ctx.labels.find? (· == some n)
  | .index i => if i < 0 ∨ ctx.labels.length ≤ i then none else ctx.labels[i.toNat]?

/-- `use_name_for_var`; `name` may be null. A name that is there already has to be the same. -/
def useNameForVar (name : Option StringSlice) (var : Var) (ctx : Context) : Visit Context Var :=
  match var, name with
  | .name n, some (some n') => if n' = n then .ok (.name n') ctx else .abort
  | .name _, _ => .abort
  | .index _, some (some n) => .ok (.name n) ctx
  | .index _, _ => .ok var ctx

/-- `use_name_for_func_var` and its siblings. -/
def useNameForEntityVar {α : Type} (bindings : BindingHash) (entities : List α)
    (name : α → StringSlice) (var : Var) (ctx : Context) : Visit Context Var :=
  match getByVar bindings entities var with
  | none => .error var ctx
  | some entity => useNameForVar (some (name entity)) var ctx

/-- `use_name_for_param_and_local_var`. -/
def useNameForParamAndLocalVar (var : Var) (ctx : Context) : Visit Context Var :=
  match ctx.currentFunc with
  | none => .abort
  | some func =>
    let localIndex := func.getLocalIndexByVar var
    if localIndex < 0 ∨ func.numParams + func.numLocals ≤ localIndex then .error var ctx
    else
      let name :=
        if localIndex < func.numParams then ctx.paramIndexToName[localIndex.toNat]?
        else ctx.localIndexToName[(localIndex - func.numParams).toNat]?
      match name with
      | none => .abort
      | some name =>
        match var, name with
        | .name n, some n' => if n' = n then .ok var ctx else .abort
        | .name _, none => .abort
        | .index _, some n => .ok (.name n) ctx
        | .index _, none => .ok var ctx

/-- `find_label_by_var` and `use_name_for_var`. -/
def useNameForLabelVar (var : Var) (ctx : Context) : Visit Context Var :=
  useNameForVar (findLabelByVar ctx var) var ctx

/-- A loop over a vector. -/
def forEach {α : Type} (visit : α → Context → Visit Context α) :
    List α → Context → Visit Context (List α)
  | [], ctx => .ok [] ctx
  | a :: as, ctx =>
    (visit a ctx).andThen (· :: as) fun a ctx => (forEach visit as ctx).map (a :: ·)

section module

variable (m : Module)

def useNameForFuncTypeVar := useNameForEntityVar m.funcTypeBindings m.funcTypes (·.name)
def useNameForFuncVar := useNameForEntityVar m.funcBindings m.funcs (·.name)
def useNameForGlobalVar := useNameForEntityVar m.globalBindings m.globals (·.name)
def useNameForTableVar := useNameForEntityVar m.tableBindings m.tables (·.name)
def useNameForMemoryVar := useNameForEntityVar m.memoryBindings m.memories (·.name)

def visitor : ExprVisitor Context where
  beginBlockExpr := pushLabel
  endBlockExpr := popLabel
  beginLoopExpr := pushLabel
  endLoopExpr := popLabel
  beginIfExpr := pushLabel
  endIfExpr := popLabel
  onBrExpr := useNameForLabelVar
  onBrIfExpr := useNameForLabelVar
  onBrTableExpr := fun (targets, defaultTarget) ctx =>
    (visitVars useNameForLabelVar targets ctx).andThen (·, defaultTarget) fun targets ctx =>
    (useNameForLabelVar defaultTarget ctx).map (targets, ·)
  onCallExpr := useNameForFuncVar m
  onCallIndirectExpr := useNameForFuncTypeVar m
  onGetGlobalExpr := useNameForGlobalVar m
  onGetLocalExpr := useNameForParamAndLocalVar
  onSetGlobalExpr := useNameForGlobalVar m
  onSetLocalExpr := useNameForParamAndLocalVar
  onTeeLocalExpr := useNameForParamAndLocalVar

def visitFunc (func : Func) (ctx : Context) : Visit Context Func :=
  let ctx := { ctx with currentFunc := some func }
  let withTypeVar := fun typeVar => { func with decl := { func.decl with typeVar } }
  let typeVar : Visit Context (Option Var) :=
    match func.decl.typeVar with
    | none => .ok none ctx
    | some var => (useNameForFuncTypeVar m var ctx).map some
  typeVar.andThen withTypeVar fun typeVar ctx =>
  match makeTypeBindingReverseMapping func.numParams func.paramBindings,
    makeTypeBindingReverseMapping func.numLocals func.localBindings with
  | some paramIndexToName, some localIndexToName =>
    let ctx := { ctx with paramIndexToName, localIndexToName }
    (visitExprList (visitor m) func.firstExpr ctx).andThen
      (fun firstExpr => { withTypeVar typeVar with firstExpr }) fun firstExpr ctx =>
    .ok { withTypeVar typeVar with firstExpr } { ctx with currentFunc := none }
  | _, _ => .abort

/-- The result of `use_name_for_func_var` is not looked at. -/
def visitExport (export_ : Export) (ctx : Context) : Visit Context Export :=
  match useNameForFuncVar m export_.var ctx with
  | .ok var ctx => .ok { export_ with var } ctx
  | .error var ctx => .ok { export_ with var } ctx
  | .abort => .abort

def visitElemSegment (segment : ElemSegment) (ctx : Context) : Visit Context ElemSegment :=
  (useNameForTableVar m segment.tableVar ctx).andThen ({ segment with tableVar := · })
    fun tableVar ctx =>
  (visitVars (useNameForFuncVar m) segment.vars ctx).map fun vars => { segment with tableVar, vars }

def visitDataSegment (segment : DataSegment) (ctx : Context) : Visit Context DataSegment :=
  (useNameForMemoryVar m segment.memoryVar ctx).map ({ segment with memoryVar := · })

def visitModule (ctx : Context) : Visit Context Module :=
  (forEach (visitFunc m) m.funcs ctx).andThen ({ m with funcs := · }) fun funcs ctx =>
  (forEach (visitExport m) m.exports ctx).andThen ({ m with funcs, exports := · })
    fun exports ctx =>
  (forEach (visitElemSegment m) m.elemSegments ctx).andThen
    ({ m with funcs, exports, elemSegments := · }) fun elemSegments ctx =>
  (forEach (visitDataSegment m) m.dataSegments ctx).map
    ({ m with funcs, exports, elemSegments, dataSegments := · })

end module

end ApplyNames

/-- `wasm_apply_names`: the module as the pass leaves it and whether it returns `WASM_OK`;
`none` is a crash. -/
def applyNames (m : Module) : Option (Module × Bool) :=
  match ApplyNames.visitModule m {} with
  | .ok m _ => some (m, true)
  | .error m _ => some (m, false)
  | .abort => none

end Text

end SexprWasm
