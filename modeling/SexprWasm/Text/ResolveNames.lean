import SexprWasm.Text.Visitor

/-!
# Resolving names

`resolve-names.c`: every variable that is a name becomes the index of
the entity bound to it. A name that is not bound is reported and left,
and so is a name bound twice. The name of a local is looked up in
`current_func`, which is null outside function bodies.
-/

namespace SexprWasm

namespace Text

namespace ResolveNames

/-- `Context`; `labels` is the stack with its top first, `result` is `WASM_OK` or not. -/
structure Context where
  currentFunc : Option FuncScope := none
  labels : List StringSlice := []
  result : Bool := true

/-- `print_error`. -/
def Context.printError (ctx : Context) : Context := { ctx with result := false }

/-- `check_duplicate_bindings`. -/
def checkDuplicateBindings (bindings : BindingHash) (ctx : Context) : Context :=
  if bindings.reportsDuplicate then ctx.printError else ctx

def pushLabel (label : StringSlice) (ctx : Context) : Visit Context StringSlice :=
  .ok label { ctx with labels := label :: ctx.labels }

def popLabel (ctx : Context) : Visit Context Unit :=
  match ctx.labels with
  | [] => .abort
  | _ :: labels => .ok () { ctx with labels }

/-- `resolve_label_var`. -/
def resolveLabelVar (var : Var) (ctx : Context) : Visit Context Var :=
  match var with
  | .index _ => .ok var ctx
  | .name n =>
    match ctx.labels.findIdx? (· == some n) with
    | some index => .ok (.index index) ctx
    | none => .ok var ctx.printError

/-- `resolve_var`. -/
def resolveVar (bindings : BindingHash) (var : Var) (ctx : Context) : Visit Context Var :=
  match var with
  | .index _ => .ok var ctx
  | .name _ =>
    let index := getIndexFromVar bindings var
    if index = -1 then .ok var ctx.printError else .ok (.index index) ctx

/-- `resolve_local_var`. -/
def resolveLocalVar (var : Var) (ctx : Context) : Visit Context Var :=
  match var with
  | .index _ => .ok var ctx
  | .name _ =>
    match ctx.currentFunc with
    | none => .abort
    | some func =>
      let index := func.getLocalIndexByVar var
      if index = -1 then .ok var ctx.printError else .ok (.index index) ctx

section module

variable (m : Module)

def resolveFuncVar := resolveVar m.funcBindings
def resolveGlobalVar := resolveVar m.globalBindings
def resolveFuncTypeVar := resolveVar m.funcTypeBindings
def resolveTableVar := resolveVar m.tableBindings
def resolveMemoryVar := resolveVar m.memoryBindings

def visitor : ExprVisitor Context where
  beginBlockExpr := pushLabel
  endBlockExpr := popLabel
  beginLoopExpr := pushLabel
  endLoopExpr := popLabel
  beginIfExpr := pushLabel
  endIfExpr := popLabel
  onBrExpr := resolveLabelVar
  onBrIfExpr := resolveLabelVar
  onBrTableExpr := fun (targets, defaultTarget) ctx =>
    (visitVars resolveLabelVar targets ctx).andThen (·, defaultTarget) fun targets ctx =>
    (resolveLabelVar defaultTarget ctx).map (targets, ·)
  onCallExpr := resolveFuncVar m
  onCallIndirectExpr := resolveFuncTypeVar m
  onGetGlobalExpr := resolveGlobalVar m
  onGetLocalExpr := resolveLocalVar
  onSetGlobalExpr := resolveGlobalVar m
  onSetLocalExpr := resolveLocalVar
  onTeeLocalExpr := resolveLocalVar

/-- A loop over a vector. -/
def forEach {α : Type} (visit : α → Context → Option (α × Context)) :
    List α → Context → Option (List α × Context)
  | [], ctx => some ([], ctx)
  | a :: as, ctx => do
    let (a, ctx) ← visit a ctx
    let (as, ctx) ← forEach visit as ctx
    some (a :: as, ctx)

def visitFunc (func : Func) (ctx : Context) : Option (Func × Context) := do
  let ctx := { ctx with currentFunc := some func.scope }
  let (typeVar, ctx) ← match func.decl.typeVar with
    | none => some (none, ctx)
    | some var => do
      let (var, ctx) ← (resolveFuncTypeVar m var ctx).ignore
      some (some var, ctx)
  let ctx := checkDuplicateBindings func.paramBindings ctx
  let ctx := checkDuplicateBindings func.localBindings ctx
  let (firstExpr, ctx) ← (visitExprList (visitor m) func.firstExpr ctx).ignore
  some ({ func with decl := { func.decl with typeVar }, firstExpr },
    { ctx with currentFunc := none })

def visitExport (export_ : Export) (ctx : Context) : Option (Export × Context) := do
  let (var, ctx) ← (match export_.kind with
    | .func => resolveFuncVar m export_.var ctx
    | .table => resolveTableVar m export_.var ctx
    | .memory => resolveMemoryVar m export_.var ctx
    | .global => resolveGlobalVar m export_.var ctx).ignore
  some ({ export_ with var }, ctx)

def visitGlobal (global : Global) (ctx : Context) : Option (Global × Context) := do
  let (initExpr, ctx) ← (visitExprList (visitor m) global.initExpr ctx).ignore
  some ({ global with initExpr }, ctx)

def visitElemSegment (segment : ElemSegment) (ctx : Context) : Option (ElemSegment × Context) := do
  let (tableVar, ctx) ← (resolveTableVar m segment.tableVar ctx).ignore
  let (offset, ctx) ← (visitExprList (visitor m) segment.offset ctx).ignore
  let (vars, ctx) ← (visitVars (resolveFuncVar m) segment.vars ctx).ignore
  some ({ tableVar, offset, vars }, ctx)

def visitDataSegment (segment : DataSegment) (ctx : Context) : Option (DataSegment × Context) := do
  let (memoryVar, ctx) ← (resolveMemoryVar m segment.memoryVar ctx).ignore
  let (offset, ctx) ← (visitExprList (visitor m) segment.offset ctx).ignore
  some ({ segment with memoryVar, offset }, ctx)

/-- `if (module->start) resolve_func_var(ctx, module->start)`: the last of the start fields. -/
def visitStart : List Var → Context → Option (List Var × Context)
  | [], ctx => some ([], ctx)
  | [start], ctx => do
    let (start, ctx) ← (resolveFuncVar m start ctx).ignore
    some ([start], ctx)
  | start :: starts, ctx => do
    let (starts, ctx) ← visitStart starts ctx
    some (start :: starts, ctx)

def visitModule (ctx : Context) : Option (Module × Context) := do
  let ctx := checkDuplicateBindings m.funcBindings ctx
  let ctx := checkDuplicateBindings m.globalBindings ctx
  let ctx := checkDuplicateBindings m.exportBindings ctx
  let ctx := checkDuplicateBindings m.funcTypeBindings ctx
  let ctx := checkDuplicateBindings m.tableBindings ctx
  let ctx := checkDuplicateBindings m.memoryBindings ctx
  let (funcs, ctx) ← forEach (visitFunc m) m.funcs ctx
  let (exports, ctx) ← forEach (visitExport m) m.exports ctx
  let (globals, ctx) ← forEach (visitGlobal m) m.globals ctx
  let (elemSegments, ctx) ← forEach (visitElemSegment m) m.elemSegments ctx
  let (dataSegments, ctx) ← forEach (visitDataSegment m) m.dataSegments ctx
  let (starts, ctx) ← visitStart m m.starts ctx
  some ({ m with funcs, exports, globals, elemSegments, dataSegments, starts }, ctx)

end module

def visitRawModule (rawModule : RawModule) (ctx : Context) : Option (RawModule × Context) :=
  match rawModule with
  | .text m => do
    let (m, ctx) ← visitModule m ctx
    some (.text m, ctx)
  | .binary .. => some (rawModule, ctx)

def visitCommand (command : Command) (ctx : Context) : Option (Command × Context) :=
  match command with
  | .module m => do
    let (m, ctx) ← visitModule m ctx
    some (.module m, ctx)
  | .assertUnlinkable m => do
    let (m, ctx) ← visitRawModule m ctx
    some (.assertUnlinkable m, ctx)
  | .assertUninstantiable m => do
    let (m, ctx) ← visitRawModule m ctx
    some (.assertUninstantiable m, ctx)
  -- malformed modules should not be text, and invalid ones may be so because of their names
  | .assertMalformed _ | .assertInvalid _ | .other => some (command, ctx)

end ResolveNames

open ResolveNames

/-- `wasm_resolve_names_module`: the module and whether no error was reported; `none` is a
crash. -/
def resolveNamesModule (m : Module) : Option (Module × Bool) :=
  (visitModule m {}).map fun (m, ctx) => (m, ctx.result)

/-- `wasm_resolve_names_script`. -/
def resolveNamesScript (script : Script) : Option (Script × Bool) :=
  (forEach visitCommand script {}).map fun (script, ctx) => (script, ctx.result)

end Text

end SexprWasm
