import SexprWasm.Text.Syntax

/-!
# Walking over expressions

`WasmExprVisitor` and `wasm_visit_expr_list`. A callback is handed a
part of the expression it may rewrite in place, a label or the
variables, and the state its pass keeps; `Visit` is what a walk
answers. An error stops the walk and leaves what was rewritten before
it, so `error` carries the rewritten part like `ok` does; `abort` is a
failing assertion or a null pointer followed. A callback the pass leaves
null changes nothing.
-/

namespace SexprWasm

namespace Text

inductive Visit (σ α : Type) where
  | ok (a : α) (s : σ)
  | error (a : α) (s : σ)
  | abort
  deriving DecidableEq

namespace Visit

variable {σ α β γ : Type}

/-- `CHECK_RESULT` of a part; `stopped` is the whole if the walk ends there. -/
def andThen (v : Visit σ α) (stopped : α → β) (k : α → σ → Visit σ β) : Visit σ β :=
  match v with
  | ok a s => k a s
  | error a s => error (stopped a) s
  | abort => abort

/-- The result of a walk that is not looked at. -/
def ignore : Visit σ α → Option (α × σ)
  | ok a s => some (a, s)
  | error a s => some (a, s)
  | abort => none

def map (f : α → β) : Visit σ α → Visit σ β
  | ok a s => ok (f a) s
  | error a s => error (f a) s
  | abort => abort

@[simp] theorem andThen_ok (a : α) (s : σ) (stopped : α → β) (k : α → σ → Visit σ β) :
    (ok a s).andThen stopped k = k a s := rfl

@[simp] theorem andThen_error (a : α) (s : σ) (stopped : α → β) (k : α → σ → Visit σ β) :
    (error a s).andThen stopped k = error (stopped a) s := rfl

@[simp] theorem andThen_abort (stopped : α → β) (k : α → σ → Visit σ β) :
    (abort : Visit σ α).andThen stopped k = abort := rfl

@[simp] theorem map_ok (f : α → β) (a : α) (s : σ) : (ok a s).map f = ok (f a) s := rfl

@[simp] theorem map_error (f : α → β) (a : α) (s : σ) : (error a s).map f = error (f a) s := rfl

@[simp] theorem map_abort (f : α → β) : (abort : Visit σ α).map f = abort := rfl

end Visit

/-- `WasmExprVisitor`, the callbacks that some pass sets. -/
structure ExprVisitor (σ : Type) where
  beginBlockExpr : StringSlice → σ → Visit σ StringSlice := .ok
  endBlockExpr : σ → Visit σ Unit := .ok ()
  beginLoopExpr : StringSlice → σ → Visit σ StringSlice := .ok
  endLoopExpr : σ → Visit σ Unit := .ok ()
  beginIfExpr : StringSlice → σ → Visit σ StringSlice := .ok
  endIfExpr : σ → Visit σ Unit := .ok ()
  onBrExpr : Var → σ → Visit σ Var := .ok
  onBrIfExpr : Var → σ → Visit σ Var := .ok
  onBrTableExpr : List Var × Var → σ → Visit σ (List Var × Var) := .ok
  onCallExpr : Var → σ → Visit σ Var := .ok
  onCallIndirectExpr : Var → σ → Visit σ Var := .ok
  onGetGlobalExpr : Var → σ → Visit σ Var := .ok
  onGetLocalExpr : Var → σ → Visit σ Var := .ok
  onSetGlobalExpr : Var → σ → Visit σ Var := .ok
  onSetLocalExpr : Var → σ → Visit σ Var := .ok
  onTeeLocalExpr : Var → σ → Visit σ Var := .ok

variable {σ : Type}

/-- A loop over the variables of a vector. -/
def visitVars (visit : Var → σ → Visit σ Var) : List Var → σ → Visit σ (List Var)
  | [], s => .ok [] s
  | var :: vars, s =>
    (visit var s).andThen (· :: vars) fun var s => (visitVars visit vars s).map (var :: ·)

/-- `visit_expr` for an expression without a body. -/
def visitExpr (visitor : ExprVisitor σ) (e : Expr) (s : σ) : Visit σ Expr :=
  match e with
  | .br var => (visitor.onBrExpr var s).map .br
  | .brIf var => (visitor.onBrIfExpr var s).map .brIf
  | .brTable targets defaultTarget =>
    (visitor.onBrTableExpr (targets, defaultTarget) s).map fun (ts, d) => .brTable ts d
  | .call var => (visitor.onCallExpr var s).map .call
  | .callIndirect var => (visitor.onCallIndirectExpr var s).map .callIndirect
  | .getGlobal var => (visitor.onGetGlobalExpr var s).map .getGlobal
  | .getLocal var => (visitor.onGetLocalExpr var s).map .getLocal
  | .setGlobal var => (visitor.onSetGlobalExpr var s).map .setGlobal
  | .setLocal var => (visitor.onSetLocalExpr var s).map .setLocal
  | .teeLocal var => (visitor.onTeeLocalExpr var s).map .teeLocal
  | e => .ok e s

/-- `wasm_visit_expr_list`. -/
def visitExprList (visitor : ExprVisitor σ) : ExprList → σ → Visit σ ExprList
  | .nil, s => .ok .nil s
  | .expr e next, s =>
    (visitExpr visitor e s).andThen (.expr · next) fun e s =>
    (visitExprList visitor next s).map (.expr e)
  | .block label sig first next, s =>
    (visitor.beginBlockExpr label s).andThen (.block · sig first next) fun label s =>
    (visitExprList visitor first s).andThen (.block label sig · next) fun first s =>
    (visitor.endBlockExpr s).andThen (fun _ => .block label sig first next) fun _ s =>
    (visitExprList visitor next s).map (.block label sig first)
  | .loop label sig first next, s =>
    (visitor.beginLoopExpr label s).andThen (.loop · sig first next) fun label s =>
    (visitExprList visitor first s).andThen (.loop label sig · next) fun first s =>
    (visitor.endLoopExpr s).andThen (fun _ => .loop label sig first next) fun _ s =>
    (visitExprList visitor next s).map (.loop label sig first)
  | .if_ label sig true_ false_ next, s =>
    (visitor.beginIfExpr label s).andThen (.if_ · sig true_ false_ next) fun label s =>
    (visitExprList visitor true_ s).andThen (.if_ label sig · false_ next) fun true_ s =>
    (visitExprList visitor false_ s).andThen (.if_ label sig true_ · next) fun false_ s =>
    (visitor.endIfExpr s).andThen (fun _ => .if_ label sig true_ false_ next) fun _ s =>
    (visitExprList visitor next s).map (.if_ label sig true_ false_)

end Text

end SexprWasm
