import SexprWasm.Text.Syntax
import SexprWasm.Lib.Callback

/-!
# The actions of the expression grammar

The productions of `ast-parser.y` from `instr` to `expr_list`. A syntax
tree has a node for each of them; `const_expr` and the bodies of
functions are an `InstrList`. An action builds `WasmExpr`s that point at
one another: an expression is an address in the list of those that are
allocated, and `abort` is a null pointer that is followed or a failed
assertion. Errors are counted and do not stop the parser.
-/

namespace SexprWasm

namespace Text

namespace ExprActions

open Callback

/-! ## Syntax -/

mutual

/-- `instr`; `endLabel` and `elseLabel` are the labels behind `end` and `else`. -/
inductive Instr
  | plain (e : Expr)
  | block (label : StringSlice) (sig : List ValueType) (body : InstrList) (endLabel : StringSlice)
  | loop (label : StringSlice) (sig : List ValueType) (body : InstrList) (endLabel : StringSlice)
  | if_ (label : StringSlice) (sig : List ValueType) (true_ : InstrList) (endLabel : StringSlice)
  | ifElse (label : StringSlice) (sig : List ValueType) (true_ : InstrList)
      (elseLabel : StringSlice) (false_ : InstrList) (endLabel : StringSlice)
  | expr (e : Expr1)

/-- `instr_list`. -/
inductive InstrList
  | nil
  | cons (instr : Instr) (rest : InstrList)

/-- `expr1`, what stands between the parentheses of an `expr`. -/
inductive Expr1
  | plain (e : Expr) (operands : Operands)
  | block (label : StringSlice) (sig : List ValueType) (body : InstrList)
  | loop (label : StringSlice) (sig : List ValueType) (body : InstrList)
  | if_ (label : StringSlice) (sig : List ValueType) (arms : IfArms)

/-- `if_`. -/
inductive IfArms
  | thenElse (true_ false_ : InstrList)
  | then_ (true_ : InstrList)
  | condThenElse (cond : Expr1) (true_ false_ : InstrList)
  | condThen (cond : Expr1) (true_ : InstrList)
  | exprElse (cond true_ false_ : Expr1)
  | expr (cond true_ : Expr1)

/-- `expr_list`. -/
inductive Operands
  | nil
  | cons (e : Expr1) (rest : Operands)

end

/-! ## Expressions in memory -/

/-- The fields of a `WasmExpr` that its type has. -/
inductive ExprFields
  | expr (e : Expr)
  | block (label : StringSlice) (sig : List ValueType) (first : Option Nat)
  | loop (label : StringSlice) (sig : List ValueType) (first : Option Nat)
  | if_ (label : StringSlice) (sig : List ValueType) (true_ false_ : Option Nat)
  deriving DecidableEq, Repr

/-- `WasmExpr`. -/
structure ExprNode where
  fields : ExprFields
  next : Option Nat := none
  deriving DecidableEq, Repr

/-- The expressions that are allocated, and `parser->errors`. -/
structure Heap where
  exprs : List ExprNode := []
  errors : Nat := 0
  deriving DecidableEq, Repr

/-- `WasmExprList`. -/
structure LinkedExprs where
  first : Option Nat := none
  last : Option Nat := none
  size : Nat := 0
  deriving DecidableEq, Repr

namespace Heap

def setNext (h : Heap) (p : Nat) (next : Option Nat) : Heap :=
  { h with exprs := h.exprs.modify p fun node => { node with next } }

def setFields (h : Heap) (p : Nat) (fields : ExprFields) : Heap :=
  { h with exprs := h.exprs.modify p fun node => { node with fields } }

end Heap

/-- An action of the parser. -/
abbrev Action (α : Type) : Type := Callback Heap α

/-- `wasm_new_..._expr`. -/
def newExpr (fields : ExprFields) : Action Nat := fun h =>
  .ok h.exprs.length { h with exprs := h.exprs ++ [{ fields }] }

def setNext (p : Nat) (next : Option Nat) : Action Unit := modify (·.setNext p next)

/-- `wasm_ast_parser_error`. -/
def parserError : Action Unit := modify fun h => { h with errors := h.errors + 1 }

/-- `wasm_string_slice_is_empty`. -/
def isEmpty (s : StringSlice) : Bool := !s.hasName

/-- Does `CHECK_END_LABEL` report an error? -/
def badEndLabel (beginLabel endLabel : StringSlice) : Bool :=
  !isEmpty endLabel && (isEmpty beginLabel || beginLabel ≠ endLabel)

/-- `CHECK_END_LABEL`. -/
def checkEndLabel (beginLabel endLabel : StringSlice) : Action Unit :=
  when (badEndLabel beginLabel endLabel) parserError

def appendExprList (exprList expr : LinkedExprs) : Action LinkedExprs := do
  match expr.first with
  | none => return exprList
  | some first =>
    match exprList.last with
    | some last =>
      setNext last (some first)
      return { exprList with last := expr.last, size := exprList.size + expr.size }
    | none =>
      return { first := some first, last := expr.last, size := exprList.size + expr.size }

def appendExpr (exprList : LinkedExprs) (expr : Nat) : Action LinkedExprs := do
  match exprList.last with
  | some last =>
    setNext last (some expr)
    return { exprList with last := some expr, size := exprList.size + 1 }
  | none => return { first := some expr, last := some expr, size := exprList.size + 1 }

def joinExprs1 (expr1 : Nat) : Action LinkedExprs := appendExpr {} expr1

def joinExprs2 (expr1 : LinkedExprs) (expr2 : Nat) : Action LinkedExprs := do
  let result ← appendExprList {} expr1
  appendExpr result expr2

/-- The action of the recursive productions of `instr_list` and `expr_list`. -/
def linkRest (expr rest : LinkedExprs) : Action LinkedExprs := do
  match expr.last with
  | none => abort
  | some last =>
    setNext last rest.first
    return { first := expr.first, last := rest.last.or expr.last, size := expr.size + rest.size }

/-- The assignments to the last expression of `if_`, which has to be an `if`. -/
def setIf (ifs : LinkedExprs) (label : StringSlice) (sig : List ValueType) :
    Action LinkedExprs := do
  match ifs.last with
  | none => abort
  | some last =>
    let h : Heap ← get
    match h.exprs[last]? with
    | some ⟨.if_ _ _ true_ false_, _⟩ =>
      modify (·.setFields last (.if_ label sig true_ false_))
      return ifs
    | _ => abort

/-! ## Productions -/

mutual

def instr : Instr → Action LinkedExprs
  | .plain e => do
    let expr ← newExpr (.expr e)
    joinExprs1 expr
  | .block label sig body endLabel => do
    let body ← instrList body
    let expr ← newExpr (.block label sig body.first)
    checkEndLabel label endLabel
    joinExprs1 expr
  | .loop label sig body endLabel => do
    let body ← instrList body
    let expr ← newExpr (.loop label sig body.first)
    checkEndLabel label endLabel
    joinExprs1 expr
  | .if_ label sig true_ endLabel => do
    let true_ ← instrList true_
    let expr ← newExpr (.if_ label sig true_.first none)
    checkEndLabel label endLabel
    joinExprs1 expr
  | .ifElse label sig true_ elseLabel false_ endLabel => do
    let true_ ← instrList true_
    let false_ ← instrList false_
    let expr ← newExpr (.if_ label sig true_.first false_.first)
    checkEndLabel label elseLabel
    checkEndLabel label endLabel
    joinExprs1 expr
  | .expr e => expr1 e

def instrList : InstrList → Action LinkedExprs
  | .nil => return {}
  | .cons i rest => do
    let expr ← instr i
    let rest ← instrList rest
    linkRest expr rest

def expr1 : Expr1 → Action LinkedExprs
  | .plain e operands => do
    let expr ← newExpr (.expr e)
    let operands ← exprList operands
    joinExprs2 operands expr
  | .block label sig body => do
    let body ← instrList body
    let expr ← newExpr (.block label sig body.first)
    joinExprs1 expr
  | .loop label sig body => do
    let body ← instrList body
    let expr ← newExpr (.loop label sig body.first)
    joinExprs1 expr
  | .if_ label sig arms => do
    let ifs ← if_ arms
    setIf ifs label sig

def if_ : IfArms → Action LinkedExprs
  | .thenElse true_ false_ => do
    let true_ ← instrList true_
    let false_ ← instrList false_
    let expr ← newExpr (.if_ none [] true_.first false_.first)
    joinExprs1 expr
  | .then_ true_ => do
    let true_ ← instrList true_
    let expr ← newExpr (.if_ none [] true_.first none)
    joinExprs1 expr
  | .condThenElse cond true_ false_ => do
    let cond ← expr1 cond
    let true_ ← instrList true_
    let false_ ← instrList false_
    let expr ← newExpr (.if_ none [] true_.first false_.first)
    joinExprs2 cond expr
  | .condThen cond true_ => do
    let cond ← expr1 cond
    let true_ ← instrList true_
    let expr ← newExpr (.if_ none [] true_.first none)
    joinExprs2 cond expr
  | .exprElse cond true_ false_ => do
    let cond ← expr1 cond
    let true_ ← expr1 true_
    let false_ ← expr1 false_
    let expr ← newExpr (.if_ none [] true_.first false_.first)
    joinExprs2 cond expr
  | .expr cond true_ => do
    let cond ← expr1 cond
    let true_ ← expr1 true_
    let expr ← newExpr (.if_ none [] true_.first none)
    joinExprs2 cond expr

def exprList : Operands → Action LinkedExprs
  | .nil => return {}
  | .cons e rest => do
    let expr ← expr1 e
    let rest ← exprList rest
    linkRest expr rest

end

end ExprActions

end Text

end SexprWasm
