import SexprWasm.Ast.Syntax

/-!
# The validator

`validator.c`, from the checks on variables up to `check_module`. An
error is printed and sets `ctx->result`, and checking goes on; `ok` is
that result. The type stack and the chain of labels are lists with the
top first. `type_stack_limit` is only called where there is a label.
-/

namespace SexprWasm

namespace Validator

open Ast

inductive LabelType
  | func | block | loop | if_
  deriving DecidableEq, Repr

structure LabelNode where
  labelType : LabelType
  sig : List ValueType
  typeStackLimit : Nat
  deriving DecidableEq, Repr

structure Context where
  typeStack : List WasmType
  labels : List LabelNode
  ok : Bool
  deriving DecidableEq, Repr

/-- `current_module` and `current_func`. -/
structure Env where
  module : Module
  func : Func

namespace Context

def printError (c : Context) : Context := { c with ok := false }

/-- Print an error unless `b` holds. -/
def require (c : Context) (b : Bool) : Context := if b then c else c.printError

end Context

def isPowerOfTwo (x : Nat) : Bool := x ≠ 0 ∧ x &&& (x - 1) = 0

/-! ## Variables -/

/-- `check_var` for an index space of the given size. -/
def checkVar (size : Nat) (var : Var) : Bool := 0 ≤ var ∧ var < cInt size

/-- `check_func_var` and its siblings: the entry of an index space. -/
def lookupVar {α : Type} (space : List α) (var : Var) : Option α :=
  if checkVar space.length var then space[var.toNat]? else none

def checkFuncVar (m : Module) (var : Var) : Option FuncDeclaration := lookupVar m.funcDecls var
def checkGlobalVar (m : Module) (var : Var) : Option GlobalType := lookupVar m.globalTypes var
def checkFuncTypeVar (m : Module) (var : Var) : Option FuncSignature := lookupVar m.funcTypes var
def checkTableVar (m : Module) (var : Var) : Option Limits := lookupVar m.allTables var
def checkMemoryVar (m : Module) (var : Var) : Option Limits := lookupVar m.allMemories var

/-- `check_local_var`; `wasm_get_local_index_by_var` converts the index to `int`. -/
def checkLocalVar (func : Func) (var : Var) : Option ValueType :=
  let types := func.decl.sig.paramTypes ++ func.localTypes
  lookupVar types (cInt var)

def checkAlign (alignment naturalAlignment : Nat) : Bool :=
  alignment = useNaturalAlignment || isPowerOfTwo alignment && alignment ≤ naturalAlignment

def checkOffset (offset : Nat) : Bool := offset < maxU32

def findLabelByVar (labels : List LabelNode) (var : Var) : Option LabelNode :=
  if 0 ≤ var then labels[var.toNat]? else none

/-! ## The type stack -/

namespace Context

def limit (c : Context) : Nat := (c.labels.head?.map (·.typeStackLimit)).getD 0

def avail (c : Context) : Nat := c.typeStack.length - c.limit

def pushLabel (c : Context) (labelType : LabelType) (sig : List ValueType) : Context :=
  { c with labels := { labelType, sig, typeStackLimit := c.typeStack.length } :: c.labels }

def popLabel (c : Context) : Context := { c with labels := c.labels.tail }

def resetTypeStackToLimit (c : Context) : Context :=
  { c with typeStack := c.typeStack.drop c.avail }

def pushType (c : Context) (type : WasmType) : Context :=
  if type = .void then c else { c with typeStack := type :: c.typeStack }

def pushTypes (c : Context) (types : List ValueType) : Context :=
  types.foldl (fun c type => c.pushType type) c

/-- `top_type`; below the limit it is `i32`, to let type checking continue. -/
def topType (c : Context) : WasmType :=
  if 0 < c.avail then c.typeStack.head?.getD .i32 else .i32

def popType (c : Context) : WasmType × Context :=
  (c.topType, if 0 < c.avail then { c with typeStack := c.typeStack.tail } else c)

def checkType (c : Context) (actual expected : WasmType) : Context := c.require (actual = expected)

/-- `check_type` of the topmost entries against `expected`, the last one on top. -/
def checkTopTypes (c : Context) (expected : List ValueType) : Context :=
  (((c.typeStack.take expected.length).reverse.zip expected).foldl
    (fun c types => c.checkType types.1 types.2) c)

def popAndCheck1Type (c : Context) (expected : WasmType) : Context :=
  if 1 ≤ c.avail then
    let (actual, c) := c.popType
    c.checkType actual expected
  else c.printError

def popAndCheck2Types (c : Context) (expected1 expected2 : WasmType) : Context :=
  if 2 ≤ c.avail then
    let (actual2, c) := c.popType
    let (actual1, c) := c.popType
    (c.checkType actual1 expected1).checkType actual2 expected2
  else c.printError

def checkOpcode1 (c : Context) (opcode : WasmOpcode) : Context :=
  (c.popAndCheck1Type opcode.info.param1Type).pushType opcode.info.resultType

def checkOpcode2 (c : Context) (opcode : WasmOpcode) : Context :=
  (c.popAndCheck2Types opcode.info.param1Type opcode.info.param2Type).pushType
    opcode.info.resultType

def checkNTypes (c : Context) (expected : List ValueType) : Context :=
  if expected.length ≤ c.avail then c.checkTopTypes expected else c.printError

def checkTypeStackLimitExact (c : Context) (expected : Nat) : Context :=
  c.require (expected = c.avail)

def checkBr (c : Context) (var : Var) : Context :=
  match findLabelByVar c.labels var with
  | none => c.printError
  | some node => if node.labelType = .loop then c else c.checkNTypes node.sig

def checkCall (c : Context) (sig : FuncSignature) : Context :=
  let c :=
    if sig.paramTypes.length ≤ c.avail then
      let c := c.checkTopTypes sig.paramTypes
      { c with typeStack := c.typeStack.drop sig.paramTypes.length }
    else c.printError.resetTypeStackToLimit
  c.pushTypes sig.resultTypes

/-- After an unconditional branch. -/
def unreachable (c : Context) : Context := c.resetTypeStackToLimit.pushType .any

end Context

/-! ## Expressions -/

def checkHasMemory (m : Module) (c : Context) : Context := c.require (m.allMemories.length ≠ 0)

/-- The checks on the immediates of a load or a store. -/
def checkMemoryAccess (m : Module) (c : Context) (opcode : WasmOpcode) (align offset : Nat) :
    Context :=
  (((checkHasMemory m c).require (checkAlign align opcode.info.memorySize)).require
    (checkOffset offset))

/-- `check_expr` for the expressions without a body. -/
def checkExpr (env : Env) (e : Expr) (c : Context) : Context :=
  match e with
  | .binary opcode => c.checkOpcode2 opcode
  | .br var => (c.checkBr var).unreachable
  | .brIf var => (c.popAndCheck1Type .i32).checkBr var
  | .brTable targets defaultTarget =>
      let c := c.popAndCheck1Type .i32
      let c := targets.foldl (fun c target => c.checkBr target) c
      (c.checkBr defaultTarget).unreachable
  | .call var =>
      match checkFuncVar env.module var with
      | none => c.printError
      | some decl => c.checkCall decl.sig
  | .callIndirect var =>
      let c := c.require (env.module.allTables.length ≠ 0)
      match checkFuncTypeVar env.module var with
      | none => c.printError
      | some sig =>
          let (type, c) := c.popType
          (c.checkType type .i32).checkCall sig
  | .compare opcode => c.checkOpcode2 opcode
  | .const const_ => c.pushType const_.type
  | .convert opcode => c.checkOpcode1 opcode
  | .drop => if 1 ≤ c.avail then c.popType.2 else c.printError
  | .getGlobal var =>
      match checkGlobalVar env.module var with
      | none => c.printError
      | some global => c.pushType global.type
  | .getLocal var =>
      match checkLocalVar env.func var with
      | none => c.printError
      | some type => c.pushType type
  | .growMemory => (checkHasMemory env.module c).checkOpcode1 .growMemory
  | .load opcode align offset =>
      (checkMemoryAccess env.module c opcode align offset).checkOpcode1 opcode
  | .currentMemory => (checkHasMemory env.module c).pushType .i32
  | .nop => c
  | .return_ => (c.checkNTypes env.func.decl.sig.resultTypes).unreachable
  | .select =>
      let c := c.popAndCheck1Type .i32
      if 2 ≤ c.avail then
        let (type1, c) := c.popType
        let (type2, c) := c.popType
        (c.checkType type2 type1).pushType type1
      else c.printError
  | .setGlobal var =>
      match checkGlobalVar env.module var with
      | none => c.printError.popAndCheck1Type .i32
      | some global => c.popAndCheck1Type global.type
  | .setLocal var =>
      match checkLocalVar env.func var with
      | none => c.printError.popAndCheck1Type .i32
      | some type => c.popAndCheck1Type type
  | .store opcode align offset =>
      (checkMemoryAccess env.module c opcode align offset).checkOpcode2 opcode
  | .teeLocal var =>
      let (c, localType) := match checkLocalVar env.func var with
        | none => (c.printError, WasmType.i32)
        | some type => (c, (type : WasmType))
      -- if (check_type_stack_limit(..)) is true when the check fails
      if 1 ≤ c.avail then c else c.printError.checkType c.topType localType
  | .unary opcode => c.checkOpcode1 opcode
  | .unreachable => c.unreachable

/-- The end of `check_block`; `checkResult` is false after unreachable code. -/
def endBlock (r : Context × Bool) : Context :=
  let (c, checkResult) := r
  let sig := (c.labels.head?.map (·.sig)).getD []
  let c := if checkResult then (c.checkNTypes sig).checkTypeStackLimitExact sig.length else c
  { c with typeStack := c.typeStack.drop c.avail }

/-- The loop of `check_block` over a list of expressions, with `check_expr` for those
that have a body; the second result is `check_result`. -/
def checkExprs (env : Env) : ExprList → Context → Context × Bool
  | .nil, c => (c, true)
  | .expr e next, c =>
      let c := checkExpr env e c
      -- stop typechecking if we hit unreachable code
      if c.topType = .any then (c, false) else checkExprs env next c
  | .block sig first next, c =>
      let c := endBlock (checkExprs env first (c.pushLabel .block sig))
      let c := c.popLabel.pushTypes sig
      if c.topType = .any then (c, false) else checkExprs env next c
  | .loop sig first next, c =>
      let c := endBlock (checkExprs env first (c.pushLabel .loop sig))
      let c := c.popLabel.pushTypes sig
      if c.topType = .any then (c, false) else checkExprs env next c
  | .if_ sig true_ false_ next, c =>
      let c := (c.popAndCheck1Type .i32).pushLabel .if_ sig
      let c := endBlock (checkExprs env true_ c)
      let c := endBlock (checkExprs env false_ c)
      let c := c.popLabel.pushTypes sig
      if c.topType = .any then (c, false) else checkExprs env next c

/-! ## Modules -/

/-- `check_func_type_var` and `check_func_signature_matches_func_type`. -/
def checkFuncDeclaration (m : Module) (decl : FuncDeclaration) : Bool :=
  match decl.typeVar with
  | none => true
  | some var => checkFuncTypeVar m var = some decl.sig

def checkFunc (m : Module) (func : Func) : Bool :=
  func.decl.sig.resultTypes.length ≤ 1 &&
    (checkFuncDeclaration m func.decl &&
      let c : Context := { typeStack := [], labels := [], ok := true }
      let c := c.pushLabel .func func.decl.sig.resultTypes
      (endBlock (checkExprs { module := m, func } func.firstExpr c)).ok)

/-- `globalIndex` is `current_global_index`. -/
def checkConstInitExpr (m : Module) (globalIndex : Nat) (e : ExprList) (expected : ValueType) :
    Bool :=
  match e with
  | .expr (.const const_) .nil => const_.type = expected
  | .expr (.getGlobal var) .nil =>
      match checkGlobalVar m var with
      | none => false
      | some global =>
          var < globalIndex && var < m.globalImports.length && !global.mutable_ &&
            global.type = expected
  | _ => false

def checkLimits (limits : Limits) (absoluteMax : Nat) : Bool :=
  limits.initial ≤ absoluteMax &&
    (!limits.hasMax || limits.max ≤ absoluteMax && limits.initial ≤ limits.max)

/-- `check_table` over imports and definitions; only one table is allowed. -/
def checkTables (m : Module) : Bool :=
  m.allTables.length ≤ 1 && m.allTables.all fun limits => checkLimits limits (maxU32 - 1)

def checkMemories (m : Module) : Bool :=
  m.allMemories.length ≤ 1 && m.allMemories.all fun limits => checkLimits limits wasmMaxPages

def checkImport (m : Module) (import_ : Import) : Bool :=
  match import_.kind with
  | .func decl =>
      match decl.typeVar with
      | none => true
      | some var => (checkFuncTypeVar m var).isSome
  | .global type => !type.mutable_
  | _ => true

def checkExport (m : Module) (export_ : Export) : Bool :=
  match export_.kind with
  | .func => (checkFuncVar m export_.var).isSome
  | .table => (checkTableVar m export_.var).isSome
  | .memory => (checkMemoryVar m export_.var).isSome
  | .global =>
      match checkGlobalVar m export_.var with
      | none => false
      | some global => !global.mutable_

def checkStart (m : Module) : Bool :=
  m.starts.length ≤ 1 && m.starts.all fun start =>
    match checkFuncVar m start with
    | none => false
    | some decl => decl.sig.paramTypes.length = 0 && decl.sig.resultTypes.length = 0

def checkElemSegment (m : Module) (segment : ElemSegment) : Bool :=
  (checkTableVar m segment.tableVar).isSome &&
    (segment.vars.all (fun var => (checkFuncVar m var).isSome) &&
      checkConstInitExpr m m.globalTypes.length segment.offset .i32)

def checkDataSegment (m : Module) (segment : DataSegment) : Bool :=
  (checkMemoryVar m segment.memoryVar).isSome &&
    checkConstInitExpr m m.globalTypes.length segment.offset .i32

/-- `check_module`: no error is printed. -/
def checkModule (m : Module) : Bool :=
  m.funcs.all (checkFunc m) &&
  (m.globals.zipIdx.all fun (global, i) =>
    checkConstInitExpr m (m.globalImports.length + i) global.initExpr global.type) &&
  m.imports.all (checkImport m) &&
  m.exports.all (checkExport m) &&
  checkTables m &&
  checkMemories m &&
  checkStart m &&
  m.elemSegments.all (checkElemSegment m) &&
  m.dataSegments.all (checkDataSegment m)

end Validator

end SexprWasm
