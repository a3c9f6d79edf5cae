import SexprWasm.Common

/-!
# The AST of a module

`ast.h`. A `WasmExpr*` is a list of expressions linked by `next`, whose
blocks hold such lists again; `ExprList` is that list, with one
constructor for each kind of node that has a body and `expr` for the
rest. Variables are resolved: a `Var` is the `int64_t` index of a
`WasmVar`. Source locations,
names and binding tables are left out, and the vectors of pointers a
`WasmModule` keeps for convenience are computed (`Module.funcDecls` and
its siblings): imports first, definitions after them.
-/

namespace SexprWasm

namespace Ast

abbrev Var : Type := Int

/-- `WasmConst`; `bits` is `u32`, `u64`, `f32_bits` or `f64_bits`, by the type. -/
structure Const where
  type : ValueType
  bits : Nat
  deriving DecidableEq, Repr

/-- The expressions without a body. -/
inductive Expr
  | unreachable
  | nop
  | br (var : Var)
  | brIf (var : Var)
  | brTable (targets : List Var) (defaultTarget : Var)
  | return_
  | call (var : Var)
  | callIndirect (var : Var)
  | drop
  | select
  | getLocal (var : Var)
  | setLocal (var : Var)
  | teeLocal (var : Var)
  | getGlobal (var : Var)
  | setGlobal (var : Var)
  | load (opcode : OpcodeOf .load) (align offset : Nat)
  | store (opcode : OpcodeOf .store) (align offset : Nat)
  | currentMemory
  | growMemory
  | const (const_ : Const)
  | unary (opcode : OpcodeOf .unary)
  | binary (opcode : OpcodeOf .binary)
  | compare (opcode : OpcodeOf .compare)
  | convert (opcode : OpcodeOf .convert)
  deriving DecidableEq, Repr

/-- `WasmExpr*`; `nil` is the null pointer. -/
inductive ExprList
  | nil
  | expr (e : Expr) (next : ExprList)
  | block (sig : List ValueType) (first next : ExprList)
  | loop (sig : List ValueType) (first next : ExprList)
  | if_ (sig : List ValueType) (true_ false_ next : ExprList)
  deriving DecidableEq, Repr, Inhabited

namespace ExprList

def append : ExprList → ExprList → ExprList
  | nil, l => l
  | expr e next, l => expr e (append next l)
  | block sig first next, l => block sig first (append next l)
  | loop sig first next, l => loop sig first (append next l)
  | if_ sig true_ false_ next, l => if_ sig true_ false_ (append next l)

instance : Append ExprList := ⟨append⟩

@[simp] theorem nil_append (l : ExprList) : nil ++ l = l := rfl

@[simp] theorem expr_append (e : Expr) (next l : ExprList) :
    expr e next ++ l = expr e (next ++ l) := rfl

@[simp] theorem block_append (sig : List ValueType) (first next l : ExprList) :
    block sig first next ++ l = block sig first (next ++ l) := rfl

@[simp] theorem loop_append (sig : List ValueType) (first next l : ExprList) :
    loop sig first next ++ l = loop sig first (next ++ l) := rfl

@[simp] theorem if_append (sig : List ValueType) (true_ false_ next l : ExprList) :
    if_ sig true_ false_ next ++ l = if_ sig true_ false_ (next ++ l) := rfl

end ExprList

/-- `WasmFuncDeclaration`; `typeVar` is set if the flag `HAS_FUNC_TYPE` is. -/
structure FuncDeclaration where
  typeVar : Option Var
  sig : FuncSignature
  deriving DecidableEq, Repr, Inhabited

structure Func where
  decl : FuncDeclaration
  localTypes : List ValueType
  firstExpr : ExprList
  deriving DecidableEq, Repr, Inhabited

structure GlobalType where
  type : ValueType
  mutable_ : Bool
  deriving DecidableEq, Repr, Inhabited

structure Global extends GlobalType where
  initExpr : ExprList
  deriving DecidableEq, Repr, Inhabited

structure ElemSegment where
  tableVar : Var
  offset : ExprList
  vars : List Var
  deriving DecidableEq, Repr, Inhabited

structure DataSegment where
  memoryVar : Var
  offset : ExprList
  data : List UInt8
  deriving DecidableEq, Repr, Inhabited

/-- What is imported, with the part of the definition an import gives. -/
inductive ImportKind
  | func (decl : FuncDeclaration)
  | table (elemLimits : Limits)
  | memory (pageLimits : Limits)
  | global (type : GlobalType)
  deriving DecidableEq, Repr

structure Import where
  moduleName : List UInt8
  fieldName : List UInt8
  kind : ImportKind
  deriving DecidableEq, Repr

structure Export where
  name : List UInt8
  kind : ExternalKind
  var : Var
  deriving DecidableEq, Repr

/-- `WasmModule`; `funcs`, `tables`, `memories` and `globals` are those defined here, and
`starts` holds every start field. -/
structure Module where
  funcTypes : List FuncSignature := []
  imports : List Import := []
  funcs : List Func := []
  tables : List Limits := []
  memories : List Limits := []
  globals : List Global := []
  exports : List Export := []
  starts : List Var := []
  elemSegments : List ElemSegment := []
  dataSegments : List DataSegment := []
  deriving DecidableEq, Repr, Inhabited

def ImportKind.func? : ImportKind → Option FuncDeclaration
  | .func decl => some decl
  | _ => none

def ImportKind.table? : ImportKind → Option Limits
  | .table elemLimits => some elemLimits
  | _ => none

def ImportKind.memory? : ImportKind → Option Limits
  | .memory pageLimits => some pageLimits
  | _ => none

def ImportKind.global? : ImportKind → Option GlobalType
  | .global type => some type
  | _ => none

namespace Module

def funcImports (m : Module) : List FuncDeclaration := m.imports.filterMap (·.kind.func?)
def tableImports (m : Module) : List Limits := m.imports.filterMap (·.kind.table?)
def memoryImports (m : Module) : List Limits := m.imports.filterMap (·.kind.memory?)
def globalImports (m : Module) : List GlobalType := m.imports.filterMap (·.kind.global?)

def numFuncImports (m : Module) : Nat := m.funcImports.length

/-- The declarations of `module->funcs`. -/
def funcDecls (m : Module) : List FuncDeclaration := m.funcImports ++ m.funcs.map (·.decl)
def allTables (m : Module) : List Limits := m.tableImports ++ m.tables
def allMemories (m : Module) : List Limits := m.memoryImports ++ m.memories
def globalTypes (m : Module) : List GlobalType := m.globalImports ++ m.globals.map (·.toGlobalType)

end Module

end Ast

end SexprWasm
