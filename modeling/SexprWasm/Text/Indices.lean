import SexprWasm.Text.ResolveNames
import SexprWasm.Text.Uses
import SexprWasm.Ast.Validator
import SexprWasm.Literal.Integer

/-!
# Indices from the text to the binary

A number in the place of a variable is read by the actions of `nat` and
`var`, passed over by `resolve-names.c`, compared with an index space by
`validator.c`, and written by `binary-writer.c`. `Place` lists where the
validator looks at an index; it stops at unreachable code, and `Reaches`
says which expressions of a body come before that.
-/

namespace SexprWasm

namespace Text

/-- Conversion to `int64_t`. -/
def cInt64 (n : Int) : Int := n.bmod maxU64

/-- The action of `nat` and the first one of `var`; an error is `none`. -/
def natVar (text : List UInt8) : Option Var :=
  (Literal.parseUint64 text).map fun n : Nat => .index (cInt64 n)

/-- The function of `resolve-names.c` for a variable. -/
def ResolveNames.resolveUse (m : Module) : VarKind → Var → Context → Visit Context Var
  | .label => resolveLabelVar
  | .local_ => resolveLocalVar
  | .func => resolveFuncVar m
  | .global => resolveGlobalVar m
  | .funcType => resolveFuncTypeVar m
  | .table => resolveTableVar m
  | .memory => resolveMemoryVar m

/-- The index of a number after parsing and resolution; `none` if an error was reported. -/
def readIndex (m : Module) (ctx : ResolveNames.Context) (kind : VarKind) (text : List UInt8) :
    Option Ast.Var :=
  (natVar text).bind fun var =>
    match ResolveNames.resolveUse m kind var ctx with
    | .ok (.index index) _ => some index
    | _ => none

/-- The number `binary-writer.c` writes: `get_label_var_depth`, or what
`wasm_get_func_index_by_var` and its siblings return, passed on as a `uint32_t`. -/
def writtenIndex (kind : VarKind) (index : Ast.Var) : Nat :=
  match kind with
  | .label => (index % maxU32).toNat
  | _ => (cInt index % maxU32).toNat

end Text

namespace Ast.Expr

/-- The variables of an expression without a body. -/
def vars : Expr → List (Text.VarKind × Var)
  | br var => [(.label, var)]
  | brIf var => [(.label, var)]
  | brTable targets defaultTarget => targets.map (.label, ·) ++ [(.label, defaultTarget)]
  | call var => [(.func, var)]
  | callIndirect var => [(.funcType, var)]
  | getLocal var => [(.local_, var)]
  | setLocal var => [(.local_, var)]
  | teeLocal var => [(.local_, var)]
  | getGlobal var => [(.global, var)]
  | setGlobal var => [(.global, var)]
  | _ => []

end Ast.Expr

namespace Validator

open Ast
open Text (VarKind exportKind readIndex writtenIndex natVar)

/-- `check_expr` is called for the expression in the context, when `check_block` runs over the
list. -/
inductive Reaches (env : Env) : ExprList → Context → Expr → Context → Prop
  | here {e : Expr} {next : ExprList} {c : Context} : Reaches env (.expr e next) c e c
  | next {e e' : Expr} {next : ExprList} {c c' : Context}
      (live : (checkExpr env e c).topType ≠ .any)
      (rest : Reaches env next (checkExpr env e c) e' c') :
      Reaches env (.expr e next) c e' c'
  | inBlock {sig : List ValueType} {first next : ExprList} {e : Expr} {c c' : Context}
      (body : Reaches env first (c.pushLabel .block sig) e c') :
      Reaches env (.block sig first next) c e c'
  | afterBlock {sig : List ValueType} {first next : ExprList} {e : Expr} {c c₁ c' : Context}
      (block : c₁ = (endBlock (checkExprs env first (c.pushLabel .block sig))).popLabel.pushTypes
        sig) (live : c₁.topType ≠ .any) (rest : Reaches env next c₁ e c') :
      Reaches env (.block sig first next) c e c'
  | inLoop {sig : List ValueType} {first next : ExprList} {e : Expr} {c c' : Context}
      (body : Reaches env first (c.pushLabel .loop sig) e c') :
      Reaches env (.loop sig first next) c e c'
  | afterLoop {sig : List ValueType} {first next : ExprList} {e : Expr} {c c₁ c' : Context}
      (block : c₁ = (endBlock (checkExprs env first (c.pushLabel .loop sig))).popLabel.pushTypes
        sig) (live : c₁.topType ≠ .any) (rest : Reaches env next c₁ e c') :
      Reaches env (.loop sig first next) c e c'
  | inTrue {sig : List ValueType} {true_ false_ next : ExprList} {e : Expr} {c c' : Context}
      (body : Reaches env true_ ((c.popAndCheck1Type .i32).pushLabel .if_ sig) e c') :
      Reaches env (.if_ sig true_ false_ next) c e c'
  | inFalse {sig : List ValueType} {true_ false_ next : ExprList} {e : Expr} {c c' : Context}
      (body : Reaches env false_ (endBlock (checkExprs env true_
        ((c.popAndCheck1Type .i32).pushLabel .if_ sig))) e c') :
      Reaches env (.if_ sig true_ false_ next) c e c'
  | afterIf {sig : List ValueType} {true_ false_ next : ExprList} {e : Expr} {c c₁ c' : Context}
      (block : c₁ = (endBlock (checkExprs env false_ (endBlock (checkExprs env true_
        ((c.popAndCheck1Type .i32).pushLabel .if_ sig))))).popLabel.pushTypes sig)
      (live : c₁.topType ≠ .any) (rest : Reaches env next c₁ e c') :
      Reaches env (.if_ sig true_ false_ next) c e c'

/-- Where `check_func` starts on a body. -/
def Context.atBody (func : Func) : Context :=
  ({ typeStack := [], labels := [], ok := true } : Context).pushLabel .func
    func.decl.sig.resultTypes

/-- The places of a module at which the validator looks at an index, with the function and the
labels that it is read in. -/
inductive Place (m : Module) : Func → List LabelNode → VarKind → Var → Prop
  | body {func : Func} {e : Expr} {c : Context} {kind : VarKind} {var : Var}
      (func_mem : func ∈ m.funcs)
      (reaches : Reaches ⟨m, func⟩ func.firstExpr (.atBody func) e c)
      (var_mem : (kind, var) ∈ e.vars) : Place m func c.labels kind var
  | funcType {func : Func} {var : Var} (func_mem : func ∈ m.funcs)
      (typeVar : func.decl.typeVar = some var) : Place m func [] .funcType var
  | importType {import_ : Import} {decl : FuncDeclaration} {var : Var} (func : Func)
      (import_mem : import_ ∈ m.imports) (kind : import_.kind = .func decl)
      (typeVar : decl.typeVar = some var) : Place m func [] .funcType var
  | initExpr {global : Global} {var : Var} (func : Func) (global_mem : global ∈ m.globals)
      (init : global.initExpr = .expr (.getGlobal var) .nil) : Place m func [] .global var
  | export_ {export_ : Export} (func : Func) (export_mem : export_ ∈ m.exports) :
      Place m func [] (exportKind export_.kind) export_.var
  | start {var : Var} (func : Func) (start_mem : var ∈ m.starts) : Place m func [] .func var
  | elemTable {segment : ElemSegment} (func : Func) (segment_mem : segment ∈ m.elemSegments) :
      Place m func [] .table segment.tableVar
  | elemOffset {segment : ElemSegment} {var : Var} (func : Func)
      (segment_mem : segment ∈ m.elemSegments)
      (offset : segment.offset = .expr (.getGlobal var) .nil) : Place m func [] .global var
  | elemVar {segment : ElemSegment} {var : Var} (func : Func)
      (segment_mem : segment ∈ m.elemSegments) (var_mem : var ∈ segment.vars) :
      Place m func [] .func var
  | dataMemory {segment : DataSegment} (func : Func) (segment_mem : segment ∈ m.dataSegments) :
      Place m func [] .memory segment.memoryVar
  | dataOffset {segment : DataSegment} {var : Var} (func : Func)
      (segment_mem : segment ∈ m.dataSegments)
      (offset : segment.offset = .expr (.getGlobal var) .nil) : Place m func [] .global var

/-! ## What an index is compared with -/

section spaces

variable (m : Module) (func : Func) (labels : List LabelNode)

/-- The parameters and the locals of a function. -/
def localTypes : List ValueType := func.decl.sig.paramTypes ++ func.localTypes

/-- The number of entities an index can refer to. -/
def spaceSize : VarKind → Nat
  | .label => labels.length
  | .local_ => (localTypes func).length
  | .func => m.funcDecls.length
  | .global => m.globalTypes.length
  | .funcType => m.funcTypes.length
  | .table => m.allTables.length
  | .memory => m.allMemories.length

/-- The check of the validator on an index prints no error. -/
def accepts (kind : VarKind) (var : Var) : Bool :=
  match kind with
  | .label => (findLabelByVar labels var).isSome
  | .local_ => (checkLocalVar func var).isSome
  | .func => (checkFuncVar m var).isSome
  | .global => (checkGlobalVar m var).isSome
  | .funcType => (checkFuncTypeVar m var).isSome
  | .table => (checkTableVar m var).isSome
  | .memory => (checkMemoryVar m var).isSome

/-- The check finds entry `n` of the index space, if there is one. -/
def Finds (kind : VarKind) (var : Var) (n : Nat) : Prop :=
  match kind with
  | .label => findLabelByVar labels var = labels[n]?
  | .local_ => checkLocalVar func var = (localTypes func)[n]?
  | .func => checkFuncVar m var = m.funcDecls[n]?
  | .global => checkGlobalVar m var = m.globalTypes[n]?
  | .funcType => checkFuncTypeVar m var = m.funcTypes[n]?
  | .table => checkTableVar m var = m.allTables[n]?
  | .memory => checkMemoryVar m var = m.allMemories[n]?

end spaces

end Validator

end SexprWasm
