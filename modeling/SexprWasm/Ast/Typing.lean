import SexprWasm.Ast.Syntax

/-!
# The declarative type system

`SeqType d C es st st'` - "in context `C`, the expressions `es` take an
operand stack of types `st` to one of types `st'`". Stacks have the top
first and hold the operands of the enclosing block only. `ExprType` and
`Jump` give each expression the operands it takes and leaves, last one
on top, read off the opcode table.

The system comes in two disciplines. `standard` is the stack-polymorphic
one of WebAssembly: what follows an unconditional branch is checked at
any stack. `checker` is what is left of it when

* nothing is asked of the code after an unconditional branch, up to the
  end of the block;
* the targets of a `br_table` may differ in how many of the topmost
  operands they take;
* an index of a local is read as an `int`;
* the operand of `tee_local`, the mutability of the target of
  `set_global` and the table index of a `call_indirect` on an empty
  stack are not looked at.
-/

namespace SexprWasm

namespace Ast

namespace Typing

inductive Discipline
  | standard | checker
  deriving DecidableEq, Repr

/-- How an index of a local is read. -/
def Discipline.localIndex : Discipline → Var → Int
  | .standard, var => var
  | .checker, var => cInt var

/-- `types` is what a branch to the label supplies: nothing for a loop. -/
structure TypingContext where
  module : Module
  func : Func
  labels : List (List ValueType)

namespace TypingContext

def locals (C : TypingContext) : List ValueType := C.func.decl.sig.paramTypes ++ C.func.localTypes

def results (C : TypingContext) : List ValueType := C.func.decl.sig.resultTypes

def pushLabel (C : TypingContext) (types : List ValueType) : TypingContext :=
  { C with labels := types :: C.labels }

end TypingContext

/-- `var` is the index of `a`. -/
def IndexOf {α : Type} (space : List α) (var : Var) (a : α) : Prop :=
  0 ≤ var ∧ space[var.toNat]? = some a

def values : WasmType → List ValueType
  | .i32 => [.i32]
  | .i64 => [.i64]
  | .f32 => [.f32]
  | .f64 => [.f64]
  | _ => []

@[simp] theorem values_toType (t : ValueType) : values t = [t] := by
  cases t <;> rfl

structure MemoryAccess (C : TypingContext) (opcode : WasmOpcode) (align offset : Nat) : Prop where
  memory : C.module.allMemories ≠ []
  align : align = useNaturalAlignment ∨ align.isPowerOfTwo ∧ align ≤ opcode.info.memorySize
  offset : offset < maxU32

section

variable (d : Discipline) (C : TypingContext)

/-- The operands an expression takes and those it leaves. -/
inductive ExprType : Expr → List ValueType → List ValueType → Prop
  | nop : ExprType .nop [] []
  | brIf {var : Var} {types : List ValueType} :
      IndexOf C.labels var types → ExprType (.brIf var) (types ++ [.i32]) types
  | call {var : Var} {decl : FuncDeclaration} :
      IndexOf C.module.funcDecls var decl →
      ExprType (.call var) decl.sig.paramTypes decl.sig.resultTypes
  | callIndirect {var : Var} {sig : FuncSignature} :
      C.module.allTables ≠ [] → IndexOf C.module.funcTypes var sig →
      ExprType (.callIndirect var) (sig.paramTypes ++ [.i32]) sig.resultTypes
  | drop (t : ValueType) : ExprType .drop [t] []
  | select (t : ValueType) : ExprType .select [t, t, .i32] [t]
  | getLocal {var : Var} {t : ValueType} :
      IndexOf C.locals (d.localIndex var) t → ExprType (.getLocal var) [] [t]
  | setLocal {var : Var} {t : ValueType} :
      IndexOf C.locals (d.localIndex var) t → ExprType (.setLocal var) [t] []
  | teeLocal {var : Var} {t t' : ValueType} :
      IndexOf C.locals (d.localIndex var) t → (d = .standard → t' = t) →
      ExprType (.teeLocal var) [t'] [t']
  | getGlobal {var : Var} {global : GlobalType} :
      IndexOf C.module.globalTypes var global → ExprType (.getGlobal var) [] [global.type]
  | setGlobal {var : Var} {global : GlobalType} :
      IndexOf C.module.globalTypes var global → (d = .standard → global.mutable_ = true) →
      ExprType (.setGlobal var) [global.type] []
  | load {opcode : OpcodeOf .load} {align offset : Nat} :
      MemoryAccess C opcode align offset →
      ExprType (.load opcode align offset) (values opcode.1.info.param1Type)
        (values opcode.1.info.resultType)
  | store {opcode : OpcodeOf .store} {align offset : Nat} :
      MemoryAccess C opcode align offset →
      ExprType (.store opcode align offset)
        (values opcode.1.info.param1Type ++ values opcode.1.info.param2Type)
        (values opcode.1.info.resultType)
  | currentMemory : C.module.allMemories ≠ [] → ExprType .currentMemory [] [.i32]
  | growMemory : C.module.allMemories ≠ [] → ExprType .growMemory [.i32] [.i32]
  | const (const_ : Const) : ExprType (.const const_) [] [const_.type]
  | unary (opcode : OpcodeOf .unary) :
      ExprType (.unary opcode) (values opcode.1.info.param1Type) (values opcode.1.info.resultType)
  | binary (opcode : OpcodeOf .binary) :
      ExprType (.binary opcode) (values opcode.1.info.param1Type ++ values opcode.1.info.param2Type)
        (values opcode.1.info.resultType)
  | compare (opcode : OpcodeOf .compare) :
      ExprType (.compare opcode)
        (values opcode.1.info.param1Type ++ values opcode.1.info.param2Type)
        (values opcode.1.info.resultType)
  | convert (opcode : OpcodeOf .convert) :
      ExprType (.convert opcode) (values opcode.1.info.param1Type)
        (values opcode.1.info.resultType)

/-- The operands an unconditional branch takes; control does not come out of it. -/
inductive Jump : Expr → List ValueType → Prop
  | unreachable : Jump .unreachable []
  | br {var : Var} {types : List ValueType} : IndexOf C.labels var types → Jump (.br var) types
  | brTable {targets : List Var} {defaultTarget : Var} {types : List ValueType} :
      (∀ target ∈ targets ++ [defaultTarget], ∃ suffix,
        IndexOf C.labels target suffix ∧ suffix <:+ types ∧ (d = .standard → suffix = types)) →
      Jump (.brTable targets defaultTarget) (types ++ [.i32])
  | return_ : Jump .return_ C.results

end

inductive SeqType (d : Discipline) :
    TypingContext → ExprList → List ValueType → List ValueType → Prop
  | nil {C : TypingContext} {st : List ValueType} : SeqType d C .nil st st
  | expr {C : TypingContext} {e : Expr} {next : ExprList} {ins outs st st' : List ValueType} :
      ExprType d C e ins outs → SeqType d C next (outs.reverse ++ st) st' →
      SeqType d C (.expr e next) (ins.reverse ++ st) st'
  | jump {C : TypingContext} {e : Expr} {next : ExprList} {ins st st' : List ValueType}
      (st₁ : List ValueType) :
      Jump d C e ins → (d = .standard → SeqType d C next st₁ st') →
      SeqType d C (.expr e next) (ins.reverse ++ st) st'
  | block {C : TypingContext} {sig : List ValueType} {first next : ExprList}
      {st st' : List ValueType} :
      SeqType d (C.pushLabel sig) first [] sig.reverse →
      SeqType d C next (sig.reverse ++ st) st' →
      SeqType d C (.block sig first next) st st'
  | loop {C : TypingContext} {sig : List ValueType} {first next : ExprList}
      {st st' : List ValueType} :
      SeqType d (C.pushLabel []) first [] sig.reverse →
      SeqType d C next (sig.reverse ++ st) st' →
      SeqType d C (.loop sig first next) st st'
  | if_ {C : TypingContext} {sig : List ValueType} {true_ false_ next : ExprList}
      {st st' : List ValueType} :
      SeqType d (C.pushLabel sig) true_ [] sig.reverse →
      SeqType d (C.pushLabel sig) false_ [] sig.reverse →
      SeqType d C next (sig.reverse ++ st) st' →
      SeqType d C (.if_ sig true_ false_ next) (.i32 :: st) st'
  | indexMissing {C : TypingContext} {var : Var} {next : ExprList} {results st' : List ValueType} :
      d = .checker → C.module.allTables ≠ [] → IndexOf C.module.funcTypes var ⟨[], results⟩ →
      SeqType d C next results.reverse st' →
      SeqType d C (.expr (.callIndirect var) next) [] st'

theorem SeqType.expr_inversion {C : TypingContext} {e : Expr} {next : ExprList}
    {st st' : List ValueType} (h : SeqType .standard C (.expr e next) st st') :
    (∃ ins outs st₁, ExprType .standard C e ins outs ∧ st = ins.reverse ++ st₁ ∧
      SeqType .standard C next (outs.reverse ++ st₁) st') ∨
    (∃ ins st₁, Jump .standard C e ins ∧ SeqType .standard C next st₁ st') := by
  cases h with
  | expr htype hnext => exact .inl ⟨_, _, _, htype, rfl, hnext⟩
  | jump st₁ hjump hnext => exact .inr ⟨_, st₁, hjump, hnext rfl⟩
  | indexMissing hd => cases hd

/-- The body is the block of a label with the function's results. -/
structure WellTyped (d : Discipline) (m : Module) (func : Func) : Prop where
  decl : ∀ var ∈ func.decl.typeVar, IndexOf m.funcTypes var func.decl.sig
  results : func.decl.sig.resultTypes.length ≤ 1
  body : SeqType d ⟨m, func, [func.decl.sig.resultTypes]⟩ func.firstExpr []
    func.decl.sig.resultTypes.reverse

end Typing

end Ast

end SexprWasm
