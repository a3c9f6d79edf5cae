import SexprWasm.Text.Visitor

/-!
# Generating names

`generate-names.c`: every entity without a name gets one made of the
prefix of its kind and its index, and a binding for it. Names that are
there already stay, and a generated name is not compared with them.
-/

namespace SexprWasm

namespace Text

/-- The digits `%u` prints. -/
def decimal (n : Nat) : Name := (Nat.toDigits 10 n).map fun c => UInt8.ofNat c.toNat

/-- `generate_name`. -/
def generateName (pre : String) (index : Nat) : Name := cstr pre ++ decimal index

/-- `maybe_generate_name`. -/
def maybeGenerateName (pre : String) (index : Nat) (str : StringSlice) : StringSlice :=
  if !str.hasName then some (generateName pre index) else str

/-- `generate_and_bind_name`. -/
def generateAndBindName (bindings : BindingHash) (pre : String) (index : Nat) :
    StringSlice × BindingHash :=
  let name := generateName pre index
  (some name, bindings.insert name (cInt index))

/-- `maybe_generate_and_bind_name`; `generate_and_bind_local_names` makes the same test. -/
def maybeGenerateAndBindName (bindings : BindingHash) (pre : String) (index : Nat)
    (str : StringSlice) : StringSlice × BindingHash :=
  if !str.hasName then generateAndBindName bindings pre index else (str, bindings)

/-- A loop over a vector, from index `i` on. -/
def forEachIndex {α β : Type} (visit : Nat → α → β → Option (α × β)) :
    Nat → List α → β → Option (List α × β)
  | _, [], b => some ([], b)
  | i, a :: as, b => do
    let (a, b) ← visit i a b
    let (as, b) ← forEachIndex visit (i + 1) as b
    some (a :: as, b)

/-- `generate_and_bind_local_names`. -/
def generateAndBindLocalNames (indexToName : List StringSlice) (bindings : BindingHash)
    (pre : String) : Option (List StringSlice × BindingHash) :=
  forEachIndex (fun i str bindings => some (maybeGenerateAndBindName bindings pre (u32 i) str))
    0 indexToName bindings

/-- The visitor of the pass; its state is `label_count`. -/
def generateNamesVisitor : ExprVisitor Nat where
  beginBlockExpr label n := .ok (maybeGenerateName "$B" n label) (u32 (n + 1))
  beginLoopExpr label n := .ok (maybeGenerateName "$L" n label) (u32 (n + 1))
  beginIfExpr label n := .ok (maybeGenerateName "$L" n label) (u32 (n + 1))

namespace GenerateNames

def visitFunc (funcIndex : Nat) (func : Func) (funcBindings : BindingHash) :
    Option (Func × BindingHash) := do
  let (name, funcBindings) := maybeGenerateAndBindName funcBindings "$f" (u32 funcIndex) func.name
  let indexToName ← makeTypeBindingReverseMapping func.numParams func.paramBindings
  let (_, paramBindings) ← generateAndBindLocalNames indexToName func.paramBindings "$p"
  let indexToName ← makeTypeBindingReverseMapping func.numLocals func.localBindings
  let (_, localBindings) ← generateAndBindLocalNames indexToName func.localBindings "$l"
  match visitExprList generateNamesVisitor func.firstExpr 0 with
  | .ok firstExpr _ =>
    some ({ func with name, paramBindings, localBindings, firstExpr }, funcBindings)
  | _ => none

def visitGlobal (globalIndex : Nat) (global : Global) (globalBindings : BindingHash) :
    Option (Global × BindingHash) :=
  let (name, globalBindings) :=
    maybeGenerateAndBindName globalBindings "$g" (u32 globalIndex) global.name
  some ({ global with name }, globalBindings)

def visitFuncType (funcTypeIndex : Nat) (funcType : FuncType) (funcTypeBindings : BindingHash) :
    Option (FuncType × BindingHash) :=
  let (name, funcTypeBindings) :=
    maybeGenerateAndBindName funcTypeBindings "$t" (u32 funcTypeIndex) funcType.name
  some ({ funcType with name }, funcTypeBindings)

def visitTable (tableIndex : Nat) (table : Table) (tableBindings : BindingHash) :
    Option (Table × BindingHash) :=
  let (name, tableBindings) :=
    maybeGenerateAndBindName tableBindings "$T" (u32 tableIndex) table.name
  some ({ table with name }, tableBindings)

def visitMemory (memoryIndex : Nat) (memory : Memory) (memoryBindings : BindingHash) :
    Option (Memory × BindingHash) :=
  let (name, memoryBindings) :=
    maybeGenerateAndBindName memoryBindings "$M" (u32 memoryIndex) memory.name
  some ({ memory with name }, memoryBindings)

end GenerateNames

open GenerateNames in
/-- `wasm_generate_names`; `none` if an assertion fails. No callback of the pass reports an
error. -/
def generateNames (m : Module) : Option Module := do
  let (globals, globalBindings) ← forEachIndex visitGlobal 0 m.globals m.globalBindings
  let (funcTypes, funcTypeBindings) ← forEachIndex visitFuncType 0 m.funcTypes m.funcTypeBindings
  let (funcs, funcBindings) ← forEachIndex visitFunc 0 m.funcs m.funcBindings
  let (tables, tableBindings) ← forEachIndex visitTable 0 m.tables m.tableBindings
  let (memories, memoryBindings) ← forEachIndex visitMemory 0 m.memories m.memoryBindings
  some { m with globals, globalBindings, funcTypes, funcTypeBindings, funcs, funcBindings, tables,
                tableBindings, memories, memoryBindings }

end Text

end SexprWasm
