import SexprWasm.Text.BindingHashSound

/-!
# The AST of the text format

`ast.h` with the names in it: a `WasmVar` is an index or a name, blocks
carry labels, entities their names, and each namespace the table of its
bindings. The vectors of a `WasmModule` are the index spaces, imported
entities before those defined here; `starts` holds the variable of every
start field in order, of which `module->start` is the last. Source
locations are left out, and so are the characters of the names that
imports and exports quote, except for the table of exported names.
-/

namespace SexprWasm

namespace Text

/-- The characters of a C string. -/
def cstr (s : String) : Name := s.toList.map fun c => UInt8.ofNat c.toNat

/-- `WasmStringSlice`; `none` has a null `start`. -/
abbrev StringSlice : Type := Option Name

/-- `has_name`. -/
def StringSlice.hasName (s : StringSlice) : Bool := 0 < (s.getD []).length

/-- `WasmVar`. -/
inductive Var
  | index (index : Int)
  | name (name : Name)
  deriving DecidableEq, Repr

def Var.isIndex : Var → Bool
  | index _ => true
  | name _ => false

/-- The expressions without a body. -/
inductive Expr
  | unreachable
  | nop
  | br (var : Var)
  | brIf (var : Var)
  | brTable (targets : List Var) (defaultTarget : Var)
  | return_
  | call (var : Var)
  | callIndirect (var : Var)
  | drop
  | select
  | getLocal (var : Var)
  | setLocal (var : Var)
  | teeLocal (var : Var)
  | getGlobal (var : Var)
  | setGlobal (var : Var)
  | load (opcode : OpcodeOf .load) (align offset : Nat)
  | store (opcode : OpcodeOf .store) (align offset : Nat)
  | currentMemory
  | growMemory
  | const (type : ValueType) (bits : Nat)
  | unary (opcode : OpcodeOf .unary)
  | binary (opcode : OpcodeOf .binary)
  | compare (opcode : OpcodeOf .compare)
  | convert (opcode : OpcodeOf .convert)
  deriving DecidableEq, Repr

/-- `WasmExpr*`; `nil` is the null pointer. -/
inductive ExprList
  | nil
  | expr (e : Expr) (next : ExprList)
  | block (label : StringSlice) (sig : List ValueType) (first next : ExprList)
  | loop (label : StringSlice) (sig : List ValueType) (first next : ExprList)
  | if_ (label : StringSlice) (sig : List ValueType) (true_ false_ next : ExprList)
  deriving DecidableEq, Repr, Inhabited

def ExprList.append : ExprList → ExprList → ExprList
  | .nil, l => l
  | .expr e next, l => .expr e (append next l)
  | .block label sig first next, l => .block label sig first (append next l)
  | .loop label sig first next, l => .loop label sig first (append next l)
  | .if_ label sig true_ false_ next, l => .if_ label sig true_ false_ (append next l)

instance : Append ExprList := ⟨ExprList.append⟩

structure FuncType where
  name : StringSlice := none
  sig : FuncSignature
  deriving DecidableEq, Repr, Inhabited

/-- `WasmFuncDeclaration`; `typeVar` is set if the flag `HAS_FUNC_TYPE` is. -/
structure FuncDeclaration where
  typeVar : Option Var := none
  sig : FuncSignature := { paramTypes := [], resultTypes := [] }
  deriving DecidableEq, Repr, Inhabited

structure Func where
  name : StringSlice := none
  decl : FuncDeclaration := {}
  localTypes : List ValueType := []
  paramBindings : BindingHash := {}
  localBindings : BindingHash := {}
  firstExpr : ExprList := .nil
  deriving DecidableEq, Inhabited

structure Global where
  name : StringSlice := none
  type : ValueType
  mutable_ : Bool := false
  initExpr : ExprList := .nil
  deriving DecidableEq, Repr, Inhabited

structure Table where
  name : StringSlice := none
  elemLimits : Limits
  deriving DecidableEq, Repr, Inhabited

structure Memory where
  name : StringSlice := none
  pageLimits : Limits
  deriving DecidableEq, Repr, Inhabited

structure Export where
  kind : ExternalKind
  var : Var
  deriving DecidableEq, Repr

structure ElemSegment where
  tableVar : Var := .index 0
  offset : ExprList := .nil
  vars : List Var := []
  deriving DecidableEq, Repr, Inhabited

structure DataSegment where
  memoryVar : Var := .index 0
  offset : ExprList := .nil
  data : List UInt8 := []
  deriving DecidableEq, Repr, Inhabited

/-- `WasmModule`. -/
structure Module where
  funcs : List Func := []
  globals : List Global := []
  exports : List Export := []
  funcTypes : List FuncType := []
  tables : List Table := []
  elemSegments : List ElemSegment := []
  memories : List Memory := []
  dataSegments : List DataSegment := []
  starts : List Var := []
  funcBindings : BindingHash := {}
  globalBindings : BindingHash := {}
  exportBindings : BindingHash := {}
  funcTypeBindings : BindingHash := {}
  tableBindings : BindingHash := {}
  memoryBindings : BindingHash := {}
  deriving DecidableEq, Inhabited

/-- `WasmRawModule`. -/
inductive RawModule
  | text (module : Module)
  | binary (name : StringSlice) (data : List UInt8)
  deriving DecidableEq

/-- `WasmCommand`, as far as it holds modules; `other` are the actions, the registrations and
the assertions about them. -/
inductive Command
  | module (module : Module)
  | assertMalformed (module : RawModule)
  | assertInvalid (module : RawModule)
  | assertUnlinkable (module : RawModule)
  | assertUninstantiable (module : RawModule)
  | other
  deriving DecidableEq

abbrev Script : Type := List Command

/-! ## Looking through the AST -/

/-- `wasm_get_index_from_var`. -/
def getIndexFromVar (bindings : BindingHash) : Var → Int
  | .name n => bindings.find n
  | .index i => cInt i

/-- `wasm_get_func_by_var` and its siblings: the entity of a variable, if it is in range. -/
def getByVar {α : Type} (bindings : BindingHash) (entities : List α) (var : Var) : Option α :=
  let index := getIndexFromVar bindings var
  if index < 0 then none else entities[index.toNat]?

/-- What of a function its local variables are read in. -/
structure FuncScope where
  numParams : Nat
  numLocals : Nat
  paramBindings : BindingHash
  localBindings : BindingHash

/-- `wasm_get_local_index_by_var`. -/
def FuncScope.getLocalIndexByVar (func : FuncScope) : Var → Int
  | .index i => cInt i
  | .name n =>
    let result := func.paramBindings.find n
    if result ≠ -1 then result
    else
      let result := func.localBindings.find n
      if result = -1 then result else cInt (func.numParams + result)

namespace FuncScope

variable {func : FuncScope} {n : Name}

theorem getLocalIndexByVar_param (hp : func.paramBindings.find n ≠ -1) :
    func.getLocalIndexByVar (.name n) = func.paramBindings.find n := by
  simp [getLocalIndexByVar, hp]

theorem getLocalIndexByVar_local (hp : func.paramBindings.find n = -1)
    (hl : func.localBindings.find n ≠ -1) :
    func.getLocalIndexByVar (.name n) = cInt (func.numParams + func.localBindings.find n) := by
  simp [getLocalIndexByVar, hp, hl]

theorem getLocalIndexByVar_neither (hp : func.paramBindings.find n = -1)
    (hl : func.localBindings.find n = -1) : func.getLocalIndexByVar (.name n) = -1 := by
  simp [getLocalIndexByVar, hp, hl]

end FuncScope

namespace Func

variable (f : Func)

/-- `wasm_get_num_params`. -/
def numParams : Nat := f.decl.sig.paramTypes.length

/-- `wasm_get_num_locals`. -/
def numLocals : Nat := f.localTypes.length

def scope : FuncScope where
  numParams := f.numParams
  numLocals := f.numLocals
  paramBindings := f.paramBindings
  localBindings := f.localBindings

def getLocalIndexByVar (var : Var) : Int := f.scope.getLocalIndexByVar var

end Func

/-- `wasm_make_type_binding_reverse_mapping`: the name bound to each of `numNames` indices, the
last one in the order of the table; `none` if the assertion on an index fails. -/
def makeTypeBindingReverseMapping (numNames : Nat) (bindings : BindingHash) :
    Option (List StringSlice) :=
  bindings.bindings.foldlM (fun mapping (name, index) =>
    let index := (index % maxU32).toNat
    if index < mapping.length then some (mapping.set index (some name)) else none)
    (List.replicate numNames none)

end Text

end SexprWasm
