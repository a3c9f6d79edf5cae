import SexprWasm.Text.Syntax

/-!
# A module under construction

`WasmModule` as the parser and the binary reader build it: fields linked
by `next` from `first_field` to `last_field`, and for each kind of
entity a vector of pointers to the fields, or into the imports, that
hold one. A field is an address in the list of those allocated and is
zeroed until a client sets it. A table of bindings is the list of what
was inserted into it; `Insertions.table` is the table the code has.

`Consistent` says that the two views of the module are the same: walking
the fields meets the entities of each vector, in order.
-/

namespace SexprWasm

namespace Text

/-- What was inserted into a `WasmBindingHash`, in order; the name may be null. -/
abbrev Insertions : Type := List (StringSlice × Nat)

def Insertions.table (insertions : Insertions) : BindingHash :=
  insertions.foldl (fun table (name, index) =>
    match name with
    | none => table
    | some name => table.insert name index) {}

namespace Linked

open Links

structure Func where
  name : StringSlice := none
  decl : FuncDeclaration := {}
  localTypes : List ValueType := []
  paramBindings : Insertions := []
  localBindings : Insertions := []
  firstExpr : ExprList := .nil
  deriving DecidableEq, Inhabited

inductive ImportKind
  | func (func : Func)
  | table (table : Table)
  | memory (memory : Memory)
  | global (global : Global)
  deriving DecidableEq

def ImportKind.external : ImportKind → ExternalKind
  | func _ => .func
  | table _ => .table
  | memory _ => .memory
  | global _ => .global

/-- `WasmImport`; `kind` is `none` while it is zeroed. -/
structure Import where
  moduleName : List UInt8 := []
  fieldName : List UInt8 := []
  kind : Option ImportKind := none
  deriving DecidableEq

structure Export extends Text.Export where
  name : Name
  deriving DecidableEq

/-- `WasmModuleField`. -/
inductive Field
  | func (func : Func)
  | global (global : Global)
  | import_ (import_ : Import)
  | export_ (export_ : Export)
  | funcType (funcType : FuncType)
  | table (table : Table)
  | elemSegment (elemSegment : ElemSegment)
  | memory (memory : Memory)
  | dataSegment (dataSegment : DataSegment)
  | start (start : Var)
  deriving DecidableEq

/-- An allocated field, `field` is `none` while it is zeroed. -/
structure Node where
  field : Option Field := none
  next : Option Nat := none
  deriving DecidableEq

/-- A pointer to the entity of a field, or to the one of an import field. -/
inductive Pointer
  | own (field : Nat)
  | imported (field : Nat)
  deriving DecidableEq, Repr

/-- The kinds of entities that have a vector. -/
inductive Kind
  | func | global | import_ | export_ | funcType | table | elemSegment | memory | dataSegment
  deriving DecidableEq, Repr

def Kind.ofExternal : ExternalKind → Kind
  | .func => func
  | .table => table
  | .memory => memory
  | .global => global

/-- `WasmModule`. -/
structure Module where
  name : StringSlice := none
  nodes : List Node := []
  firstField : Option Nat := none
  lastField : Option Nat := none
  numFuncImports : Nat := 0
  numTableImports : Nat := 0
  numMemoryImports : Nat := 0
  numGlobalImports : Nat := 0
  funcs : List Pointer := []
  globals : List Pointer := []
  imports : List Pointer := []
  exports : List Pointer := []
  funcTypes : List Pointer := []
  tables : List Pointer := []
  elemSegments : List Pointer := []
  memories : List Pointer := []
  dataSegments : List Pointer := []
  start : Option Nat := none
  funcBindings : Insertions := []
  globalBindings : Insertions := []
  exportBindings : Insertions := []
  funcTypeBindings : Insertions := []
  tableBindings : Insertions := []
  memoryBindings : Insertions := []
  deriving DecidableEq

namespace Module

variable (m : Module)

def vector : Kind → List Pointer
  | .func => m.funcs
  | .global => m.globals
  | .import_ => m.imports
  | .export_ => m.exports
  | .funcType => m.funcTypes
  | .table => m.tables
  | .elemSegment => m.elemSegments
  | .memory => m.memories
  | .dataSegment => m.dataSegments

def numImports : ExternalKind → Nat
  | .func => m.numFuncImports
  | .table => m.numTableImports
  | .memory => m.numMemoryImports
  | .global => m.numGlobalImports

/-! ## Fields and what they hold -/

def next (p : Nat) : Option Nat := m.nodes[p]?.bind (·.next)

def field? (p : Nat) : Option Field := m.nodes[p]?.bind (·.field)

def func? : Pointer → Option Func
  | .own p =>
    match m.field? p with
    | some (.func func) => some func
    | _ => none
  | .imported p =>
    match m.field? p with
    | some (.import_ { kind := some (.func func), .. }) => some func
    | _ => none

def funcType? : Pointer → Option FuncType
  | .own p =>
    match m.field? p with
    | some (.funcType funcType) => some funcType
    | _ => none
  | .imported _ => none

/-- `wasm_append_module_field`; the new field is at the end of `nodes`. -/
def appendModuleField : Module :=
  let result := m.nodes.length
  let nodes :=
    match m.firstField, m.lastField with
    | some _, some last => m.nodes.modify last fun node => { node with next := some result }
    | _, _ => m.nodes
  { m with
    nodes := nodes ++ [{}]
    firstField := some (m.firstField.getD result)
    lastField := some result }

def modifyField (p : Nat) (f : Option Field → Option Field) : Module :=
  { m with nodes := m.nodes.modify p fun node => { node with field := f node.field } }

def setField (p : Nat) (field : Field) : Module := m.modifyField p fun _ => some field

/-- `APPEND_FIELD_TO_LIST`. -/
def appendFieldToList (field : Field) : Module :=
  m.appendModuleField.setField m.nodes.length field

def modifyFunc (f : Func → Func) : Pointer → Module
  | .own p => m.modifyField p fun
    | some (.func func) => some (.func (f func))
    | field => field
  | .imported p => m.modifyField p fun
    | some (.import_ ⟨moduleName, fieldName, some (.func func)⟩) =>
      some (.import_ ⟨moduleName, fieldName, some (.func (f func))⟩)
    | field => field

/-- `APPEND_ITEM_TO_VECTOR`. -/
def appendItemToVector (p : Pointer) : Kind → Module
  | .func => { m with funcs := m.funcs ++ [p] }
  | .global => { m with globals := m.globals ++ [p] }
  | .import_ => { m with imports := m.imports ++ [p] }
  | .export_ => { m with exports := m.exports ++ [p] }
  | .funcType => { m with funcTypes := m.funcTypes ++ [p] }
  | .table => { m with tables := m.tables ++ [p] }
  | .elemSegment => { m with elemSegments := m.elemSegments ++ [p] }
  | .memory => { m with memories := m.memories ++ [p] }
  | .dataSegment => { m with dataSegments := m.dataSegments ++ [p] }

/-- `num_*_imports++`. -/
def countImport : ExternalKind → Module
  | .func => { m with numFuncImports := m.numFuncImports + 1 }
  | .table => { m with numTableImports := m.numTableImports + 1 }
  | .memory => { m with numMemoryImports := m.numMemoryImports + 1 }
  | .global => { m with numGlobalImports := m.numGlobalImports + 1 }

/-- `wasm_append_implicit_func_type`. -/
def appendImplicitFuncType (sig : FuncSignature) : Module :=
  (m.appendFieldToList (.funcType { sig })).appendItemToVector (.own m.nodes.length) .funcType

end Module

/-! ## What a walk over the fields meets -/

/-- What the walk sees of a field; a zeroed one has the type of a function. -/
inductive Shape
  | zero
  | start
  | own (kind : Kind)
  | import_ (kind : Option ExternalKind)
  deriving DecidableEq

def Field.shape : Field → Shape
  | func _ => .own .func
  | global _ => .own .global
  | import_ i => .import_ (i.kind.map (·.external))
  | export_ _ => .own .export_
  | funcType _ => .own .funcType
  | table _ => .own .table
  | elemSegment _ => .own .elemSegment
  | memory _ => .own .memory
  | dataSegment _ => .own .dataSegment
  | start _ => .start

def shapeOf (field : Option Field) : Shape := (field.map (·.shape)).getD .zero

/-- The kind of an imported entity; zeroed it is that of a function. -/
def importKind (kind : Option ExternalKind) : ExternalKind := kind.getD .func

/-- The entity of the kind `k` in the field at `p`. -/
def Shape.entity (k : Kind) (p : Nat) : Shape → Option Pointer
  | zero => if k = .func then some (.own p) else none
  | start => none
  | own kind => if k = kind then some (.own p) else none
  | import_ kind =>
    if k = .import_ then some (.own p)
    else if k = .ofExternal (importKind kind) then some (.imported p)
    else none

def Shape.imports (k : ExternalKind) : Shape → Bool
  | import_ kind => importKind kind = k
  | _ => false

def Shape.initialised : Shape → Bool
  | zero | import_ none => false
  | _ => true

/-- The shape of the field at `p`. -/
def Module.shape (m : Module) (p : Nat) : Shape := shapeOf (m.field? p)

/-- Walking the fields of `m` meets those at `met`, and both views of `m` are the same. -/
structure Consistent (m : Module) (met : List Nat) : Prop where
  walk : Seg m.next m.firstField met none
  once : met.Nodup
  initialised : ∀ p ∈ met, (m.shape p).initialised = true
  vector : ∀ k, met.filterMap (fun p => (m.shape p).entity k p) = m.vector k
  numImports : ∀ k, met.countP (fun p => (m.shape p).imports k) = m.numImports k

end Linked

end Text

end SexprWasm
