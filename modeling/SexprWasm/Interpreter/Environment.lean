import SexprWasm.Common
import SexprWasm.Lib.Buffer
import SexprWasm.Text.BindingHashSound

/-!
# The interpreter environment

`interpreter.h` and the first part of `interpreter.c`: what a store of
loaded modules holds, and how it is marked and reset. The unions of the
C structures are split into their cases (`Func`, `Module`), so that a
host function has a callback and a host module its delegate. A value is
the bits of `WasmInterpreterValue`. Of an import's descriptor only what
is read again is kept. Indexes into the vectors of the environment are
not cut to 32 bits; offsets into the istream are.
-/

namespace SexprWasm

namespace Interpreter

/-- `WasmInterpreterTypedValue`. -/
structure TypedValue where
  type : WasmType
  value : Nat
  deriving DecidableEq, Repr

structure Table where
  limits : Limits
  funcIndexes : List Nat
  deriving DecidableEq, Repr

/-- `data` is the block of `byteSize` bytes the pointer owns. -/
structure Memory where
  pageLimits : Limits
  byteSize : Nat
  data : List UInt8
  deriving DecidableEq, Repr

structure Global where
  typedValue : TypedValue
  mutable_ : Bool
  deriving DecidableEq, Repr

structure Import where
  moduleName : List UInt8
  fieldName : List UInt8
  kind : ExternalKind
  deriving DecidableEq, Repr

/-- `WasmInterpreterHostFuncCallback`; `none` is a failure. -/
abbrev HostFuncCallback : Type := FuncSignature → List TypedValue → Option (List TypedValue)

structure DefinedFunc where
  sigIndex : Nat
  offset : Nat
  localDeclCount : Nat
  localCount : Nat
  paramAndLocalTypes : List ValueType
  deriving DecidableEq, Repr

structure HostFunc where
  sigIndex : Nat
  moduleName : List UInt8
  fieldName : List UInt8
  callback : HostFuncCallback

inductive Func
  | defined (func : DefinedFunc)
  | host (func : HostFunc)

def Func.sigIndex : Func → Nat
  | .defined func => func.sigIndex
  | .host func => func.sigIndex

structure Export where
  name : List UInt8
  kind : ExternalKind
  index : Nat
  deriving DecidableEq, Repr

/-- `WasmInterpreterHostImportDelegate`: each callback gets the object the loader has
appended and gives it back filled in, or fails. -/
structure HostImportDelegate where
  importFunc : Import → FuncSignature → Option HostFuncCallback
  importTable : Import → Table → Option Table
  importMemory : Import → Option Memory
  importGlobal : Import → Global → Option Global

abbrev BindingHash : Type := Text.BindingHash

/-- `wasm_find_binding_index_by_name`; `none` is an index below 0. -/
def findBindingIndexByName (hash : BindingHash) (name : List UInt8) : Option Nat :=
  if hash.find name < 0 then none else some (hash.find name).toNat

/-- The members `WasmInterpreterModule` has for both kinds of module. -/
structure ModuleHeader where
  name : List UInt8
  exports : List Export
  exportBindings : BindingHash
  memoryIndex : Nat
  tableIndex : Nat
  deriving DecidableEq

structure DefinedModule extends ModuleHeader where
  imports : List Import
  startFuncIndex : Nat
  istreamStart : Nat
  istreamEnd : Nat
  deriving DecidableEq

structure HostModule extends ModuleHeader where
  importDelegate : HostImportDelegate

inductive Module
  | defined (module : DefinedModule)
  | host (module : HostModule)

namespace Module

def header : Module → ModuleHeader
  | .defined module => module.toModuleHeader
  | .host module => module.toModuleHeader

def modifyHeader (f : ModuleHeader → ModuleHeader) : Module → Module
  | .defined module => .defined { module with toModuleHeader := f module.toModuleHeader }
  | .host module => .host { module with toModuleHeader := f module.toModuleHeader }

end Module

/-- `append_export`. -/
def ModuleHeader.appendExport (m : ModuleHeader) (kind : ExternalKind) (itemIndex : Nat)
    (name : List UInt8) : ModuleHeader :=
  { m with
    exports := m.exports ++ [{ name, kind, index := itemIndex }]
    exportBindings := m.exportBindings.insert name m.exports.length }

/-- `wasm_get_interpreter_export_by_name`; the outer failure is the assertion on the
index that is found. -/
def ModuleHeader.getExportByName (m : ModuleHeader) (name : List UInt8) :
    Option (Option Export) :=
  match findBindingIndexByName m.exportBindings name with
  | none => some none
  | some fieldIndex => (m.exports[fieldIndex]?).map some

structure Environment where
  modules : List Module := []
  sigs : List FuncSignature := []
  funcs : List Func := []
  memories : List Memory := []
  tables : List Table := []
  globals : List Global := []
  istream : List UInt8 := []
  moduleBindings : BindingHash := {}
  registeredModuleBindings : BindingHash := {}

structure Mark where
  modulesSize : Nat
  sigsSize : Nat
  funcsSize : Nat
  memoriesSize : Nat
  tablesSize : Nat
  globalsSize : Nat
  istreamSize : Nat

namespace Environment

/-- `wasm_mark_interpreter_environment`. -/
def mark (env : Environment) : Mark where
  modulesSize := env.modules.length
  sigsSize := env.sigs.length
  funcsSize := env.funcs.length
  memoriesSize := env.memories.length
  tablesSize := env.tables.length
  globalsSize := env.globals.length
  istreamSize := env.istream.length

/-- `wasm_reset_interpreter_environment_to_mark`: only what is above the mark is dropped.
The loops that remove the bindings of modules above the mark are left out; a module is
named and registered after it has been loaded, so there are none. -/
def resetToMark (env : Environment) (mark : Mark) : Environment :=
  { env with
    modules := env.modules.take mark.modulesSize
    sigs := env.sigs.take mark.sigsSize
    funcs := env.funcs.take mark.funcsSize
    memories := env.memories.take mark.memoriesSize
    tables := env.tables.take mark.tablesSize
    globals := env.globals.take mark.globalsSize
    istream := env.istream.take mark.istreamSize }

/-- `wasm_append_host_module`. -/
def appendHostModule (env : Environment) (name : List UInt8)
    (importDelegate : HostImportDelegate) : Environment :=
  { env with
    modules := env.modules ++
      [.host
        { name
          exports := []
          exportBindings := {}
          memoryIndex := invalidIndex
          tableIndex := invalidIndex
          importDelegate }]
    registeredModuleBindings := env.registeredModuleBindings.insert name env.modules.length }

end Environment

/-- `wasm_func_signatures_are_equal`, for indexes in range. -/
def funcSignaturesAreEqual (sig₀ sig₁ : FuncSignature) : Bool := sig₀ = sig₁

end Interpreter

end SexprWasm
