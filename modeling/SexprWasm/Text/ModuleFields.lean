import SexprWasm.Text.ReadBinary

/-!
# The actions of the module grammar

The productions of `ast-parser.y` from `module_fields` to `script`, over
the values of the productions below them: a `FieldSyntax` is what one of
`type_def`, `global`, `table`, `memory`, `func`, `elem`, `data`, `start`,
`import` and `export` has come to. The state of an action is
`parser->errors`; an error does not stop the parser.
-/

namespace SexprWasm

namespace Text

namespace Linked

open Callback

/-- The values of the productions that `module_fields` appends; `export_` is an inline export. -/
inductive FieldSyntax
  | typeDef (funcType : FuncType)
  | global (global : Global) (export_ : Option Name)
  | table (table : Table) (export_ : Option Name) (elemSegment : Option ElemSegment)
  | memory (memory : Memory) (export_ : Option Name) (dataSegment : Option DataSegment)
  | func (func : Func) (export_ : Option Name)
  | elem (elemSegment : ElemSegment)
  | data (dataSegment : DataSegment)
  | start (start : Var)
  | import_ (moduleName fieldName : List UInt8) (kind : ImportKind)
  | export_ (export_ : Export)

def FieldSyntax.isExport : FieldSyntax → Bool
  | export_ _ => true
  | _ => false

/-- `WasmRawModule` before the action of `raw_module`. -/
inductive RawModuleSyntax
  | text (name : StringSlice) (fields : List FieldSyntax)
  | binary (name : StringSlice) (data : List UInt8)

/-- An `export` stands by itself among the fields. -/
def RawModuleSyntax.exports : RawModuleSyntax → Bool
  | text _ fields => fields.any (·.isExport)
  | binary _ _ => false

inductive CommandSyntax
  | module (module : RawModuleSyntax)
  | assertMalformed (module : RawModuleSyntax)
  | assertInvalid (module : RawModuleSyntax)
  | assertUnlinkable (module : RawModuleSyntax)
  | assertUninstantiable (module : RawModuleSyntax)
  | other

def CommandSyntax.exports : CommandSyntax → Bool
  | module m | assertMalformed m | assertInvalid m | assertUnlinkable m | assertUninstantiable m =>
    m.exports
  | other => false

/-- `WasmRawModule`. -/
inductive RawModule
  | text (module : Module)
  | binary (name : StringSlice) (data : List UInt8)

def RawModule.module? : RawModule → Option Module
  | text m => some m
  | binary _ _ => none

/-- `WasmCommand`, as far as it holds modules. -/
inductive Command
  | module (module : Module)
  | assertMalformed (module : RawModule)
  | assertInvalid (module : RawModule)
  | assertUnlinkable (module : RawModule)
  | assertUninstantiable (module : RawModule)
  | other

/-- The module that was built for a command. -/
def Command.module? : Command → Option Module
  | module m => some m
  | assertMalformed m | assertInvalid m | assertUnlinkable m | assertUninstantiable m => m.module?
  | other => none

/-- An action of the parser over `parser->errors`. -/
abbrev Action (α : Type) : Type := Callback Nat α

/-- `wasm_ast_parser_error`. -/
def parserError : Action Unit := modify (· + 1)

namespace Module

variable (m : Module)

def insertion (name : StringSlice) (index : Nat) : Insertions :=
  match name with
  | none => []
  | some name => [(some name, index)]

/-- `INSERT_BINDING`: the index is that of the last entity of the kind. -/
def insertBinding (name : StringSlice) : Kind → Module
  | .func => { m with funcBindings := m.funcBindings ++ insertion name (m.funcs.length - 1) }
  | .global => { m with globalBindings := m.globalBindings ++ insertion name (m.globals.length - 1) }
  | .export_ => { m with exportBindings := m.exportBindings ++ insertion name (m.exports.length - 1) }
  | .funcType =>
    { m with funcTypeBindings := m.funcTypeBindings ++ insertion name (m.funcTypes.length - 1) }
  | .table => { m with tableBindings := m.tableBindings ++ insertion name (m.tables.length - 1) }
  | .memory => { m with memoryBindings := m.memoryBindings ++ insertion name (m.memories.length - 1) }
  | .import_ | .elemSegment | .dataSegment => m

/-- `APPEND_FIELD_TO_LIST`, `APPEND_ITEM_TO_VECTOR` and `INSERT_BINDING` one after another. -/
def appendEntity (field : Field) (name : StringSlice) (kind : Kind) : Module :=
  ((m.appendFieldToList field).appendItemToVector (.own m.nodes.length) kind).insertBinding name kind

/-- `APPEND_INLINE_EXPORT`. -/
def appendInlineExport (kind : ExternalKind) (index : Nat) : Option Name → Module
  | none => m
  | some name => m.appendEntity (.export_ { kind, var := .index index, name }) (some name) .export_

/-- `wasm_get_func_type_index_by_sig`; `none` is -1. -/
def getFuncTypeIndexBySig (sig : FuncSignature) : Option Nat :=
  m.funcTypes.findIdx? fun p => (m.funcType? p).map (·.sig) = some sig

/-- `append_implicit_func_declaration`: a signature without a type gets one. -/
def appendImplicitFuncDeclaration (decl : FuncDeclaration) : Module :=
  if decl.typeVar.isSome then m
  else
    match m.getFuncTypeIndexBySig decl.sig with
    | none => m.appendImplicitFuncType decl.sig
    | some _ => m

/-- `CHECK_IMPORT_ORDERING` of one kind. -/
def checkImportOrdering (kind : ExternalKind) : Action Unit :=
  when ((m.vector (.ofExternal kind)).length ≠ m.numImports kind) parserError

/-- The `switch` on the kind of an import whose field is at `field`. -/
def appendImport (field : Nat) : ImportKind → Module
  | .func func =>
    (((m.appendImplicitFuncDeclaration func.decl).appendItemToVector (.imported field) .func).insertBinding
      func.name .func).countImport .func
  | .table table =>
    ((m.appendItemToVector (.imported field) .table).insertBinding table.name .table).countImport .table
  | .memory memory =>
    ((m.appendItemToVector (.imported field) .memory).insertBinding memory.name .memory).countImport
      .memory
  | .global global =>
    ((m.appendItemToVector (.imported field) .global).insertBinding global.name .global).countImport
      .global

/-- One production of `module_fields`. -/
def appendField : FieldSyntax → Action Module
  | .typeDef funcType => return m.appendEntity (.funcType funcType) funcType.name .funcType
  | .global global export_ =>
    let m := m.appendEntity (.global global) global.name .global
    return m.appendInlineExport .global (m.globals.length - 1) export_
  | .table table export_ elemSegment =>
    let m := m.appendEntity (.table table) table.name .table
    let m := m.appendInlineExport .table (m.tables.length - 1) export_
    return match elemSegment with
    | none => m
    | some elemSegment => m.appendEntity (.elemSegment elemSegment) none .elemSegment
  | .memory memory export_ dataSegment =>
    let m := m.appendEntity (.memory memory) memory.name .memory
    let m := m.appendInlineExport .memory (m.memories.length - 1) export_
    return match dataSegment with
    | none => m
    | some dataSegment => m.appendEntity (.dataSegment dataSegment) none .dataSegment
  | .func func export_ =>
    let field := m.nodes.length
    let m := (m.appendFieldToList (.func func)).appendImplicitFuncDeclaration func.decl
    let m := (m.appendItemToVector (.own field) .func).insertBinding func.name .func
    return m.appendInlineExport .func (m.funcs.length - 1) export_
  | .elem elemSegment => return m.appendEntity (.elemSegment elemSegment) none .elemSegment
  | .data dataSegment => return m.appendEntity (.dataSegment dataSegment) none .dataSegment
  | .start start =>
    return { m.appendFieldToList (.start start) with start := some m.nodes.length }
  | .import_ moduleName fieldName kind => do
    let field := m.nodes.length
    let m := m.appendFieldToList (.import_ { moduleName, fieldName, kind := some kind })
    m.checkImportOrdering .func
    m.checkImportOrdering .table
    m.checkImportOrdering .memory
    m.checkImportOrdering .global
    return (m.appendImport field kind).appendItemToVector (.own field) .import_
  | .export_ export_ =>
    -- the field that `wasm_append_module_field` returns is overwritten by the one of the macro
    return m.appendModuleField.appendEntity (.export_ export_) (some export_.name) .export_

/-- `module_fields`. -/
def moduleFields (fields : List FieldSyntax) : Action Module :=
  fields.foldlM appendField {}

/-- `wasm_get_func_type_by_var`. -/
def getFuncTypeByVar (var : Var) : Option FuncType :=
  (getByVar m.funcTypeBindings.table m.funcTypes var).bind m.funcType?

/-- The signature of a function that names its type and has no other. -/
def resolveFuncType (m : Module) (p : Pointer) : Module :=
  match m.func? p with
  | some { decl := ⟨some var, ⟨[], []⟩⟩, .. } =>
    match m.getFuncTypeByVar var with
    | none => m
    | some funcType =>
      m.modifyFunc (fun func => { func with decl := { func.decl with sig := funcType.sig } }) p
  | _ => m

end Module

/-- `raw_module`. -/
def rawModule : RawModuleSyntax → Action RawModule
  | .text name fields => do
    let m ← Module.moduleFields fields
    return .text (m.funcs.foldl Module.resolveFuncType { m with name })
  | .binary name data => return .binary name data

/-- `module`; a module that could not be read is destroyed. -/
def module (syntax_ : RawModuleSyntax) : Action Module := do
  match ← rawModule syntax_ with
  | .text m => return m
  | .binary name data =>
    match readBinaryAst { readDebugNames := false } data with
    | .ok _ c => return { c.module with name }
    | .error _ =>
      parserError
      return { name }
    | .abort => abort

/-- `cmd`, `assertion` and `raw_module` below them. -/
def command : CommandSyntax → Action Command
  | .module syntax_ => return .module (← module syntax_)
  | .assertMalformed syntax_ => return .assertMalformed (← rawModule syntax_)
  | .assertInvalid syntax_ => return .assertInvalid (← rawModule syntax_)
  | .assertUnlinkable syntax_ => return .assertUnlinkable (← rawModule syntax_)
  | .assertUninstantiable syntax_ => return .assertUninstantiable (← rawModule syntax_)
  | .other => return .other

/-- One production of `cmd_list`. -/
def appendCommand (script : List Command) (syntax_ : CommandSyntax) : Action (List Command) := do
  let built ← command syntax_
  return script ++ [built]

/-- `cmd_list`. -/
def cmdList (commands : List CommandSyntax) : Action (List Command) :=
  commands.foldlM appendCommand []

/-- `wasm_parse_ast`, if the grammar accepts; `none` is `WASM_ERROR`. -/
def parseAst (commands : List CommandSyntax) : Option (List Command) :=
  match cmdList commands 0 with
  | .ok script 0 => some script
  | _ => none

end Linked

end Text

end SexprWasm
