import SexprWasm.Interpreter.Rollback
import SexprWasm.Lib.History

/-!
# What the indexes of a module stand for

The index spaces of a binary module, as a matter of its callbacks: of
each kind first the entities that are imported, in the order of the
imports, and then those the module defines, which are new in the
environment. `IndexSpaces.read` collects them from the history of a
load, without the mappings of the loader; `Translates` says what a
callback makes of the index it is given. The loader translates by the
mappings, and these are the index spaces (`Designated`).
-/

namespace SexprWasm

namespace Interpreter

set_option synthInstance.maxSize 2000

open Callback

/-! ## The index spaces -/

/-- The entities of the environment that the indexes of a kind stand for. -/
structure EntitySpace where
  imports : List Nat := []
  own : List Nat := []

def EntitySpace.entity? (s : EntitySpace) (index : Nat) : Option Nat :=
  (s.imports ++ s.own)[index]?

/-- `importNames` are those of the import that is being read. -/
structure IndexSpaces where
  sigs : EntitySpace := {}
  funcs : EntitySpace := {}
  globals : EntitySpace := {}
  importNames : List UInt8 × List UInt8 := ([], [])

def Environment.numEntities (env : Environment) : ExternalKind → Nat
  | .func => env.funcs.length
  | .table => env.tables.length
  | .memory => env.memories.length
  | .global => env.globals.length

/-- The entity another module exports by that name; a host module makes a new one. -/
def Context.importedEntity (c : Context) (kind : ExternalKind)
    (names : List UInt8 × List UInt8) : Option Nat := do
  let moduleIndex ← findBindingIndexByName c.env.registeredModuleBindings names.1
  match ← c.modules[moduleIndex]? with
  | .host _ => some (c.env.numEntities kind)
  | .defined module =>
    let export_ ← (module.getExportByName names.2).join
    if export_.kind = kind then some export_.index else none

/-- The next entities after `count`. -/
def newEntities (count new : Nat) : List Nat := (List.range new).map (count + ·)

namespace IndexSpaces

/-- What a callback says about the index spaces; the context is the one it is called with. -/
def step (s : IndexSpaces) : Context × Event → Option IndexSpaces
  | (_, .onImport _ moduleName fieldName) =>
    some { s with importNames := (moduleName, fieldName) }
  | (c, .onImportFunc _ _) =>
    (c.importedEntity .func s.importNames).map fun entity =>
      { s with funcs := { s.funcs with imports := s.funcs.imports ++ [entity] } }
  | (c, .onImportGlobal _ _ _) =>
    (c.importedEntity .global s.importNames).map fun entity =>
      { s with globals := { s.globals with imports := s.globals.imports ++ [entity] } }
  | (c, .onSignatureCount count) =>
    some { s with sigs := { s.sigs with own := newEntities c.env.sigs.length count } }
  | (c, .onFunctionSignaturesCount count) =>
    some { s with funcs := { s.funcs with own := newEntities c.env.funcs.length count } }
  | (c, .onGlobalCount count) =>
    some { s with globals := { s.globals with own := newEntities c.env.globals.length count } }
  | _ => some s

/-- The index spaces after a history; there are none if an import is of nothing. -/
def read (h : List (Context × Event)) : Option IndexSpaces :=
  h.foldlM step {}

end IndexSpaces

/-! ## The meaning of an index -/

def Context.emits (c : Context) (code : List (List UInt8)) : Context := code.foldl Context.emit c

/-- The code that has been emitted, and where the next is put. -/
def Context.code (c : Context) : List UInt8 × Nat := (c.env.istream, c.istreamOffset)

/-- The code with a value in the places that waited for it. -/
def patchAll (fixups : List Nat) (value : Nat) (istream : List UInt8) : List UInt8 :=
  fixups.foldl (fun istream fixup => Buffer.writeAt 0 istream fixup (Buffer.leBytes 4 value)) istream

/-- The code of a call of `func`, which is entity `entity`. -/
def callCode (entity : Nat) : Func → List (List UInt8)
  | .host _ => [Buffer.leBytes 1 InterpreterOpcode.callHost.code, Buffer.leBytes 4 entity]
  | .defined func => [Buffer.leBytes 1 WasmOpcode.call.code, Buffer.leBytes 4 func.offset]

/-- What a callback that has led from `c` to `c'` has made of the indexes it was called with. -/
def Translates (s : IndexSpaces) (c c' : Context) : Event → Prop
  | .onSignature index paramTypes resultTypes => ∃ entity, s.sigs.entity? index = some entity ∧
      c'.env.sigs = c.env.sigs.set entity { paramTypes, resultTypes }
  | .onImportFunc _ sigIndex => ∃ sigEntity entity func sig funcSig,
      s.sigs.entity? sigIndex = some sigEntity ∧
      c.importedEntity .func s.importNames = some entity ∧
      c'.funcIndexMapping = c.funcIndexMapping ++ [entity] ∧ c'.env.funcs[entity]? = some func ∧
      c.env.sigs[sigEntity]? = some sig ∧ c.env.sigs[func.sigIndex]? = some funcSig ∧
      (func.sigIndex = sigEntity ∨ funcSignaturesAreEqual sig funcSig)
  | .onImportGlobal _ _ _ => ∃ entity, c.importedEntity .global s.importNames = some entity ∧
      c'.globalIndexMapping = c.globalIndexMapping ++ [entity]
  | .onFunctionSignature index sigIndex => ∃ entity sigEntity func,
      s.funcs.own[index]? = some entity ∧ s.sigs.entity? sigIndex = some sigEntity ∧
      c'.env.funcs = c.env.funcs.set entity (.defined func) ∧ func.sigIndex = sigEntity
  | .beginGlobal index type mutable_ => ∃ entity global, s.globals.own[index]? = some entity ∧
      c.env.globals[entity]? = some global ∧
      c'.env.globals = c.env.globals.set entity
        { typedValue := { global.typedValue with type }, mutable_ }
  | .endGlobalInitExpr index => ∃ entity global, s.globals.own[index]? = some entity ∧
      c.env.globals[entity]? = some global ∧
      c'.env.globals = c.env.globals.set entity { global with typedValue := c.initExprValue }
  | .onInitExpr _ (.getGlobal index) => ∃ entity global, s.globals.entity? index = some entity ∧
      c.env.globals[entity]? = some global ∧ c'.initExprValue = global.typedValue
  | .onExport _ .func index name => ∃ entity, s.funcs.entity? index = some entity ∧
      c'.module.exports = c.module.exports ++ [{ name, kind := .func, index := entity }]
  | .onExport _ .global index name => ∃ entity, s.globals.entity? index = some entity ∧
      c'.module.exports = c.module.exports ++ [{ name, kind := .global, index := entity }]
  | .onStartFunction index => ∃ entity, s.funcs.entity? index = some entity ∧
      c'.module.startFuncIndex = entity
  | .onElemSegmentFunctionIndex _ index => ∃ entity table, s.funcs.entity? index = some entity ∧
      c.env.tables[c.module.tableIndex]? = some table ∧
      c'.env.tables = c.env.tables.set c.module.tableIndex
        { table with funcIndexes := table.funcIndexes.set c.tableOffset entity }
  | .beginFunctionBody index => ∃ entity fixups func, s.funcs.own[index]? = some entity ∧
      c.funcFixups[index]? = some fixups ∧ c'.currentFunc = some entity ∧
      c'.env.funcs = c.env.funcs.set entity (.defined func) ∧ func.offset = c.istreamOffset ∧
      c'.env.istream = patchAll fixups c.istreamOffset c.env.istream
  | .onExpr (.call index) => ∃ entity func, s.funcs.entity? index = some entity ∧
      c.env.funcs[entity]? = some func ∧ c'.code = (c.emits (callCode entity func)).code ∧
      ∀ defined, func = .defined defined → defined.offset = invalidOffset →
        ∃ own, s.funcs.own[own]? = some entity ∧
          c'.funcFixups = appendFixup c.funcFixups own (u32 (c.istreamOffset + 1))
  | .onExpr (.callIndirect sigIndex) => ∃ entity, s.sigs.entity? sigIndex = some entity ∧
      c'.code = (c.emits [Buffer.leBytes 1 WasmOpcode.callIndirect.code,
        Buffer.leBytes 4 c.module.tableIndex, Buffer.leBytes 4 entity]).code
  | .onExpr (.getGlobal index) => ∃ entity, s.globals.entity? index = some entity ∧
      c'.code = (c.emits [Buffer.leBytes 1 WasmOpcode.getGlobal.code,
        Buffer.leBytes 4 entity]).code
  | .onExpr (.setGlobal index) => ∃ entity, s.globals.entity? index = some entity ∧
      c'.code = (c.emits [Buffer.leBytes 1 WasmOpcode.setGlobal.code,
        Buffer.leBytes 4 entity]).code
  | _ => True

/-! ## The mappings of the loader -/

/-- The mappings and counters of the loader are the index spaces. -/
structure Maps (s : IndexSpaces) (c : Context) : Prop where
  sigs : c.sigIndexMapping = s.sigs.own
  sigImports : s.sigs.imports = []
  funcs : c.funcIndexMapping = s.funcs.imports ++ s.funcs.own
  numFuncImports : c.numFuncImports = s.funcs.imports.length
  globals : c.globalIndexMapping = s.globals.imports ++ s.globals.own
  numGlobalImports : c.numGlobalImports = s.globals.imports.length

/-- What `on_import` keeps of import `index` is the module and the export it names. -/
def SourceIs (names : List UInt8 × List UInt8) (index : Nat) (c : Context) : Prop :=
  ∃ moduleIndex, findBindingIndexByName c.env.registeredModuleBindings names.1 = some moduleIndex ∧
    match c.importSource with
    | .host source => source = moduleIndex ∧ ∃ module, c.modules[moduleIndex]? = some (.host module)
    | .module entity => ∃ module export_ import_, c.modules[moduleIndex]? = some (.defined module) ∧
        module.getExportByName names.2 = some (some export_) ∧
        c.module.imports[index]? = some import_ ∧ import_.kind = export_.kind ∧
        export_.index = entity

/-- What is known in front of each callback. -/
structure Designated (env₀ : Environment) (s : IndexSpaces) (p : Proto) (c : Context) : Prop where
  ordered : p.Ordered
  spaces : Spaces env₀ p c
  maps : Maps s c
  source : ∀ n index, p.phase = .importKind n index → SourceIs s.importNames index c

variable {env₀ : Environment} {s s' : IndexSpaces} {p p' : Proto} {c c' : Context} {e : Event}
  {data : List UInt8} {o : Nat}

theorem designated_initial (env₀ : Environment) :
    Designated env₀ {} .initial (initialContext env₀) where
  ordered := Proto.ordered_initial
  spaces := spaces_initial env₀
  maps := ⟨rfl, rfl, rfl, rfl, rfl, rfl⟩
  source n index h := by cases h

/-- Only `on_import` leads into an import. -/
theorem step_importKind {n index : Nat} (hstep : Proto.step data p (o, e) = some p')
    (hphase : p'.phase = .importKind n index) :
    ∃ moduleName fieldName, e = .onImport index moduleName fieldName := by
  cases e
  all_goals
    simp only [Proto.step, Proto.goto, Proto.entry, Proto.endSection, Proto.beginEntry,
      Proto.importDone, Proto.beginInit, Proto.endInit, Proto.beginSection, Proto.bodyStep,
      Option.map_if] at hstep
    repeat' split at hstep
  all_goals cases hstep
  all_goals simp_all

/-- An import of a kind comes in the phase of its `on_import`. -/
theorem importDone_phase {index : Nat} (hstep : (p.importDone index).isSome) :
    ∃ n, p.phase = .importKind n index := by
  unfold Proto.importDone at hstep
  split at hstep
  · rename_i n k hphase
    split at hstep
    · rename_i hk
      exact ⟨n, by rw [hphase, hk.2.1]⟩
    · cases hstep
  · cases hstep

instance : TypeFree (Maps s) := ⟨fun _ _ h => { h with }⟩
instance : LabelFree (Maps s) := ⟨fun _ _ h => { h with }⟩
instance : CodeFree (Maps s) := ⟨fun _ _ _ _ _ h => { h with }⟩
instance : ModuleFree (Maps s) := ⟨fun _ _ _ _ _ _ h => { h with }⟩
instance : StoreFree (Maps s) := ⟨fun _ _ _ h => { h with }⟩

instance : FuncFree (Maps s) := ⟨fun _ _ _ _ h => { h with }⟩
instance : ExportFree (Maps s) := ⟨fun _ _ _ _ _ h => { h with }⟩

/-! ## Imports -/

/-- There are no definitions before their count is read. -/
theorem Designated.funcs_own (h : Designated env₀ s p c) (h0 : p.numFunctionSignatures = 0) :
    s.funcs.own = [] := by
  have hlen := h.spaces.funcs.length
  rw [h.maps.funcs, List.length_append, h0, ← h.spaces.numFuncImports, h.maps.numFuncImports] at hlen
  exact List.length_eq_zero_iff.mp (by omega)

theorem Designated.globals_own (h : Designated env₀ s p c) (h0 : p.numGlobals = 0) :
    s.globals.own = [] := by
  have hlen := h.spaces.globals.length
  rw [h.maps.globals, List.length_append, h0, ← h.spaces.numGlobalImports,
    h.maps.numGlobalImports] at hlen
  exact List.length_eq_zero_iff.mp (by omega)

/-- The modules are the same after what is kept for an import. -/
theorem getElem?_modules (module : DefinedModule) {i : Nat} {m : Module}
    (hm : c.modules[i]? = some m) (hheader : module.toModuleHeader = c.module.toModuleHeader) :
    ∃ m', (c.env.modules ++ [.defined module])[i]? = some m' ∧
      (∀ host, m = .host host → m' = .host host) ∧
      ∀ defined, m = .defined defined → ∃ defined', m' = .defined defined' ∧
        defined'.toModuleHeader = defined.toModuleHeader := by
  rw [Context.modules] at hm
  rcases Nat.lt_or_ge i c.env.modules.length with hlt | hge
  · rw [List.getElem?_append_left hlt] at hm ⊢
    exact ⟨m, hm, fun _ => id, fun defined hdefined => ⟨defined, hdefined, rfl⟩⟩
  · rw [List.getElem?_append_right hge] at hm ⊢
    obtain ⟨hi, rfl⟩ := List.getElem?_eq_some_iff.mp hm
    rw [List.length_singleton] at hi
    have h0 : i - c.env.modules.length = 0 := by omega
    simp only [h0, List.getElem_cons_zero, List.getElem?_cons_zero]
    refine ⟨_, rfl, fun host h => (by cases h), fun defined h => ?_⟩
    cases h
    exact ⟨module, rfl, hheader⟩

theorem sourceIs_onImport (index : Nat) (moduleName fieldName : List UInt8) :
    wp (onImport index moduleName fieldName)
      (fun _ => SourceIs (moduleName, fieldName) index) (fun _ => True) True c := by
  simp only [onImport, getImport, wp_bind, wp_get, wp_orAbort, implies_true, and_true]
  intro import_ himport
  rcases hfind : findBindingIndexByName c.env.registeredModuleBindings moduleName with
    _ | moduleIndex
  · trivial
  · simp only [wp_bind, wp_orAbort, implies_true, and_true]
    intro m hm
    cases m with
    | host host =>
      obtain ⟨m', hm', hhost, -⟩ := getElem?_modules { c.module with
        imports := c.module.imports.set index { import_ with moduleName, fieldName } } hm rfl
      cases hhost host rfl
      exact ⟨moduleIndex, hfind, rfl, host, hm'⟩
    | defined defined =>
      simp only [wp_bind, wp_orAbort, implies_true, and_true]
      intro export? hexport
      cases export? with
      | none => trivial
      | some export_ =>
        obtain ⟨m', hm', -, hdefined⟩ := getElem?_modules { c.module with
          imports := c.module.imports.set index
            { moduleName, fieldName, kind := export_.kind } } hm rfl
        obtain ⟨defined', rfl, hheader⟩ := hdefined defined rfl
        have hlt := (List.getElem?_eq_some_iff.mp himport).1
        have hname : defined'.getExportByName fieldName = some (some export_) := by
          rw [hheader]
          exact hexport
        exact ⟨moduleIndex, hfind, defined', export_, _, hm', hname, List.getElem?_set_self hlt, rfl,
          rfl⟩

theorem SourceIs.importedEntity {names : List UInt8 × List UInt8} {index moduleIndex : Nat}
    (h : SourceIs names index c) (hsource : c.importSource = .host moduleIndex)
    (kind : ExternalKind) : c.importedEntity kind names = some (c.env.numEntities kind) := by
  obtain ⟨moduleIndex', hfind, hmatch⟩ := h
  rw [hsource] at hmatch
  obtain ⟨rfl, module, hmodule⟩ := hmatch
  simp only [Context.importedEntity, hfind, hmodule, Option.bind_eq_bind, Option.bind_some]

theorem SourceIs.importedEntity_module {names : List UInt8 × List UInt8} {index entity : Nat}
    {import_ : Import} (h : SourceIs names index c) (hsource : c.importSource = .module entity)
    (himport : c.module.imports[index]? = some import_) :
    c.importedEntity import_.kind names = some entity := by
  obtain ⟨moduleIndex, hfind, hmatch⟩ := h
  rw [hsource] at hmatch
  obtain ⟨module, export_, import', hmodule, hexport, himport', hkind, hentity⟩ := hmatch
  cases himport.symm.trans himport'
  simp only [Context.importedEntity, hfind, hmodule, Option.bind_eq_bind, Option.bind_some, hexport,
    Option.join_some, hkind, if_true, hentity]

namespace Maps

variable (h : Maps s c)
include h

theorem sig_entity? (index : Nat) : s.sigs.entity? index = c.sigIndexMapping[index]? := by
  rw [EntitySpace.entity?, h.sigImports, List.nil_append, h.sigs]

theorem func_entity? (index : Nat) : s.funcs.entity? index = c.funcIndexMapping[index]? := by
  rw [EntitySpace.entity?, h.funcs]

theorem global_entity? (index : Nat) : s.globals.entity? index = c.globalIndexMapping[index]? := by
  rw [EntitySpace.entity?, h.globals]

theorem func_own (index : Nat) :
    s.funcs.own[index]? = c.funcIndexMapping[index + c.numFuncImports]? := by
  rw [h.funcs, h.numFuncImports, List.getElem?_append_right (Nat.le_add_left _ _),
    Nat.add_sub_cancel]

theorem global_own (index : Nat) :
    s.globals.own[index]? = c.globalIndexMapping[index + c.numGlobalImports]? := by
  rw [h.globals, h.numGlobalImports, List.getElem?_append_right (Nat.le_add_left _ _),
    Nat.add_sub_cancel]

end Maps

/-- What a callback does, and what it says of the index spaces. -/
def Reads (s : IndexSpaces) (c : Context) (e : Event) (c' : Context) : Prop :=
  ∃ s', s.step (c, e) = some s' ∧ Maps s' c' ∧ Translates s c c' e

theorem reads_onImportFunc (h : Maps s c) (hown : s.funcs.own = []) {index : Nat} (sigIndex : Nat)
    (hsource : SourceIs s.importNames index c) :
    wp (onImportFunc index sigIndex) (fun _ => Reads s c (.onImportFunc index sigIndex))
      (fun _ => True) True c := by
  have hmaps : ∀ (entity : Nat) (c' : Context),
      c' = { c with
        env := c'.env
        funcIndexMapping := c.funcIndexMapping ++ [entity]
        numFuncImports := c.numFuncImports + 1 } →
      Maps { s with funcs := { s.funcs with imports := s.funcs.imports ++ [entity] } } c' := by
    intro entity c' hc'
    rw [hc']
    refine { h with funcs := ?_, numFuncImports := ?_ }
    · have hfuncs := h.funcs
      rw [hown, List.append_nil] at hfuncs ⊢
      exact congrArg (· ++ [entity]) hfuncs
    · rw [List.length_append, ← h.numFuncImports]
      rfl
  unfold onImportFunc
  simp only [getImport, translateSigIndexToEnv, wp_bind, wp_get, wp_orAbort, wp_assert,
    implies_true, and_true]
  intro import_ himport _ sigEntity hsig
  have hentity := (h.sig_entity? sigIndex).trans hsig
  cases hs : c.importSource with
  | host moduleIndex =>
    have himported := hsource.importedEntity hs .func
    simp only [getHostDelegate, wp_bind, wp_get, wp_orAbort, implies_true, and_true]
    intro m _
    cases m with
    | defined m => trivial
    | host m =>
      simp only [getSignatureByEnvIndex, wp_bind, wp_get, wp_orAbort, wp_pure, implies_true,
        and_true]
      intro sig hsig'
      cases m.importDelegate.importFunc import_ sig with
      | none => trivial
      | some callback =>
        refine ⟨_, by rw [IndexSpaces.step, himported]; rfl, hmaps _ _ rfl, sigEntity, _, _, sig, sig,
          hentity, himported, rfl, List.getElem?_concat_length, hsig', hsig', .inl rfl⟩
  | module entity =>
    simp only [checkImportKind, getFuncByEnvIndex, getSignatureByEnvIndex, wp_bind, wp_get,
      wp_orAbort, wp_ensure, implies_true, and_true, decide_eq_true_iff]
    intro hkind func hfunc importSig hsig' sig hfuncSig hequal
    have himported := hsource.importedEntity_module hs himport
    rw [hkind] at himported
    refine ⟨_, by rw [IndexSpaces.step, himported]; rfl, hmaps _ _ rfl, sigEntity, entity, func,
      importSig, sig, hentity, himported, rfl, hfunc, hsig', hfuncSig, ?_⟩
    exact (Bool.or_eq_true_iff.mp hequal).imp (fun heq => (of_decide_eq_true heq).symm) id

theorem reads_onImportGlobal (h : Maps s c) (hown : s.globals.own = []) {index : Nat}
    (type : ValueType) (mutable_ : Bool) (hsource : SourceIs s.importNames index c) :
    wp (onImportGlobal index type mutable_) (fun _ => Reads s c (.onImportGlobal index type mutable_))
      (fun _ => True) True c := by
  have hmaps : ∀ (entity : Nat) (c' : Context),
      c' = { c with
        env := c'.env
        globalIndexMapping := c.globalIndexMapping ++ [entity]
        numGlobalImports := c.numGlobalImports + 1 } →
      Maps { s with globals := { s.globals with imports := s.globals.imports ++ [entity] } } c' := by
    intro entity c' hc'
    rw [hc']
    refine { h with globals := ?_, numGlobalImports := ?_ }
    · have hglobals := h.globals
      rw [hown, List.append_nil] at hglobals ⊢
      exact congrArg (· ++ [entity]) hglobals
    · rw [List.length_append, ← h.numGlobalImports]
      rfl
  unfold onImportGlobal
  simp only [getImport, wp_bind, wp_get, wp_orAbort, implies_true, and_true]
  intro import_ himport
  cases hs : c.importSource with
  | host moduleIndex =>
    have himported := hsource.importedEntity hs .global
    simp only [getHostDelegate, wp_bind, wp_get, wp_orAbort, implies_true, and_true]
    intro m _
    cases m with
    | defined m => trivial
    | host m =>
      simp only [wp_pure]
      cases m.importDelegate.importGlobal import_ ⟨⟨type, 0⟩, mutable_⟩ with
      | none => trivial
      | some global =>
        exact ⟨_, by rw [IndexSpaces.step, himported]; rfl, hmaps _ _ rfl, _, himported, rfl⟩
  | module entity =>
    simp only [checkImportKind, wp_bind, wp_ensure, implies_true, and_true, decide_eq_true_iff]
    intro hkind
    have himported := hsource.importedEntity_module hs himport
    rw [hkind] at himported
    exact ⟨_, by rw [IndexSpaces.step, himported]; rfl, hmaps _ _ rfl, entity, himported, rfl⟩

theorem reads_onFunctionSignaturesCount (h : Maps s c) (hown : s.funcs.own = []) (count : Nat) :
    wp (onFunctionSignaturesCount count) (fun _ => Reads s c (.onFunctionSignaturesCount count))
      (fun _ => True) True c := by
  have hfuncs := h.funcs
  rw [hown, List.append_nil] at hfuncs
  exact ⟨_, rfl, { h with funcs := congrArg (· ++ newEntities _ count) hfuncs }, trivial⟩

theorem reads_onGlobalCount (h : Maps s c) (hown : s.globals.own = []) (count : Nat) :
    wp (onGlobalCount count) (fun _ => Reads s c (.onGlobalCount count)) (fun _ => True) True c := by
  have hglobals := h.globals
  rw [hown, List.append_nil] at hglobals
  exact ⟨_, rfl, { h with globals := congrArg (· ++ newEntities _ count) hglobals }, trivial⟩

/-! ## Own entities and single indexes -/

theorem reads_onSignature (h : Maps s c) (index : Nat) (paramTypes resultTypes : List ValueType) :
    wp (onSignature index paramTypes resultTypes)
      (fun _ => Reads s c (.onSignature index paramTypes resultTypes)) (fun _ => True) True c := by
  simp only [onSignature, translateSigIndexToEnv, getSignatureByEnvIndex, modifyEnv, wp_bind,
    wp_get, wp_orAbort, wp_modify, implies_true, and_true]
  exact fun entity hentity _ _ =>
    ⟨s, rfl, { h with }, entity, (h.sig_entity? index).trans hentity, rfl⟩

theorem reads_onFunctionSignature (h : Maps s c) (index sigIndex : Nat) :
    wp (onFunctionSignature index sigIndex)
      (fun _ => Reads s c (.onFunctionSignature index sigIndex)) (fun _ => True) True c := by
  simp only [onFunctionSignature, translateDefinedFuncIndexToEnv, translateFuncIndexToEnv,
    translateSigIndexToEnv, wp_bind, wp_get, wp_orAbort, implies_true, and_true]
  intro entity hentity
  refine wp_getDefinedFunc fun func _ => ?_
  exact fun sigEntity hsig => ⟨s, rfl, { h with }, entity, sigEntity, _,
    (h.func_own index).trans hentity, (h.sig_entity? sigIndex).trans hsig, rfl, rfl⟩

theorem reads_beginGlobal (h : Maps s c) (index : Nat) (type : ValueType) (mutable_ : Bool) :
    wp (beginGlobal index type mutable_) (fun _ => Reads s c (.beginGlobal index type mutable_))
      (fun _ => True) True c := by
  simp only [beginGlobal, translateDefinedGlobalIndexToEnv, translateGlobalIndexToEnv,
    getGlobalByEnvIndex, setGlobal, modifyEnv, wp_bind, wp_get, wp_orAbort, wp_modify,
    implies_true, and_true]
  exact fun entity hentity global hglobal => ⟨s, rfl, { h with }, entity, global,
    (h.global_own index).trans hentity, hglobal, rfl⟩

theorem reads_endGlobalInitExpr (h : Maps s c) (index : Nat) :
    wp (endGlobalInitExpr index) (fun _ => Reads s c (.endGlobalInitExpr index)) (fun _ => True)
      True c := by
  simp only [endGlobalInitExpr, translateDefinedGlobalIndexToEnv, translateGlobalIndexToEnv,
    getGlobalByEnvIndex, setGlobal, modifyEnv, wp_bind, wp_get, wp_orAbort, wp_modify,
    implies_true, and_true]
  exact fun entity hentity global hglobal => ⟨s, rfl, { h with }, entity, global,
    (h.global_own index).trans hentity, hglobal, rfl⟩

theorem reads_onInitExpr (h : Maps s c) (index : Nat) (expr : InitExpr) :
    wp (onInitExpr expr) (fun _ => Reads s c (.onInitExpr index expr)) (fun _ => True) True c := by
  cases expr with
  | getGlobal globalIndex =>
    simp only [onInitExpr, getGlobalByModuleIndex, translateGlobalIndexToEnv, getGlobalByEnvIndex,
      wp_bind, wp_get, wp_orAbort, wp_modify, implies_true, and_true]
    exact fun entity hentity global hglobal => ⟨s, rfl, { h with }, entity, global,
      (h.global_entity? globalIndex).trans hentity, hglobal, rfl⟩
  | _ => exact ⟨s, rfl, { h with }, trivial⟩

theorem reads_onStartFunction (h : Maps s c) (index : Nat) :
    wp (onStartFunction index) (fun _ => Reads s c (.onStartFunction index)) (fun _ => True)
      True c := by
  simp only [onStartFunction, translateFuncIndexToEnv, modifyModule, wp_bind, wp_get, wp_orAbort,
    wp_modify, implies_true, and_true]
  exact fun entity hentity =>
    ⟨s, rfl, { h with }, entity, (h.func_entity? index).trans hentity, rfl⟩

theorem reads_onExport (h : Maps s c) (index : Nat) (kind : ExternalKind) (itemIndex : Nat)
    (name : List UInt8) :
    wp (onExport kind itemIndex name) (fun _ => Reads s c (.onExport index kind itemIndex name))
      (fun _ => True) True c := by
  cases kind with
  | func =>
    simp only [onExport, translateFuncIndexToEnv, modifyModule, wp_bind, wp_get, wp_orAbort,
      wp_modify, implies_true, and_true]
    exact fun entity hentity =>
      ⟨s, rfl, { h with }, entity, (h.func_entity? itemIndex).trans hentity, rfl⟩
  | global =>
    simp only [onExport, translateGlobalIndexToEnv, modifyModule, wp_bind, wp_get, wp_orAbort,
      wp_modify, implies_true, and_true]
    exact fun entity hentity =>
      ⟨s, rfl, { h with }, entity, (h.global_entity? itemIndex).trans hentity, rfl⟩
  | table | memory => exact ⟨s, rfl, { h with }, trivial⟩

theorem reads_onElemSegmentFunctionIndex (h : Maps s c) (index funcIndex : Nat) :
    wp (onElemSegmentFunctionIndex funcIndex)
      (fun _ => Reads s c (.onElemSegmentFunctionIndex index funcIndex)) (fun _ => True) True c := by
  simp only [onElemSegmentFunctionIndex, translateFuncIndexToEnv, wp_bind, wp_get, wp_assert,
    wp_orAbort, wp_ensure, wp_modify, implies_true, and_true]
  exact fun _ table htable _ entity hentity => ⟨s, rfl, { h with }, entity, table,
    (h.func_entity? funcIndex).trans hentity, htable, rfl⟩

/-! ## Function bodies -/

theorem patchAll_run (value : Nat) : ∀ (fixups : List Nat) (c : Context),
    forEach (fun fixup => emitI32At fixup value) fixups c =
      .ok () { c with env := { c.env with istream := patchAll fixups value c.env.istream } }
  | [], _ => rfl
  | fixup :: fixups, c => patchAll_run value fixups (c.patch fixup value)

theorem reads_beginFunctionBody (h : Maps s c) (index : Nat) :
    wp (beginFunctionBody index) (fun _ => Reads s c (.beginFunctionBody index)) (fun _ => True)
      True c := by
  simp only [beginFunctionBody, translateDefinedFuncIndexToEnv, translateFuncIndexToEnv,
    getSignatureByEnvIndex, getIstreamOffset, wp_bind, wp_get, wp_orAbort, wp_modify, wp_pure,
    implies_true, and_true]
  intro entity hentity
  refine wp_getDefinedFunc fun func _ => ?_
  intro sig _ fixups hfixups
  rw [wp, patchAll_run]
  exact ⟨s, rfl, { h with }, entity, fixups, _, (h.func_own index).trans hentity, hfixups, rfl, rfl,
    rfl, rfl⟩

instance : TypeFree (fun c' => ∃ typeStack, c' = { c with typeStack }) :=
  ⟨fun _ typeStack h => ⟨typeStack, by obtain ⟨_, rfl⟩ := h; rfl⟩⟩

/-- What only moves the type stack is passed by. -/
theorem wp_types {α : Type} {m : Load α} {Q : α → Context → Prop}
    [hm : Preserves (fun c' => ∃ typeStack, c' = { c with typeStack }) m]
    (hQ : ∀ a typeStack, Q a { c with typeStack }) : wp m Q (fun _ => True) True c := by
  refine (hm.wp c ⟨c.typeStack, rfl⟩).mono (fun a c' hc' => ?_) (fun _ _ => trivial) id
  obtain ⟨typeStack, rfl⟩ := hc'
  exact hQ a typeStack

theorem wp_emitOpcode {opcode : WasmOpcode} {Q : Unit → Context → Prop} {E : Context → Prop}
    {A : Prop} : wp (emitOpcode opcode) Q E A c ↔ Q () (c.emit (Buffer.leBytes 1 opcode.code)) :=
  Iff.rfl

theorem wp_emitInterpreterOpcode {opcode : InterpreterOpcode} {Q : Unit → Context → Prop}
    {E : Context → Prop} {A : Prop} :
    wp (emitInterpreterOpcode opcode) Q E A c ↔ Q () (c.emit (Buffer.leBytes 1 opcode.code)) :=
  Iff.rfl

theorem wp_emitI32 {value : Nat} {Q : Unit → Context → Prop} {E : Context → Prop} {A : Prop} :
    wp (emitI32 value) Q E A c ↔ Q () (c.emit (Buffer.leBytes 4 value)) := Iff.rfl

theorem translates_call (h : Maps s c) (index : Nat) :
    wp (onCallExpr index) (fun _ c' => Translates s c c' (.onExpr (.call index))) (fun _ => True)
      True c := by
  simp only [onCallExpr, translateFuncIndexToEnv, getFuncByEnvIndex, getSignatureByEnvIndex,
    wp_get, wp_bind, wp_orAbort, implies_true, and_true]
  intro entity hentity func hfunc sig _
  refine wp_types fun _ _ => wp_types fun _ typeStack => ?_
  have hentity' := (h.func_entity? index).trans hentity
  cases func with
  | host func =>
    simp only [emitCall, wp_bind, wp_emitInterpreterOpcode, wp_emitI32]
    refine wp_types fun _ _ => ⟨entity, _, hentity', hfunc, rfl, fun defined hdefined => ?_⟩
    cases hdefined
  | defined func =>
    simp only [emitCall, emitFuncOffset, translateModuleFuncIndexToDefined, wp_bind, wp_emitOpcode,
      wp_when, wp_get, wp_assert, wp_pure, wp_modify, wp_emitI32, implies_true, and_true,
      decide_eq_true_iff, decide_eq_false_iff_not]
    refine ⟨fun hoffset hle => ?_, fun hoffset => ?_⟩
    · have hle : c.numFuncImports ≤ index := hle
      refine wp_types fun _ _ => ⟨entity, _, hentity', hfunc, rfl, fun defined hdefined _ => ?_⟩
      cases hdefined
      refine ⟨index - c.numFuncImports, ?_, rfl⟩
      rw [h.func_own, Nat.sub_add_cancel hle]
      exact hentity
    · refine wp_types fun _ _ => ⟨entity, _, hentity', hfunc, rfl, fun defined hdefined hnone => ?_⟩
      cases hdefined
      exact absurd hnone hoffset

theorem translates_callIndirect (h : Maps s c) (sigIndex : Nat) :
    wp (onCallIndirectExpr sigIndex)
      (fun _ c' => Translates s c c' (.onExpr (.callIndirect sigIndex))) (fun _ => True) True c := by
  simp only [onCallIndirectExpr, translateSigIndexToEnv, getSignatureByEnvIndex, wp_get, wp_bind,
    wp_orAbort, implies_true, and_true]
  intro entity hentity sig _
  refine wp_types fun _ _ => wp_types fun _ _ => wp_types fun _ _ => ?_
  simp only [wp_emitOpcode, wp_emitI32]
  exact wp_types fun _ _ => ⟨entity, (h.sig_entity? sigIndex).trans hentity, rfl⟩

theorem translates_getGlobal (h : Maps s c) (index : Nat) :
    wp (onGetGlobalExpr index) (fun _ c' => Translates s c c' (.onExpr (.getGlobal index)))
      (fun _ => True) True c := by
  simp only [onGetGlobalExpr, getGlobalByModuleIndex, translateGlobalIndexToEnv, getGlobalByEnvIndex,
    checkGlobal, wp_get, wp_bind, wp_ensure, wp_orAbort, wp_emitOpcode, wp_emitI32, implies_true,
    and_true]
  intro _ entity hentity global _ entity' hentity'
  cases hentity.symm.trans hentity'
  exact wp_types fun _ _ => ⟨entity, (h.global_entity? index).trans hentity, rfl⟩

theorem translates_setGlobal (h : Maps s c) (index : Nat) :
    wp (onSetGlobalExpr index) (fun _ c' => Translates s c c' (.onExpr (.setGlobal index)))
      (fun _ => True) True c := by
  simp only [onSetGlobalExpr, getGlobalByModuleIndex, translateGlobalIndexToEnv, getGlobalByEnvIndex,
    checkGlobal, wp_get, wp_bind, wp_ensure, wp_orAbort, implies_true, and_true]
  intro _ entity hentity global _ _
  refine wp_types fun _ _ => ?_
  simp only [wp_emitOpcode, wp_emitI32]
  intro entity' hentity'
  cases hentity.symm.trans hentity'
  exact ⟨entity, (h.global_entity? index).trans hentity, rfl⟩

/-! ## Every callback -/

/-- An import is preceded by the callback that names it. -/
theorem Designated.import_source (h : Designated env₀ s p c)
    (hstep : Proto.step data p (o, e) = some p') :
    (∀ index sigIndex, e = .onImportFunc index sigIndex → SourceIs s.importNames index c) ∧
      ∀ index type mutable_, e = .onImportGlobal index type mutable_ →
        SourceIs s.importNames index c := by
  constructor
  · rintro index sigIndex rfl
    simp only [Proto.step] at hstep
    split at hstep
    · obtain ⟨p₁, hp₁, -⟩ := Option.map_eq_some_iff.mp hstep
      obtain ⟨n, hphase⟩ := importDone_phase (Option.isSome_of_eq_some hp₁)
      exact h.source n index hphase
    · cases hstep
  · rintro index type mutable_ rfl
    simp only [Proto.step] at hstep
    obtain ⟨p₁, hp₁, -⟩ := Option.map_eq_some_iff.mp hstep
    obtain ⟨n, hphase⟩ := importDone_phase (Option.isSome_of_eq_some hp₁)
    exact h.source n index hphase

/-- A callback without an index that leaves the mappings alone. -/
theorem Reads.of_preserves {m : Load Unit} [hm : Preserves (Maps s) m] (h : Maps s c)
    (hrun : m c = .ok () c') (hstep : s.step (c, e) = some s) (htranslates : Translates s c c' e) :
    Reads s c e c' :=
  ⟨s, hstep, (hm.wp c h).of_ok hrun, htranslates⟩

theorem reads_interpreterReader (h : Designated env₀ s p c)
    (hstep : Proto.step data p (o, e) = some p') (hrun : interpreterReader e c = .ok () c') :
    Reads s c e c' := by
  obtain ⟨-, himportFunc, himportGlobal, hfunc, hglobal⟩ := h.ordered.zero_of_count hstep
  obtain ⟨hsourceFunc, hsourceGlobal⟩ := h.import_source hstep
  have hmaps := h.maps
  cases e with
  | onSignatureCount count =>
    cases hrun
    exact ⟨_, rfl, { hmaps with sigs := rfl }, trivial⟩
  | onFunctionSignaturesCount count =>
    exact (reads_onFunctionSignaturesCount hmaps (h.funcs_own (hfunc _ rfl)) count).of_ok hrun
  | onGlobalCount count =>
    exact (reads_onGlobalCount hmaps (h.globals_own (hglobal _ rfl)) count).of_ok hrun
  | onImportFunc index sigIndex =>
    exact (reads_onImportFunc hmaps (h.funcs_own (himportFunc _ _ rfl)) sigIndex
      (hsourceFunc _ _ rfl)).of_ok hrun
  | onImportGlobal index type mutable_ =>
    exact (reads_onImportGlobal hmaps (h.globals_own (himportGlobal _ _ _ rfl)) type mutable_
      (hsourceGlobal _ _ _ rfl)).of_ok hrun
  | onSignature index paramTypes resultTypes =>
    exact (reads_onSignature hmaps index paramTypes resultTypes).of_ok hrun
  | onFunctionSignature index sigIndex =>
    exact (reads_onFunctionSignature hmaps index sigIndex).of_ok hrun
  | beginGlobal index type mutable_ => exact (reads_beginGlobal hmaps index type mutable_).of_ok hrun
  | endGlobalInitExpr index => exact (reads_endGlobalInitExpr hmaps index).of_ok hrun
  | onInitExpr index expr => exact (reads_onInitExpr hmaps index expr).of_ok hrun
  | onExport index kind itemIndex name =>
    exact (reads_onExport hmaps index kind itemIndex name).of_ok hrun
  | onStartFunction index => exact (reads_onStartFunction hmaps index).of_ok hrun
  | onElemSegmentFunctionIndex index funcIndex =>
    exact (reads_onElemSegmentFunctionIndex hmaps index funcIndex).of_ok hrun
  | beginFunctionBody index => exact (reads_beginFunctionBody hmaps index).of_ok hrun
  | onExpr instr =>
    refine Reads.of_preserves (m := onExpr instr) hmaps hrun rfl ?_
    cases instr with
    | call index => exact (translates_call hmaps index).of_ok hrun
    | callIndirect sigIndex => exact (translates_callIndirect hmaps sigIndex).of_ok hrun
    | getGlobal index => exact (translates_getGlobal hmaps index).of_ok hrun
    | setGlobal index => exact (translates_setGlobal hmaps index).of_ok hrun
    | _ => trivial
  | onImport index moduleName fieldName =>
    have hkept := (Preserves.wp (J := Maps s) (m := onImport index moduleName fieldName) c
      hmaps).of_ok hrun
    exact ⟨_, rfl, { hkept with }, trivial⟩
  | onImportTable index limits =>
    exact .of_preserves (m := onImportTable index limits) hmaps hrun rfl trivial
  | onImportMemory index limits =>
    exact .of_preserves (m := onImportMemory index limits) hmaps hrun rfl trivial
  | onLocalDeclCount count => exact .of_preserves (m := onLocalDeclCount count) hmaps hrun rfl trivial
  | onLocalDecl declIndex count type =>
    exact .of_preserves (m := onLocalDecl declIndex count type) hmaps hrun rfl trivial
  | endFunctionBody _ => exact .of_preserves (m := endFunctionBody) hmaps hrun rfl trivial
  | onImportCount count => exact .of_preserves (m := onImportCount count) hmaps hrun rfl trivial
  | onTable _ limits => exact .of_preserves (m := onTable limits) hmaps hrun rfl trivial
  | onMemory _ limits => exact .of_preserves (m := onMemory limits) hmaps hrun rfl trivial
  | endElemSegmentInitExpr _ => exact .of_preserves (m := endElemSegmentInitExpr) hmaps hrun rfl trivial
  | onDataSegmentData _ data => exact .of_preserves (m := onDataSegmentData data) hmaps hrun rfl trivial
  | _ =>
    cases hrun
    exact ⟨s, rfl, hmaps, trivial⟩

/-- The step of the invariant. -/
theorem Designated.step (h : Designated env₀ s p c) (hstep : Proto.step data p (o, e) = some p')
    (hrun : interpreterReader e c = .ok () c') :
    ∃ s', s.step (c, e) = some s' ∧ Designated env₀ s' p' c' := by
  obtain ⟨s', hread, hmaps, -⟩ := reads_interpreterReader h hstep hrun
  refine ⟨s', hread, h.ordered.step hstep, (spaces_step h.ordered h.spaces hstep).of_ok hrun, hmaps,
    fun n index hphase => ?_⟩
  obtain ⟨moduleName, fieldName, rfl⟩ := step_importKind hstep hphase
  cases hread
  exact (sourceIs_onImport index moduleName fieldName).of_ok hrun

theorem IndexSpaces.read_concat {h : List (Context × Event)} (hread : IndexSpaces.read h = some s)
    (hstep : s.step (c, e) = some s') : IndexSpaces.read (h ++ [(c, e)]) = some s' := by
  rw [IndexSpaces.read, List.foldlM_append]
  change (IndexSpaces.read h).bind _ = _
  rw [hread, Option.bind_some, List.foldlM_cons, hstep]
  rfl

/-- In a load that is accepted every index stands for the entity that the index spaces of what has
been read say. -/
theorem wasmReadBinaryInterpreter_translates {options : ReadBinaryOptions} {env env' : Environment}
    (haccepted : wasmReadBinaryInterpreter options data env = .ok () env') {es es' : List Event}
    (hevents : BinaryReader.events { data, options } = es ++ e :: es') :
    ∃ s c c', IndexSpaces.read (history interpreterReader es (initialContext env)) = some s ∧
      runEvents interpreterReader es (initialContext env) = .ok () c ∧
      interpreterReader e c = .ok () c' ∧ Translates s c c' e := by
  rw [wasmReadBinaryInterpreter] at haccepted
  rcases hread : wasmReadBinary interpreterReader options data (initialContext env) with
    ⟨u, c⟩ | c | _
  · obtain ⟨p, p', o, c₁, c₂, ⟨s, hspaces, hdesignated⟩, hstep, hrun, he⟩ :=
      BinaryReader.wasmReadBinary_history
        (J := fun h p c => ∃ s, IndexSpaces.read h = some s ∧ Designated env s p c)
        (fun h p p' o e c c' ⟨s, hspaces, hdesignated⟩ hstep he => by
          obtain ⟨s', hread, hdesignated'⟩ := hdesignated.step hstep he
          exact ⟨s', IndexSpaces.read_concat hspaces hread, hdesignated'⟩)
        ⟨{}, rfl, designated_initial env⟩ hread hevents
    obtain ⟨-, -, -, htranslates⟩ := reads_interpreterReader hdesignated hstep he
    exact ⟨s, c₁, c₂, hspaces, hrun, he, htranslates⟩
  · rw [hread] at haccepted
    cases haccepted
  · rw [hread] at haccepted
    cases haccepted

/-- It imports the function of `m`, and exports its own. -/
def ownExport : List UInt8 :=
  [0x00, 0x61, 0x73, 0x6d, 0x0d, 0x00, 0x00, 0x00,
    0x01, 0x04, 0x01, 0x60, 0x00, 0x00,
    0x02, 0x07, 0x01, 0x01, 0x6d, 0x01, 0x66, 0x00, 0x00,
    0x03, 0x02, 0x01, 0x00,
    0x07, 0x05, 0x01, 0x01, 0x67, 0x00, 0x01,
    0x0a, 0x04, 0x01, 0x02, 0x00, 0x0b]

theorem wasmReadBinaryInterpreter_translates_ownExport :
    ∃ es s c c', IndexSpaces.read (history interpreterReader es (initialContext sharedTable)) = some s ∧
      runEvents interpreterReader es (initialContext sharedTable) = .ok () c ∧
      Translates s c c' (.onExport 0 .func 1 [0x67]) := by
  have haccepted : (wasmReadBinaryInterpreter { readDebugNames := false } ownExport
      sharedTable).ok?.isSome := by
    decide +kernel
  obtain ⟨⟨_, env'⟩, henv'⟩ := Option.isSome_iff_exists.mp haccepted
  have hevent : Event.onExport 0 .func 1 [0x67] ∈
      BinaryReader.events { data := ownExport, options := { readDebugNames := false } } := by
    decide +kernel
  obtain ⟨es, es', hevents⟩ := List.append_of_mem hevent
  obtain ⟨s, c, c', hspaces, hrun, -, htranslates⟩ :=
    wasmReadBinaryInterpreter_translates (Outcome.ok?_eq_some.mp henv') hevents
  exact ⟨es, s, c, c', hspaces, hrun, htranslates⟩

end Interpreter

end SexprWasm
