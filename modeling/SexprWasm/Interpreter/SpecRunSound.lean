import SexprWasm.BinaryReader.ProtocolSound
import SexprWasm.Interpreter.Frames
import SexprWasm.Interpreter.SpecRun

/-!
# The names of a spec run

A load adds one module without a name and touches no name that is there
(`load_names`). With that, every command keeps the tables in agreement
with `Names`, as long as no name gets a second meaning: the tables never
drop a binding, and which of two bindings of a name is found is up to
the chains of the table.
-/

namespace SexprWasm

namespace Interpreter

open Callback BinaryReader

/-! ## Loading touches no names -/

def Environment.moduleNames (env : Environment) : List Name := env.modules.map fun m => m.header.name

/-- In the middle of a load from `env`. -/
structure SameNames (env : Environment) (c : Context) : Prop where
  moduleBindings : c.env.moduleBindings = env.moduleBindings
  registeredModuleBindings : c.env.registeredModuleBindings = env.registeredModuleBindings
  moduleNames : c.env.moduleNames = env.moduleNames
  name : c.module.name = []

variable {env env' : Environment}

instance : TypeFree (SameNames env) := ⟨fun _ _ h => { h with }⟩
instance : LabelFree (SameNames env) := ⟨fun _ _ h => { h with }⟩
instance : CodeFree (SameNames env) := ⟨fun _ _ _ _ _ h => { h with }⟩
instance : StoreFree (SameNames env) := ⟨fun _ _ _ h => { h with }⟩
instance : SpaceFree (SameNames env) := ⟨fun _ _ _ _ _ _ _ _ _ _ h => { h with }⟩

instance : ModuleFree (SameNames env) :=
  ⟨fun _ _ _ _ _ hname h => { h with name := hname.trans h.name }⟩

theorem header_modifyHeader (f : ModuleHeader → ModuleHeader) (m : Module) :
    (m.modifyHeader f).header = f m.header := by
  cases m <;> rfl

theorem moduleNames_modify (modules : List Module) (i : Nat) {f : ModuleHeader → ModuleHeader}
    (hf : ∀ m, (f m).name = m.name) :
    (modules.modify i (Module.modifyHeader f)).map (fun m => m.header.name) =
      modules.map fun m => m.header.name := by
  refine List.ext_getElem? fun j => ?_
  rw [List.getElem?_map, List.getElem?_map, List.getElem?_modify]
  cases modules[j]? with
  | none => rfl
  | some m =>
    by_cases hij : i = j
    · simp [hij, header_modifyHeader, hf]
    · simp [hij]

instance : ExportFree (SameNames env) where
  appendExport c moduleIndex kind itemIndex name h :=
    have hsame := moduleNames_modify c.env.modules moduleIndex
      (f := fun m => m.appendExport kind itemIndex name) fun _ => rfl
    { h with moduleNames := hsame.trans h.moduleNames }

instance (e : Event) : Preserves (SameNames env) (interpreterReader e) := by
  cases e <;> (simp only [interpreterReader]; infer_instance)

theorem sameNames_initial : SameNames env (initialContext env) := ⟨rfl, rfl, rfl, rfl⟩

theorem load_sameNames (options : ReadBinaryOptions) (data : List UInt8) :
    (∀ c, wasmReadBinary interpreterReader options data (initialContext env) = .ok () c →
      SameNames env c) ∧
    ∀ c, wasmReadBinary interpreterReader options data (initialContext env) = .error c →
      SameNames env c := by
  have hstep : ∀ p p' o e c, SameNames env c → Proto.step data p (o, e) = some p' →
      (∀ c', interpreterReader e c = .ok () c' → True → SameNames env c') ∧
        ∀ c', interpreterReader e c = .error c' → SameNames env c' := by
    intro p p' o e c hc _
    have hwp := (inferInstance : Preserves (SameNames env) (interpreterReader e)).wp c hc
    exact ⟨fun c' hc' _ => hwp.of_ok hc', fun c' hc' => hwp.of_error hc'⟩
  have hinv := BinaryReader.wasmReadBinary_invariant (J := fun _ => SameNames env) hstep
    sameNames_initial (fun _ _ h => h) (allSteps_of_forall (fun _ _ => trivial) (events { data, options }) _)
  constructor
  · intro c h
    obtain ⟨_, _, hc⟩ := hinv.1 c h
    exact hc
  · exact hinv.2

/-- What a load that succeeds does to the names. -/
structure AddsNameless (env env' : Environment) : Prop where
  moduleBindings : env'.moduleBindings = env.moduleBindings
  registeredModuleBindings : env'.registeredModuleBindings = env.registeredModuleBindings
  moduleNames : env'.moduleNames = env.moduleNames ++ [[]]

/-- What a command that fails does to the names. -/
structure KeepsNames (env env' : Environment) : Prop where
  moduleBindings : env'.moduleBindings = env.moduleBindings
  registeredModuleBindings : env'.registeredModuleBindings = env.registeredModuleBindings
  moduleNames : env'.moduleNames = env.moduleNames

theorem load_ok {options : ReadBinaryOptions} {data : List UInt8}
    (h : wasmReadBinaryInterpreter options data env = .ok () env') : AddsNameless env env' := by
  unfold wasmReadBinaryInterpreter at h
  split at h
  · rename_i c hc
    have hsame := (load_sameNames options data).1 c hc
    cases h
    have hlast : (Module.defined { c.module with istreamEnd := c.istreamOffset }).header.name = [] :=
      hsame.name
    have hnames := hsame.moduleNames
    simp only [Environment.moduleNames] at hnames
    exact ⟨hsame.moduleBindings, hsame.registeredModuleBindings,
      by simp [Environment.moduleNames, Context.finish, hnames, hlast]⟩
  · cases h
  · cases h

theorem load_error {options : ReadBinaryOptions} {data : List UInt8}
    (h : wasmReadBinaryInterpreter options data env = .error env') : KeepsNames env env' := by
  unfold wasmReadBinaryInterpreter at h
  split at h
  · cases h
  · rename_i c hc
    have hsame := (load_sameNames options data).2 c hc
    cases h
    refine ⟨hsame.moduleBindings, hsame.registeredModuleBindings, ?_⟩
    have hnames := hsame.moduleNames
    simp only [Environment.moduleNames] at hnames
    have hlen : c.env.modules.length = env.modules.length := by
      simpa using congrArg List.length hnames
    simp [Environment.moduleNames, Context.rollback, Environment.resetToMark, Environment.mark,
      Context.modules, ← hlen, hnames]
  · cases h

/-! ## Tables and the names they hold -/

/-- The table holds these names, each for the module it belongs to. -/
structure Holds (bindings : Text.BindingHash) (names : List (Name × Nat)) : Prop where
  mem : ∀ {n : Name} {i : Int}, (n, i) ∈ bindings.bindings ↔ ∃ k : Nat, i = k ∧ (n, k) ∈ names
  unique : ∀ {n : Name} {i j : Nat}, (n, i) ∈ names → (n, j) ∈ names → i = j

section Holds

variable {bindings : Text.BindingHash} {names : List (Name × Nat)} {n n' : Name} {i k : Nat}

theorem mem_of_lookup : ∀ {names : List (Name × Nat)}, names.lookup n = some k → (n, k) ∈ names
  | [], h => by cases h
  | (n', k') :: names, h => by
      by_cases hn : n = n'
      · subst hn
        simp only [List.lookup_cons_self, Option.some.injEq] at h
        exact h ▸ List.mem_cons_self
      · have hlookup : names.lookup n = some k := by
          simpa [List.lookup_cons, beq_eq_false_iff_ne.mpr hn] using h
        exact List.mem_cons_of_mem _ (mem_of_lookup hlookup)

theorem lookup_eq_none : names.lookup n = none ↔ ∀ k, (n, k) ∉ names := by
  rw [List.lookup_eq_none_iff]
  constructor
  · intro h k hk
    simpa using h _ hk
  · rintro h ⟨n', k⟩ hk
    by_cases hn : n = n'
    · exact absurd (hn ▸ hk) (h k)
    · exact bne_iff_ne.mpr hn

theorem Holds.lookup_eq_some (h : Holds bindings names) :
    names.lookup n = some k ↔ (n, k) ∈ names := by
  refine ⟨mem_of_lookup, fun hk => ?_⟩
  cases hl : names.lookup n with
  | none => exact absurd hk (lookup_eq_none.mp hl k)
  | some k' => rw [h.unique (mem_of_lookup hl) hk]

theorem Holds.find_of_some (h : Holds bindings names) (hk : names.lookup n = some k) :
    bindings.find n = k := by
  have hmem := Text.BindingHash.find_mem (h.mem.mpr ⟨k, rfl, mem_of_lookup hk⟩)
  obtain ⟨k', hfind, hk'⟩ := h.mem.mp hmem
  rw [hfind, h.unique hk' (mem_of_lookup hk)]

theorem Holds.find_of_none (h : Holds bindings names) (hn : names.lookup n = none) :
    bindings.find n = -1 := by
  refine Text.BindingHash.find_eq_neg_one fun i hi => ?_
  obtain ⟨k, _, hk⟩ := h.mem.mp hi
  exact lookup_eq_none.mp hn k hk

theorem Holds.findBindingIndexByName (h : Holds bindings names) :
    findBindingIndexByName bindings n = names.lookup n := by
  unfold Interpreter.findBindingIndexByName
  cases hl : names.lookup n with
  | none => simp [h.find_of_none hl]
  | some k => simp [h.find_of_some hl]

theorem Holds.insert (h : Holds bindings names)
    (hfree : names.lookup n = none ∨ names.lookup n = some k) :
    Holds (bindings.insert n k) ((n, k) :: names) where
  mem {n' i} := by
    rw [Text.BindingHash.mem_bindings_insert, h.mem]
    constructor
    · rintro (⟨rfl, rfl⟩ | ⟨k', hi, hk'⟩)
      · exact ⟨k, rfl, List.mem_cons_self⟩
      · exact ⟨k', hi, List.mem_cons_of_mem _ hk'⟩
    · rintro ⟨k', hi, hk'⟩
      rcases List.mem_cons.mp hk' with heq | hk'
      · cases heq
        exact .inl ⟨rfl, hi⟩
      · exact .inr ⟨k', hi, hk'⟩
  unique {n' i j} hi hj := by
    have hold : ∀ {i}, (n, i) ∈ names → i = k := by
      intro i hi
      rcases hfree with hnone | hsome
      · exact absurd hi (lookup_eq_none.mp hnone i)
      · exact h.unique hi (mem_of_lookup hsome)
    rcases List.mem_cons.mp hi with hi | hi <;> rcases List.mem_cons.mp hj with hj | hj
    · rw [(Prod.mk.inj hi).2, (Prod.mk.inj hj).2]
    · cases hi
      exact (hold hj).symm
    · cases hj
      exact hold hi
    · exact h.unique hi hj

end Holds

/-! ## Runs -/

/-- The tables and the modules agree with what the names mean. -/
structure Named (env : Environment) (names : Names) : Prop where
  size : env.moduleNames.length = names.count
  pos : 0 < names.count
  loaded : Holds env.moduleBindings names.loaded
  registered : Holds env.registeredModuleBindings names.registered
  inRange : ∀ {n k}, (n, k) ∈ names.registered → k < names.count
  called : ∀ {n k}, n ≠ hostName → n ≠ [] → (env.moduleNames[k]? = some n ↔ (n, k) ∈ names.loaded)
  loadedName : ∀ {n k}, (n, k) ∈ names.loaded → n ≠ hostName ∧ n ≠ []

variable {names : Names}

theorem named_initial (importDelegate : HostImportDelegate) :
    Named (initEnvironment importDelegate) .initial where
  size := rfl
  pos := Nat.one_pos
  loaded := ⟨by simp [initEnvironment, Environment.appendHostModule, Names.initial], by
    simp [Names.initial]⟩
  registered :=
    have hempty : Holds {} [] := ⟨by simp, by simp⟩
    hempty.insert (.inl rfl)
  inRange h := by
    cases List.mem_singleton.mp h
    exact Nat.one_pos
  called {n k} hhost _ := by
    cases k with
    | zero => simpa [initEnvironment, Environment.appendHostModule, Environment.moduleNames,
        Names.initial, Module.header] using hhost.symm
    | succ k => simp [initEnvironment, Environment.appendHostModule, Environment.moduleNames,
        Names.initial]
  loadedName h := by cases h

theorem Named.keep (h : Named env names) (hkeep : KeepsNames env env') : Named env' names :=
  { h with
    size := by rw [hkeep.moduleNames, h.size]
    loaded := by rw [hkeep.moduleBindings]; exact h.loaded
    registered := by rw [hkeep.registeredModuleBindings]; exact h.registered
    called := by rw [hkeep.moduleNames]; exact h.called }

theorem Named.addNameless (h : Named env names) (hadd : AddsNameless env env') :
    Named env' { names with count := names.count + 1 } where
  size := by rw [hadd.moduleNames, List.length_append, h.size]; rfl
  pos := Nat.succ_pos _
  loaded := by rw [hadd.moduleBindings]; exact h.loaded
  registered := by rw [hadd.registeredModuleBindings]; exact h.registered
  inRange hk := Nat.lt_succ_of_lt (h.inRange hk)
  called {n k} hhost hn := by
    rw [hadd.moduleNames, ← h.called hhost hn]
    rcases Nat.lt_trichotomy k env.moduleNames.length with hk | rfl | hk
    · rw [List.getElem?_append_left hk]
    · simpa using Ne.symm hn
    · rw [List.getElem?_eq_none (by simp; omega), List.getElem?_eq_none (by omega)]
  loadedName := h.loadedName

theorem moduleNames_nameLastModule (env : Environment) (name : Name) :
    (env.nameLastModule name).moduleNames =
      env.moduleNames.modify (env.modules.length - 1) fun _ => name := by
  refine List.ext_getElem? fun j => ?_
  simp only [Environment.moduleNames, Environment.nameLastModule, List.getElem?_map,
    List.getElem?_modify]
  cases env.modules[j]? with
  | none => rfl
  | some m =>
    by_cases hj : env.modules.length - 1 = j
    · simp [hj, header_modifyHeader]
    · simp [hj]

theorem length_moduleNames : env.moduleNames.length = env.modules.length := List.length_map _

theorem Named.nameLast {name : Name} (h : Named env names)
    (hlast : env.moduleNames[names.count - 1]? = some []) (hfree : names.loaded.lookup name = none)
    (hname : name ≠ []) (hhost : name ≠ hostName) :
    Named (env.nameLastModule name)
      { names with loaded := (name, names.count - 1) :: names.loaded } where
  size := by rw [moduleNames_nameLastModule, List.length_modify, h.size]
  pos := h.pos
  loaded := by
    have hlen : (env.modules.length : Int) - 1 = (names.count - 1 : Nat) := by
      have hsize := h.size
      have hpos := h.pos
      rw [length_moduleNames] at hsize
      omega
    show Holds (env.moduleBindings.insert name _) _
    rw [hlen]
    exact h.loaded.insert (.inl hfree)
  registered := h.registered
  inRange := h.inRange
  called {n k} hnhost hn := by
    have hold := h.called (k := k) hnhost hn
    rw [moduleNames_nameLastModule, List.getElem?_modify, ← length_moduleNames, h.size]
    by_cases hk : names.count - 1 = k
    · subst hk
      have hnot : (n, names.count - 1) ∉ names.loaded := by
        rw [← hold, hlast]
        exact fun heq => hn (Option.some.inj heq).symm
      simp [hlast, hnot, eq_comm]
    · simp [hk, hold, Ne.symm hk]
  loadedName hk := by
    rcases List.mem_cons.mp hk with heq | hk
    · cases heq
      exact ⟨hhost, hname⟩
    · exact h.loadedName hk

theorem keepsNames_setRan (env : Environment) (ran : Ran) : KeepsNames env (env.setRan ran) :=
  ⟨rfl, rfl, rfl⟩

/-- A module whose start function traps is dropped again. -/
theorem AddsNameless.reset (hadd : AddsNameless env env') (ran : Ran) :
    KeepsNames env ((env'.setRan ran).resetToMark env.mark) where
  moduleBindings := hadd.moduleBindings
  registeredModuleBindings := hadd.registeredModuleBindings
  moduleNames := by
    have hnames := hadd.moduleNames
    simp only [Environment.moduleNames] at hnames
    simp [Environment.moduleNames, Environment.resetToMark, Environment.setRan, Environment.mark,
      hnames]

variable {vm : Vm} {options : ReadBinaryOptions} {importDelegate : HostImportDelegate}

theorem KeepsNames.reset_self (h : KeepsNames env env') :
    KeepsNames env (env'.resetToMark env.mark) where
  moduleBindings := h.moduleBindings
  registeredModuleBindings := h.registeredModuleBindings
  moduleNames := by
    have hnames := h.moduleNames
    simp only [Environment.moduleNames] at hnames
    have hlen : env'.modules.length = env.modules.length := by
      simpa using congrArg List.length hnames
    simp [Environment.moduleNames, Environment.resetToMark, Environment.mark, ← hlen, hnames]

theorem onModuleCommand_ok {data : Option (List UInt8)} {name : Name} (h : Named env names)
    (hrun : onModuleCommand vm options data name env = .ok () env')
    (hallows : names.Allows true (.module data name)) :
    Named env' (names.after true (.module data name)) := by
  unfold onModuleCommand at hrun
  split at hrun
  · cases hrun
  · cases hrun
  rename_i envLoaded hload
  have hadd : AddsNameless env envLoaded := by
    cases data with
    | none => cases hload
    | some data => exact load_ok hload
  split at hrun
  · cases hrun
  rename_i m _
  simp only at hrun
  split at hrun
  · cases hrun
    have hnamed := (h.addNameless hadd).keep
      (keepsNames_setRan envLoaded (vm.runStartFunction envLoaded m))
    by_cases hname : name = []
    · simpa only [hname, if_pos, Names.after] using hnamed
    · obtain ⟨hfree, hhost⟩ := hallows rfl hname
      have hlast : envLoaded.moduleNames[names.count]? = some [] := by
        rw [hadd.moduleNames, ← h.size, List.getElem?_concat_length]
      simp only [hname, if_neg, not_false_eq_true, Names.after]
      exact hnamed.nameLast hlast hfree hname hhost
  · cases hrun

theorem onModuleCommand_error {data : Option (List UInt8)} {name : Name}
    (hrun : onModuleCommand vm options data name env = .error env') : KeepsNames env env' := by
  unfold onModuleCommand at hrun
  split at hrun
  · cases hrun
  · rename_i envFailed hload
    cases hrun
    cases data with
    | none =>
      cases hload
      exact KeepsNames.reset_self ⟨rfl, rfl, rfl⟩
    | some data => exact (load_error hload).reset_self
  rename_i envLoaded hload
  have hadd : AddsNameless env envLoaded := by
    cases data with
    | none => cases hload
    | some data => exact load_ok hload
  split at hrun
  · cases hrun
  simp only at hrun
  split at hrun
  · cases hrun
  · cases hrun
    exact hadd.reset _

theorem registerModuleIndex_eq (h : Named env names) {name : Name} (hhost : name ≠ hostName) :
    registerModuleIndex env name = names.target name := by
  have hlen : env.modules.length = names.count := length_moduleNames.symm.trans h.size
  unfold registerModuleIndex Names.target
  by_cases hname : name = []
  · have hpos : env.modules.length ≠ 0 := hlen ▸ Nat.ne_of_gt h.pos
    rw [if_pos hname, if_pos hname, if_neg hpos, hlen]
  rw [if_neg hname, if_neg hname]
  have hcalled : ∀ k, (∃ m, env.modules[k]? = some m ∧ m.header.name = name) ↔
      (name, k) ∈ names.loaded := by
    intro k
    rw [← h.called hhost hname, Environment.moduleNames, List.getElem?_map, Option.map_eq_some_iff]
  cases hl : names.loaded.lookup name with
  | none =>
    rw [List.findIdx?_eq_none_iff]
    intro m hm
    obtain ⟨k, hk⟩ := List.getElem?_of_mem hm
    have hnot : m.header.name ≠ name := fun heq =>
      lookup_eq_none.mp hl k ((hcalled k).mp ⟨m, hk, heq⟩)
    simpa using fun _ => hnot.symm
  | some k =>
    obtain ⟨m, hm, heq⟩ := (hcalled k).mpr (mem_of_lookup hl)
    obtain ⟨hk, hget⟩ := List.getElem?_eq_some_iff.mp hm
    rw [List.findIdx?_eq_some_iff_getElem]
    refine ⟨hk, by simp [hget, heq, hname], fun j hj => ?_⟩
    have hnot : env.modules[j].header.name ≠ name := by
      intro hjname
      have hmem := (hcalled j).mp ⟨_, List.getElem?_eq_getElem _, hjname⟩
      exact Nat.ne_of_lt hj (h.loaded.unique hmem (mem_of_lookup hl))
    simpa using fun _ => hnot.symm

theorem target_lt (h : Named env names) {name : Name} {k : Nat} (hk : names.target name = some k) :
    k < names.count := by
  unfold Names.target at hk
  split at hk
  · have hpos := h.pos
    cases hk
    omega
  · have hmem := mem_of_lookup hk
    obtain ⟨hhost, hname⟩ := h.loadedName hmem
    obtain ⟨hlt, -⟩ := List.getElem?_eq_some_iff.mp ((h.called hhost hname).mpr hmem)
    exact h.size ▸ hlt

/-- When a command begins, no binding is for a module above the mark it may reset to. -/
theorem Named.nothingBoundAbove (h : Named env names) {name : Name} {i : Int}
    (hi : (name, i) ∈ env.moduleBindings.bindings ∨
      (name, i) ∈ env.registeredModuleBindings.bindings) : i < env.mark.modulesSize := by
  have hlen : env.mark.modulesSize = names.count := length_moduleNames.symm.trans h.size
  rw [hlen]
  rcases hi with hi | hi
  · obtain ⟨k, rfl, hk⟩ := h.loaded.mem.mp hi
    obtain ⟨hhost, hname⟩ := h.loadedName hk
    obtain ⟨hlt, -⟩ := List.getElem?_eq_some_iff.mp ((h.called hhost hname).mpr hk)
    exact_mod_cast h.size ▸ hlt
  · obtain ⟨k, rfl, hk⟩ := h.registered.mem.mp hi
    exact_mod_cast h.inRange hk

theorem onRegisterCommand_ok {name as : Name} {u : Unit} (h : Named env names)
    (hrun : onRegisterCommand name as env = .ok u env')
    (hallows : names.Allows true (.register name as)) :
    Named env' (names.after true (.register name as)) := by
  obtain ⟨hhost, hfree⟩ := hallows
  have heq := registerModuleIndex_eq h hhost
  unfold onRegisterCommand at hrun
  simp only [bind_run, get_run, heq] at hrun
  cases ht : names.target name with
  | none =>
    rw [ht] at hrun
    cases hrun
  | some k =>
    rw [ht] at hrun
    cases hrun
    simp only [Names.after, ht]
    exact { h with
      registered := h.registered.insert (hfree k ht)
      inRange := by
        intro n j hj
        rcases List.mem_cons.mp hj with hj | hj
        · cases hj
          exact target_lt h ht
        · exact h.inRange hj }

theorem onRegisterCommand_error {name as : Name} (h : Named env names)
    (hrun : onRegisterCommand name as env = .error env') (hhost : name ≠ hostName) :
    env' = env ∧ names.target name = none := by
  have heq := registerModuleIndex_eq h hhost
  unfold onRegisterCommand at hrun
  simp only [bind_run, get_run, heq] at hrun
  cases ht : names.target name with
  | none =>
    rw [ht] at hrun
    cases hrun
    exact ⟨rfl, rfl⟩
  | some k =>
    rw [ht] at hrun
    cases hrun

instance (ran : Ran) : Preserves (KeepsNames env) (Callback.modify fun env => env.setRan ran) :=
  .modify fun _ h => ⟨h.moduleBindings, h.registeredModuleBindings, h.moduleNames⟩

instance (vm : Vm) (action : Action) : Preserves (KeepsNames env) (runAction vm action) := by
  unfold runAction
  infer_instance

theorem runAction_keepsNames (vm : Vm) (action : Action) :
    (∀ u, runAction vm action env = .ok u env' → KeepsNames env env') ∧
      (runAction vm action env = .error env' → KeepsNames env env') := by
  have hwp := (inferInstance : Preserves (KeepsNames env) (runAction vm action)).wp env
    ⟨rfl, rfl, rfl⟩
  exact ⟨fun _ h => hwp.of_ok h, fun h => hwp.of_error h⟩

/-- Every command that is allowed keeps the names. -/
theorem named_of_reached (h : Reached vm options importDelegate env names) : Named env names := by
  induction h with
  | init => exact named_initial importDelegate
  | @ok env env' names command _ hrun hallows ih =>
    cases command with
    | module data name => exact onModuleCommand_ok ih hrun hallows
    | action a => exact ih.keep ((runAction_keepsNames vm a).1 () hrun)
    | register name as => exact onRegisterCommand_ok ih hrun hallows
  | @error env env' names command _ hrun hallows ih =>
    cases command with
    | module data name => exact ih.keep (onModuleCommand_error hrun)
    | action a => exact ih.keep ((runAction_keepsNames vm a).2 hrun)
    | register name as =>
      obtain ⟨rfl, htarget⟩ := onRegisterCommand_error ih hrun hallows.1
      simpa only [Names.after, htarget] using ih

theorem actionModuleIndex_eq (h : Named env names) {name : Name} :
    actionModuleIndex env name = match names.target name with
      | some k => (k : Int)
      | none => -1 := by
  have hlen : env.modules.length = names.count := length_moduleNames.symm.trans h.size
  unfold actionModuleIndex Names.target
  by_cases hname : name = []
  · have hpos : 0 < names.count := h.pos
    rw [if_pos hname, if_pos hname, hlen]
    show (names.count : Int) - 1 = (names.count - 1 : Nat)
    omega
  · rw [if_neg hname, if_neg hname]
    cases hl : names.loaded.lookup name with
    | none => exact h.loaded.find_of_none hl
    | some k => exact h.loaded.find_of_some hl

theorem Named.resolves (h : Named env names) : Resolves env names where
  size := length_moduleNames.symm.trans h.size
  imports n := h.registered.findBindingIndexByName
  registers m hhost := registerModuleIndex_eq h hhost
  actions m k hk := by
    have hindex : actionModuleIndex env m = k := by rw [actionModuleIndex_eq h, hk]
    refine ⟨hindex, ?_⟩
    unfold actionModule
    rw [hindex, if_neg (by omega), Int.toNat_natCast]
  inRange m k hk := by
    rw [← length_moduleNames, h.size]
    rcases hk with hk | hk
    · exact target_lt h hk
    · exact h.inRange (mem_of_lookup hk)

theorem onImport_unregistered {c : Context} {index : Nat} {moduleName fieldName : Name}
    {import_ : Import} (himport : c.module.imports[index]? = some import_)
    (hnone : findBindingIndexByName c.env.registeredModuleBindings moduleName = none) :
    onImport index moduleName fieldName c = .error c := by
  unfold onImport getImport
  simp [bind_run, himport, hnone]

theorem Named.rejects (h : Named env names) : Rejects vm env names where
  imports c index moduleName fieldName import_ henv himport hnone := by
    refine onImport_unregistered himport ?_
    rw [henv, h.registered.findBindingIndexByName, hnone]
  registers name as hhost hnone := by
    unfold onRegisterCommand
    simp only [bind_run, get_run, registerModuleIndex_eq h hhost, hnone, error_run]
  actions action hnone := by
    have hindex : actionModuleIndex env action.moduleName = -1 := by
      rw [actionModuleIndex_eq h, hnone]
    have hmodule : actionModule env action.moduleName = none := by
      unfold actionModule
      rw [hindex, if_pos (by omega)]
    have hassert : (-1 : Int) < env.modules.length := by omega
    unfold runAction
    simp [bind_run, hindex, hmodule, hassert]

/-- In a run in which no name gets a second meaning, the lookups find what the names mean, and
nothing else. -/
theorem specRun_resolves (h : Reached vm options importDelegate env names) :
    Resolves env names ∧ Rejects vm env names :=
  ⟨(named_of_reached h).resolves, (named_of_reached h).rejects⟩

/-- Runs no code. -/
def idleVm : Vm where
  runStartFunction env _ := ⟨true, env.memories, env.globals⟩
  runAction env _ _ := ⟨true, env.memories, env.globals⟩

/-- Imports nothing. -/
def emptyDelegate : HostImportDelegate where
  importFunc _ _ := none
  importTable _ _ := none
  importMemory _ := none
  importGlobal _ _ := none

def emptyModule : List UInt8 := [0x00, 0x61, 0x73, 0x6d, 0x0d, 0x00, 0x00, 0x00]

/-- Loads a module and registers it as `a`. -/
def loadAndRegister (env : Environment) : Outcome Environment Unit :=
  (do
    Command.run idleVm { readDebugNames := false } (.module (some emptyModule) [])
    Command.run idleVm { readDebugNames := false } (.register [] [0x61])) env

theorem loadAndRegister_reached {u : Unit}
    (before : Reached idleVm { readDebugNames := false } importDelegate env names)
    (hrun : loadAndRegister env = .ok u env')
    (hfree : names.registered.lookup [0x61] = none) :
    Reached idleVm { readDebugNames := false } importDelegate env'
      { names with
        count := names.count + 1, registered := ([0x61], names.count) :: names.registered } := by
  obtain ⟨_, envLoaded, hload, hregister⟩ := bind_eq_ok.mp hrun
  have hloaded := before.ok hload fun _ hname => absurd rfl hname
  exact hloaded.ok hregister ⟨by decide, fun _ _ => .inl hfree⟩

theorem specRun_resolves_loadAndRegister : ∃ env,
    loadAndRegister (initEnvironment emptyDelegate) = .ok () env ∧
      Resolves env ⟨2, [], [([0x61], 1), (hostName, 0)]⟩ ∧
      Rejects idleVm env ⟨2, [], [([0x61], 1), (hostName, 0)]⟩ := by
  have hok : (loadAndRegister (initEnvironment emptyDelegate)).ok?.isSome := by decide +kernel
  obtain ⟨⟨u, env⟩, henv⟩ := Option.isSome_iff_exists.mp hok
  have hrun := Outcome.ok?_eq_some.mp henv
  exact ⟨env, hrun, specRun_resolves (loadAndRegister_reached .init hrun (by decide))⟩

/-- A second module registered as `a` does not take the place of the first. -/
theorem specRun_keepsFirst :
    ¬∀ (env₁ env₂ : Environment), loadAndRegister (initEnvironment emptyDelegate) = .ok () env₁ →
      loadAndRegister env₁ = .ok () env₂ →
      findBindingIndexByName env₂.registeredModuleBindings [0x61] = some 2 := by
  intro h
  have hfound : (do
      let (_, env₁) ← (loadAndRegister (initEnvironment emptyDelegate)).ok?
      let (_, env₂) ← (loadAndRegister env₁).ok?
      findBindingIndexByName env₂.registeredModuleBindings [0x61]) = some 1 := by
    decide +kernel
  obtain ⟨⟨_, env₁⟩, h₁, hrest⟩ := Option.bind_eq_some_iff.mp hfound
  obtain ⟨⟨_, env₂⟩, h₂, hone⟩ := Option.bind_eq_some_iff.mp hrest
  have htwo := h env₁ env₂ (Outcome.ok?_eq_some.mp h₁) (Outcome.ok?_eq_some.mp h₂)
  exact absurd (hone.symm.trans htwo) (by decide)

end Interpreter

end SexprWasm
