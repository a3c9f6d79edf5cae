import SexprWasm.Text.ModuleFieldsSound

/-!
# The indices of function types

A `type` and a signature that is written without one share a vector:
each production of `module_fields` appends to `func_types` in its turn,
so a signature is declared where it is first used. `call_indirect` takes
a variable and declares nothing. The types are in the order in which
they are written as long as no signature is declared before a `type`.
-/

namespace SexprWasm

namespace Text

namespace Linked

open Callback

/-! ## Modules that grow -/

variable {m m' m'' : Module}

namespace Module

/-- The fields by their addresses. -/
def fields (m : Module) : List (Option Field) := m.nodes.map (·.field)

@[simp] theorem length_fields (m : Module) : m.fields.length = m.nodes.length := List.length_map _

theorem field?_eq (m : Module) (p : Nat) : m.field? p = m.fields[p]?.join := by
  rw [field?, fields, List.getElem?_map]
  cases m.nodes[p]? <;> rfl

theorem fields_appendModuleField (m : Module) : m.appendModuleField.fields = m.fields ++ [none] := by
  have hmodify : ∀ last next, (m.nodes.modify last fun node => { node with next }).map (·.field) =
      m.fields := fun last next =>
    map_modify (g := fun node : Node => { node with next }) (fun _ => rfl) m.nodes last
  rw [fields, appendModuleField]
  split
  · dsimp only
    rw [List.map_append, hmodify]
    rfl
  · rw [List.map_append]
    rfl

theorem fields_modifyField (m : Module) (p : Nat) (f : Option Field → Option Field) :
    (m.modifyField p f).fields = m.fields.modify p f := by
  refine List.ext_getElem? fun q => ?_
  rw [fields, modifyField, List.getElem?_map, List.getElem?_modify, List.getElem?_modify, fields,
    List.getElem?_map]
  cases m.nodes[q]? with
  | none => rfl
  | some node =>
    by_cases hq : p = q
    · simp [hq]
    · simp [hq]

theorem fields_appendFieldToList (m : Module) (field : Field) :
    (m.appendFieldToList field).fields = m.fields ++ [some field] := by
  rw [appendFieldToList, setField, fields_modifyField, fields_appendModuleField, ← m.length_fields,
    List.modify_eq_set_getElem?, List.getElem?_concat_length]
  simp

theorem field?_of_fields {field : Field} (h : m'.fields = m.fields ++ [some field]) :
    m'.field? m.nodes.length = some field := by
  rw [field?_eq, h, ← m.length_fields, List.getElem?_concat_length]
  rfl

end Module

/-- `m'` is `m` with fields at the end; those at `types` are function types. -/
structure Grows (m m' : Module) (types : List Nat) : Prop where
  fields : m.fields <+: m'.fields
  funcTypes : m'.funcTypes = m.funcTypes ++ types.map .own
  fresh : ∀ p ∈ types, m.nodes.length ≤ p ∧ p < m'.nodes.length

namespace Grows

theorem length {types : List Nat} (h : Grows m m' types) : m.nodes.length ≤ m'.nodes.length := by
  have hle := h.fields.length_le
  rwa [m.length_fields, m'.length_fields] at hle

theorem field {types : List Nat} (h : Grows m m' types) {p : Nat} (hp : p < m.nodes.length) :
    m'.field? p = m.field? p := by
  obtain ⟨added, hadded⟩ := h.fields
  rw [m'.field?_eq, m.field?_eq, ← hadded, List.getElem?_append_left (by simpa using hp)]

theorem refl (m : Module) : Grows m m [] := ⟨List.prefix_refl _, by simp, by simp⟩

theorem trans {types types' : List Nat} (h : Grows m m' types) (h' : Grows m' m'' types') :
    Grows m m'' (types ++ types') where
  fields := h.fields.trans h'.fields
  funcTypes := by rw [h'.funcTypes, h.funcTypes, List.map_append, List.append_assoc]
  fresh := by
    have hlength := h.length
    have hlength' := h'.length
    intro p hp
    rcases List.mem_append.mp hp with hp | hp
    · have hfresh := h.fresh p hp
      omega
    · have hfresh := h'.fresh p hp
      omega

/-- An operation on the vectors, the tables or the counters. -/
theorem of_nodes (hnodes : m'.nodes = m.nodes) (hfuncTypes : m'.funcTypes = m.funcTypes) :
    Grows m m' [] where
  fields := by
    have hfields : m.fields = m'.fields := by rw [Module.fields, Module.fields, hnodes]
    exact hfields ▸ List.prefix_refl m.fields
  funcTypes := by simp [hfuncTypes]
  fresh := by simp

theorem appendModuleField (m : Module) : Grows m m.appendModuleField [] where
  fields := m.fields_appendModuleField ▸ List.prefix_append _ _
  funcTypes := by simp [Module.appendModuleField]
  fresh := by simp

theorem appendFieldToList (m : Module) (field : Field) :
    Grows m (m.appendFieldToList field) [] where
  fields := m.fields_appendFieldToList field ▸ List.prefix_append _ _
  funcTypes := by simp [Module.appendFieldToList, Module.setField, Module.modifyField,
    Module.appendModuleField]
  fresh := by simp

theorem insertBinding (m : Module) (name : StringSlice) (k : Kind) :
    Grows m (m.insertBinding name k) [] := by
  cases k <;> exact of_nodes rfl rfl

theorem countImport (m : Module) (e : ExternalKind) : Grows m (m.countImport e) [] := by
  cases e <;> exact of_nodes rfl rfl

theorem appendItemToVector (m : Module) (p : Pointer) (k : Kind) (hk : k ≠ .funcType) :
    Grows m (m.appendItemToVector p k) [] := by
  cases k
  case funcType => exact absurd rfl hk
  all_goals exact of_nodes rfl rfl

theorem appendFuncType (m : Module) (funcType : FuncType) :
    Grows m ((m.appendFieldToList (.funcType funcType)).appendItemToVector
      (.own m.nodes.length) .funcType) [m.nodes.length] where
  fields := (appendFieldToList m (.funcType funcType)).fields
  funcTypes := by
    have hold := (appendFieldToList m (.funcType funcType)).funcTypes
    simp only [List.map_nil, List.append_nil] at hold
    rw [Module.appendItemToVector, hold]
    rfl
  fresh := by simp

theorem appendEntity (m : Module) (field : Field) (name : StringSlice) {k : Kind}
    (hk : k ≠ .funcType) : Grows m (m.appendEntity field name k) [] :=
  ((appendFieldToList m field).trans (appendItemToVector _ _ k hk)).trans (insertBinding _ name k)

theorem appendImport (m : Module) (field : Nat) (name : StringSlice) (e : ExternalKind) :
    Grows m (((m.appendItemToVector (.imported field) (.ofExternal e)).insertBinding name
      (.ofExternal e)).countImport e) [] :=
  ((appendItemToVector m _ _ (by cases e <;> decide)).trans (insertBinding ..)).trans
    (countImport ..)

theorem appendInlineExport (m : Module) (e : ExternalKind) (index : Nat) (export_ : Option Name) :
    Grows m (m.appendInlineExport e index export_) [] := by
  cases export_ with
  | none => exact refl m
  | some name => exact appendEntity _ _ _ (by decide)

end Grows

/-- `m'` is `m` with fields at the end; those at `addresses` are the function types `added`. -/
structure Declares (m m' : Module) (addresses : List Nat) (added : List FuncType) : Prop
    extends Grows m m' addresses where
  types : addresses.map (fun a => m'.funcType? (.own a)) = added.map some

theorem Grows.funcType? {addresses : List Nat} (h : Grows m m' addresses) {a : Nat}
    (ha : a < m.nodes.length) : m'.funcType? (.own a) = m.funcType? (.own a) := by
  rw [Module.funcType?, Module.funcType?, h.field ha]

theorem Grows.declares (h : Grows m m' []) : Declares m m' [] [] := ⟨h, rfl⟩

theorem Declares.trans {addresses addresses' : List Nat} {added added' : List FuncType}
    (h : Declares m m' addresses added) (h' : Declares m' m'' addresses' added') :
    Declares m m'' (addresses ++ addresses') (added ++ added') where
  toGrows := h.toGrows.trans h'.toGrows
  types := by
    have hold : addresses.map (fun a => m''.funcType? (.own a)) =
        addresses.map fun a => m'.funcType? (.own a) :=
      List.map_congr_left fun a ha => h'.toGrows.funcType? (h.fresh a ha).2
    rw [List.map_append, hold, h.types, h'.types, List.map_append]

theorem Declares.appendFuncType (m : Module) (funcType : FuncType) :
    Declares m ((m.appendFieldToList (.funcType funcType)).appendItemToVector
      (.own m.nodes.length) .funcType) [m.nodes.length] [funcType] where
  toGrows := .appendFuncType m funcType
  types := by
    have hfield : ((m.appendFieldToList (.funcType funcType)).appendItemToVector
        (.own m.nodes.length) .funcType).field? m.nodes.length = some (.funcType funcType) :=
      Module.field?_of_fields (m.fields_appendFieldToList _)
    simp [Module.funcType?, hfield]

/-- The function types are fields of their own, that hold `types`. -/
structure HasTypes (m : Module) (types : List FuncType) : Prop where
  placed : ∀ p ∈ m.funcTypes, ∃ a < m.nodes.length, p = .own a
  types : m.funcTypes.map m.funcType? = types.map some

namespace HasTypes

variable {types : List FuncType}

theorem length (h : HasTypes m types) : m.funcTypes.length = types.length := by
  have hlength := congrArg List.length h.types
  rwa [List.length_map, List.length_map] at hlength

theorem declares (h : HasTypes m types) {added : List FuncType} {addresses : List Nat}
    (hdeclares : Declares m m' addresses added) : HasTypes m' (types ++ added) where
  placed := by
    intro p hp
    rw [hdeclares.funcTypes] at hp
    rcases List.mem_append.mp hp with hp | hp
    · obtain ⟨a, ha, rfl⟩ := h.placed p hp
      exact ⟨a, Nat.lt_of_lt_of_le ha hdeclares.length, rfl⟩
    · obtain ⟨a, ha, rfl⟩ := List.mem_map.mp hp
      exact ⟨a, (hdeclares.fresh a ha).2, rfl⟩
  types := by
    have hold : m.funcTypes.map m'.funcType? = m.funcTypes.map m.funcType? := by
      refine List.map_congr_left fun p hp => ?_
      obtain ⟨a, ha, rfl⟩ := h.placed p hp
      exact hdeclares.toGrows.funcType? ha
    rw [hdeclares.funcTypes, List.map_append, hold, h.types, List.map_map, List.map_append]
    exact congrArg _ hdeclares.types

theorem grows (h : HasTypes m types) (hgrows : Grows m m' []) : HasTypes m' types := by
  have hsame := h.declares hgrows.declares
  rwa [List.append_nil] at hsame

theorem getFuncTypeIndexBySig (h : HasTypes m types) (sig : FuncSignature) :
    m.getFuncTypeIndexBySig sig = types.findIdx? fun t => t.sig = sig := by
  have hmap : (m.funcTypes.map m.funcType?).findIdx? (fun t => t.map (·.sig) = some sig) =
      (types.map some).findIdx? fun t => t.map (·.sig) = some sig := by rw [h.types]
  rw [List.findIdx?_map, List.findIdx?_map] at hmap
  simpa [Module.getFuncTypeIndexBySig, Function.comp_def] using hmap

end HasTypes

namespace FieldSyntax

/-- The declaration of a function or of a function import. -/
def decl? : FieldSyntax → Option FuncDeclaration
  | .func f _ => some f.decl
  | .import_ _ _ (.func f) => some f.decl
  | _ => none

end FieldSyntax

/-- What is appended to the types for a declaration. -/
def declaresOf (types : List FuncType) (decl : FuncDeclaration) : List FuncType :=
  if decl.typeVar = none ∧ decl.sig ∉ types.map (·.sig) then [{ sig := decl.sig }] else []

/-- What is appended to the types for a field. -/
def FieldSyntax.declares (types : List FuncType) (f : FieldSyntax) : List FuncType :=
  match f with
  | .typeDef funcType => [funcType]
  | f => (f.decl?.map (declaresOf types)).getD []

theorem HasTypes.appendImplicitFuncDeclaration {types : List FuncType} (h : HasTypes m types)
    (decl : FuncDeclaration) :
    ∃ addresses, Declares m (m.appendImplicitFuncDeclaration decl) addresses
      (declaresOf types decl) := by
  rw [Module.appendImplicitFuncDeclaration, h.getFuncTypeIndexBySig, declaresOf]
  cases hvar : decl.typeVar with
  | some var =>
    rw [if_pos (by rfl), if_neg (by simp)]
    exact ⟨[], (Grows.refl m).declares⟩
  | none =>
    rw [if_neg (by simp)]
    cases hfind : types.findIdx? (fun t => decide (t.sig = decl.sig)) with
    | none =>
      have hnone : decl.sig ∉ types.map (·.sig) := by
        simpa [List.findIdx?_eq_none_iff] using hfind
      rw [if_pos ⟨rfl, hnone⟩]
      exact ⟨_, .appendFuncType m { sig := decl.sig }⟩
    | some k =>
      obtain ⟨hlt, hk, _⟩ := List.findIdx?_eq_some_iff_getElem.mp hfind
      have hmem : decl.sig ∈ types.map (·.sig) :=
        List.mem_map.mpr ⟨types[k], List.getElem_mem hlt, of_decide_eq_true hk⟩
      rw [if_neg fun hnot => hnot.2 hmem]
      exact ⟨[], (Grows.refl m).declares⟩

theorem Declares.concat {addresses : List Nat} {added : List FuncType}
    (h : Declares m m' addresses added) (h' : Grows m' m'' []) :
    Declares m m'' addresses added := by
  have htrans := h.trans h'.declares
  rwa [List.append_nil, List.append_nil] at htrans

/-- A production declares the type of its field, or that of a signature that is not there yet. -/
theorem appendField_declares {types : List FuncType} (h : HasTypes m types) {f : FieldSyntax}
    {errors errors' : Nat} (hrun : m.appendField f errors = .ok m' errors') :
    ∃ addresses, Declares m m' addresses (f.declares types) ∧
      ∀ funcType, f = .typeDef funcType → addresses = [m.nodes.length] := by
  have hplain : Grows m m' [] → f.declares types = [] → (∀ funcType, f ≠ .typeDef funcType) →
      ∃ addresses, Declares m m' addresses (f.declares types) ∧
        ∀ funcType, f = .typeDef funcType → addresses = [m.nodes.length] := by
    intro hgrows hnone hf
    rw [hnone]
    exact ⟨[], hgrows.declares, fun funcType heq => absurd heq (hf funcType)⟩
  cases f with
  | typeDef funcType =>
    cases hrun
    refine ⟨[m.nodes.length], ?_, fun _ _ => rfl⟩
    exact (Declares.appendFuncType m funcType).concat (Grows.insertBinding _ _ _)
  | global global export_ =>
    cases hrun
    exact hplain ((Grows.appendEntity _ _ _ (by decide)).trans (.appendInlineExport ..)) rfl
      (by simp)
  | table table export_ elemSegment =>
    have hexport := (Grows.appendEntity m (.table table) table.name (k := .table) (by decide)).trans
      (.appendInlineExport _ .table
        ((m.appendEntity (.table table) table.name .table).tables.length - 1) export_)
    cases elemSegment with
    | none =>
      cases hrun
      exact hplain hexport rfl (by simp)
    | some elemSegment =>
      cases hrun
      exact hplain (hexport.trans (.appendEntity _ _ _ (by decide))) rfl (by simp)
  | memory memory export_ dataSegment =>
    have hexport := (Grows.appendEntity m (.memory memory) memory.name (k := .memory)
      (by decide)).trans (.appendInlineExport _ .memory
        ((m.appendEntity (.memory memory) memory.name .memory).memories.length - 1) export_)
    cases dataSegment with
    | none =>
      cases hrun
      exact hplain hexport rfl (by simp)
    | some dataSegment =>
      cases hrun
      exact hplain (hexport.trans (.appendEntity _ _ _ (by decide))) rfl (by simp)
  | func func export_ =>
    cases hrun
    have hfield := Grows.appendFieldToList m (.func func)
    obtain ⟨addresses, himplicit⟩ := (h.grows hfield).appendImplicitFuncDeclaration func.decl
    refine ⟨addresses, ?_, by simp⟩
    have hdeclares := (hfield.declares.trans himplicit).concat
      ((Grows.appendItemToVector _ (.own m.nodes.length) .func (by decide)).trans
        (.insertBinding _ func.name .func))
    exact hdeclares.concat (.appendInlineExport ..)
  | elem elemSegment =>
    cases hrun
    exact hplain (.appendEntity _ _ _ (by decide)) rfl (by simp)
  | data dataSegment =>
    cases hrun
    exact hplain (.appendEntity _ _ _ (by decide)) rfl (by simp)
  | start start =>
    cases hrun
    exact hplain ((Grows.appendFieldToList m (.start start)).trans (.of_nodes rfl rfl)) rfl
      (by simp)
  | import_ moduleName fieldName kind =>
    obtain ⟨_, _, -, hrun⟩ := bind_eq_ok.mp hrun
    obtain ⟨_, _, -, hrun⟩ := bind_eq_ok.mp hrun
    obtain ⟨_, _, -, hrun⟩ := bind_eq_ok.mp hrun
    obtain ⟨_, _, -, hrun⟩ := bind_eq_ok.mp hrun
    cases hrun
    have hfield := Grows.appendFieldToList m
      (.import_ { moduleName, fieldName, kind := some kind })
    cases kind with
    | func func =>
      obtain ⟨addresses, himplicit⟩ := (h.grows hfield).appendImplicitFuncDeclaration func.decl
      refine ⟨addresses, ?_, by simp⟩
      have hdeclares := (hfield.declares.trans himplicit).concat
        (.appendImport _ m.nodes.length func.name .func)
      exact hdeclares.concat (.appendItemToVector _ _ .import_ (by decide))
    | table table =>
      have himport := hfield.trans (.appendImport _ m.nodes.length table.name .table)
      exact hplain (himport.trans (.appendItemToVector _ _ .import_ (by decide))) rfl (by simp)
    | memory memory =>
      have himport := hfield.trans (.appendImport _ m.nodes.length memory.name .memory)
      exact hplain (himport.trans (.appendItemToVector _ _ .import_ (by decide))) rfl (by simp)
    | global global =>
      have himport := hfield.trans (.appendImport _ m.nodes.length global.name .global)
      exact hplain (himport.trans (.appendItemToVector _ _ .import_ (by decide))) rfl (by simp)
  | export_ export_ =>
    cases hrun
    exact hplain ((Grows.appendModuleField m).trans (.appendEntity _ _ _ (by decide))) rfl (by simp)

/-! ## Runs of the productions -/

/-- The types that fields declare, behind `types`. -/
def typesOf (types : List FuncType) (fields : List FieldSyntax) : List FuncType :=
  fields.foldl (fun types f => types ++ f.declares types) types

/-- The explicit types. -/
def typeDefs (fields : List FieldSyntax) : List FuncType :=
  fields.filterMap fun f =>
    match f with
    | .typeDef funcType => some funcType
    | _ => none

theorem HasTypes.empty : HasTypes {} [] := ⟨by simp, rfl⟩

theorem foldlM_declares : ∀ (fields : List FieldSyntax) {m m' : Module} {types : List FuncType}
    {errors errors' : Nat}, HasTypes m types →
      fields.foldlM Module.appendField m errors = .ok m' errors' →
        ∃ addresses added, Declares m m' addresses added ∧ types ++ added = typesOf types fields
  | [], m, m', types, errors, errors', _, hrun => by
      cases hrun
      exact ⟨[], [], (Grows.refl m).declares, List.append_nil _⟩
  | f :: fields, m, m', types, errors, errors', h, hrun => by
      rw [List.foldlM_cons] at hrun
      obtain ⟨m₁, errors₁, hhead, htail⟩ := bind_eq_ok.mp hrun
      obtain ⟨addresses, hdeclares, _⟩ := appendField_declares h hhead
      obtain ⟨addresses', added', hdeclares', htypes⟩ :=
        foldlM_declares fields (h.declares hdeclares) htail
      exact ⟨_, _, hdeclares.trans hdeclares', by rw [← List.append_assoc, htypes]; rfl⟩

/-- The productions always build a module. -/
theorem appendField_wp (m : Module) (f : FieldSyntax) (errors : Nat) :
    wp (m.appendField f) (fun _ _ => True) (fun _ => False) False errors := by
  cases f <;> simp [Module.appendField, Module.checkImportOrdering, parserError]

theorem foldlM_wp : ∀ (fields : List FieldSyntax) (m : Module) (errors : Nat),
    wp (fields.foldlM Module.appendField m) (fun _ _ => True) (fun _ => False) False errors
  | [], m, errors => trivial
  | f :: fields, m, errors => by
      rw [List.foldlM_cons, wp_bind]
      exact (appendField_wp m f errors).mono (fun m' errors' _ => foldlM_wp fields m' errors')
        (fun _ => id) id

/-! ## The order of the types -/

/-- The signatures that `fields` use without naming a type are those of types before. -/
def Covered (fields : List FieldSyntax) : Prop :=
  ∀ before f after decl, fields = before ++ f :: after → f.decl? = some decl →
    decl.typeVar = none → decl.sig ∈ (typeDefs before).map (·.sig)

theorem Covered.of_append {fields fields' : List FieldSyntax} (h : Covered (fields ++ fields')) :
    Covered fields := fun before f after decl hfields =>
  h before f (after ++ fields') decl (by rw [hfields, List.append_assoc, List.cons_append])

theorem covered_concat {fields : List FieldSyntax} {f : FieldSyntax} :
    Covered (fields ++ [f]) ↔ Covered fields ∧ ∀ decl, f.decl? = some decl →
      decl.typeVar = none → decl.sig ∈ (typeDefs fields).map (·.sig) := by
  constructor
  · exact fun h => ⟨h.of_append, fun decl => h fields f [] decl rfl⟩
  · rintro ⟨h, hlast⟩ before g after decl hfields
    rcases List.eq_nil_or_concat after with rfl | ⟨after, g', rfl⟩
    · obtain ⟨rfl, hg⟩ := List.append_inj' hfields rfl
      cases hg
      exact hlast decl
    · rw [List.concat_eq_append, ← List.cons_append, ← List.append_assoc] at hfields
      obtain ⟨rfl, _⟩ := List.append_inj' hfields rfl
      exact h before g after decl rfl

theorem typesOf_concat (types : List FuncType) (fields : List FieldSyntax) (f : FieldSyntax) :
    typesOf types (fields ++ [f]) = typesOf types fields ++ f.declares (typesOf types fields) := by
  rw [typesOf, List.foldl_append]
  rfl

theorem typeDefs_append (fields fields' : List FieldSyntax) :
    typeDefs (fields ++ fields') = typeDefs fields ++ typeDefs fields' := List.filterMap_append

/-- A field is a type, uses a signature, or has nothing to do with types. -/
theorem FieldSyntax.declares_cases (f : FieldSyntax) :
    (∃ funcType, f = .typeDef funcType) ∨
      typeDefs [f] = [] ∧ ((∃ decl, f.decl? = some decl ∧
        ∀ types, f.declares types = declaresOf types decl) ∨
          f.decl? = none ∧ ∀ types, f.declares types = []) := by
  cases f with
  | typeDef funcType => exact .inl ⟨funcType, rfl⟩
  | func func export_ => exact .inr ⟨rfl, .inl ⟨func.decl, rfl, fun _ => rfl⟩⟩
  | import_ moduleName fieldName kind =>
    cases kind with
    | func func => exact .inr ⟨rfl, .inl ⟨func.decl, rfl, fun _ => rfl⟩⟩
    | _ => exact .inr ⟨rfl, .inr ⟨rfl, fun _ => rfl⟩⟩
  | _ => exact .inr ⟨rfl, .inr ⟨rfl, fun _ => rfl⟩⟩

/-- The types are the explicit ones if no signature declares one; else there are more. -/
theorem typesOf_spec (fields : List FieldSyntax) :
    (Covered fields → typesOf [] fields = typeDefs fields) ∧
      (¬Covered fields → (typeDefs fields).length < (typesOf [] fields).length) := by
  induction fields using List.reverseRecOn with
  | nil => exact ⟨fun _ => rfl, fun h => absurd (fun before f after decl hnil => by simp at hnil) h⟩
  | append_singleton fields f ih =>
    rw [covered_concat, typesOf_concat, typeDefs_append]
    rcases f.declares_cases with ⟨funcType, rfl⟩ | ⟨hnone, ⟨decl, hdecl, hdeclares⟩ | ⟨hdecl, hdeclares⟩⟩
    · have hdeclares : ∀ types, (FieldSyntax.typeDef funcType).declares types = [funcType] :=
        fun _ => rfl
      have hdecl : (FieldSyntax.typeDef funcType).decl? = none := rfl
      have hdefs : typeDefs [FieldSyntax.typeDef funcType] = [funcType] := rfl
      simp only [hdeclares, hdecl, hdefs, List.length_append]
      refine ⟨fun h => by rw [ih.1 h.1], fun h => ?_⟩
      have hlt := ih.2 fun hcovered => h ⟨hcovered, by simp⟩
      omega
    · simp only [hdeclares, hdecl, hnone, List.append_nil, Option.some.injEq, forall_eq',
        List.length_append]
      refine ⟨fun h => ?_, fun h => ?_⟩
      · rw [ih.1 h.1, declaresOf, if_neg fun hnew => hnew.2 (h.2 hnew.1), List.append_nil]
      · by_cases hcovered : Covered fields
        · have hnew : decl.typeVar = none ∧ decl.sig ∉ (typeDefs fields).map (·.sig) := by
            by_contra hnot
            exact h ⟨hcovered, fun hvar => by_contra fun hmem => hnot ⟨hvar, hmem⟩⟩
          rw [ih.1 hcovered, declaresOf, if_pos hnew]
          exact Nat.lt_succ_self _
        · have hlt := ih.2 hcovered
          omega
    · simp only [hdeclares, hdecl, hnone, List.append_nil]
      refine ⟨fun h => ih.1 h.1, fun h => ih.2 fun hcovered => h ⟨hcovered, by simp⟩⟩

theorem length_typeDefs_le (fields : List FieldSyntax) :
    (typeDefs fields).length ≤ (typesOf [] fields).length := by
  by_cases hcovered : Covered fields
  · exact Nat.le_of_eq (congrArg _ ((typesOf_spec fields).1 hcovered).symm)
  · exact Nat.le_of_lt ((typesOf_spec fields).2 hcovered)

theorem moduleFields_hasTypes {fields : List FieldSyntax} {errors errors' : Nat}
    (hrun : Module.moduleFields fields errors = .ok m errors') : HasTypes m (typesOf [] fields) := by
  obtain ⟨addresses, added, hdeclares, htypes⟩ := foldlM_declares fields HasTypes.empty hrun
  rw [← htypes]
  exact HasTypes.empty.declares hdeclares

/-- The run of the productions up to a field, for the field, and from there to the end. -/
theorem moduleFields_split {before after : List FieldSyntax} {f : FieldSyntax} {errors errors' : Nat}
    (hrun : Module.moduleFields (before ++ f :: after) errors = .ok m errors') :
    ∃ m₀ errors₀ m₁ errors₁ addresses addresses' added,
      Module.moduleFields before errors = .ok m₀ errors₀ ∧
        m₀.appendField f errors₀ = .ok m₁ errors₁ ∧
          Declares m₀ m₁ addresses (f.declares (typesOf [] before)) ∧
            (∀ funcType, f = .typeDef funcType → addresses = [m₀.nodes.length]) ∧
              Declares m₁ m addresses' added := by
  rw [Module.moduleFields, foldlM_append] at hrun
  obtain ⟨m₀, errors₀, hbefore, hrun⟩ := bind_eq_ok.mp hrun
  rw [List.foldlM_cons] at hrun
  obtain ⟨m₁, errors₁, hfield, hafter⟩ := bind_eq_ok.mp hrun
  have htypes := moduleFields_hasTypes hbefore
  obtain ⟨addresses, hdeclares, haddress⟩ := appendField_declares htypes hfield
  obtain ⟨addresses', added, hdeclares', _⟩ :=
    foldlM_declares after (htypes.declares hdeclares) hafter
  exact ⟨m₀, errors₀, m₁, errors₁, addresses, addresses', added, hbefore, hfield, hdeclares,
    haddress, hdeclares'⟩

/-- The explicit types have the first indices, in the order of the text, and every signature that
a function or an import has declared an index behind them. -/
structure TypesInOrder (fields : List FieldSyntax) (errors : Nat) (m : Module) : Prop where
  explicit : ∀ before funcType after m₀ errors₀, fields = before ++ .typeDef funcType :: after →
    Module.moduleFields before errors = .ok m₀ errors₀ →
      m.funcTypes[(typeDefs before).length]? = some (.own m₀.nodes.length) ∧
        m.funcType? (.own m₀.nodes.length) = some funcType
  implicit : ∀ before f after m₀ errors₀ m₁ errors₁ p (k : Nat), fields = before ++ f :: after →
    (∀ funcType, f ≠ .typeDef funcType) → Module.moduleFields before errors = .ok m₀ errors₀ →
      m₀.appendField f errors₀ = .ok m₁ errors₁ → p ∈ m₁.funcTypes → p ∉ m₀.funcTypes →
        m.funcTypes[k]? = some p → (typeDefs fields).length ≤ k

theorem Grows.getElem?_funcTypes {addresses : List Nat} (h : Grows m m' addresses) {k : Nat}
    (hk : k < m.funcTypes.length) : m'.funcTypes[k]? = m.funcTypes[k]? := by
  rw [h.funcTypes, List.getElem?_append_left hk]

theorem typeDefs_eq_nil {fields : List FieldSyntax}
    (h : ∀ funcType, .typeDef funcType ∉ fields) : typeDefs fields = [] := by
  refine List.filterMap_eq_nil_iff.mpr fun f hf => ?_
  cases f with
  | typeDef funcType => exact absurd hf (h funcType)
  | _ => rfl

theorem moduleFields_typesInOrder_iff {fields : List FieldSyntax} {errors errors' : Nat}
    (hrun : Module.moduleFields fields errors = .ok m errors') :
    TypesInOrder fields errors m ↔
      ∀ before funcType after, fields = before ++ .typeDef funcType :: after → Covered before := by
  constructor
  · intro h before funcType after hfields
    rw [hfields] at hrun
    obtain ⟨m₀, errors₀, m₁, errors₁, addresses, addresses', added, hbefore, hfield, hdeclares, _,
      hdeclares'⟩ := moduleFields_split hrun
    have htypes := moduleFields_hasTypes hbefore
    by_contra hcovered
    have hlt := (typesOf_spec before).2 hcovered
    rw [← htypes.length] at hlt
    have hindex := (h.explicit before funcType after m₀ errors₀ hfields hbefore).1
    -- the index of the explicit type is that of a type from before
    rw [(hdeclares.trans hdeclares').getElem?_funcTypes hlt, List.getElem?_eq_getElem hlt,
      Option.some.injEq] at hindex
    obtain ⟨a, ha, heq⟩ := htypes.placed _ (List.getElem_mem hlt)
    rw [hindex] at heq
    cases heq
    exact Nat.lt_irrefl _ ha
  · intro h
    refine ⟨?_, ?_⟩
    · intro before funcType after m₀ errors₀ hfields hbefore
      have hcovered := h before funcType after hfields
      rw [hfields] at hrun
      obtain ⟨m₀', errors₀', m₁, errors₁, addresses, addresses', added, hbefore', hfield, hdeclares,
        haddress, hdeclares'⟩ := moduleFields_split hrun
      cases hbefore.symm.trans hbefore'
      obtain rfl := haddress funcType rfl
      have htypes := moduleFields_hasTypes hbefore
      have hlength : (typeDefs before).length = m₀.funcTypes.length := by
        rw [htypes.length, (typesOf_spec before).1 hcovered]
      have htype : m₁.funcType? (.own m₀.nodes.length) = some funcType := by
        simpa [FieldSyntax.declares] using hdeclares.types
      refine ⟨?_, (hdeclares'.toGrows.funcType? (hdeclares.fresh _ (by simp)).2).trans htype⟩
      rw [hdeclares'.getElem?_funcTypes (by rw [hdeclares.funcTypes, hlength]; simp),
        hdeclares.funcTypes, hlength]
      simp
    · intro before f after m₀ errors₀ m₁ errors₁ p k hfields hf hbefore hfield hp hnew hk
      rw [hfields] at hrun
      obtain ⟨m₀', errors₀', m₁', errors₁', addresses, addresses', added, hbefore', hfield',
        hdeclares, _, hdeclares'⟩ := moduleFields_split hrun
      cases hbefore.symm.trans hbefore'
      cases hfield.symm.trans hfield'
      have hnone : ∀ funcType, .typeDef funcType ∉ after := by
        intro funcType hmem
        obtain ⟨middle, after', rfl⟩ := List.append_of_mem hmem
        -- a field before an explicit type declares nothing
        have hcovered : Covered (before ++ [f]) := by
          refine @Covered.of_append _ middle ?_
          exact h _ funcType after' (by rw [hfields]; simp)
        have htypes := (typesOf_spec (before ++ [f])).1 hcovered
        rw [typesOf_concat, (typesOf_spec before).1 hcovered.of_append, typeDefs_append] at htypes
        have hdefs : typeDefs [f] = [] := typeDefs_eq_nil fun t ht => hf t (List.mem_singleton.mp ht).symm
        have hempty := List.append_cancel_left htypes
        rw [hdefs] at hempty
        rw [hdeclares.funcTypes, List.mem_append] at hp
        have haddresses := hdeclares.types
        rw [(typesOf_spec before).1 hcovered.of_append, hempty] at haddresses
        rw [List.map_eq_nil_iff.mp haddresses] at hp
        exact hp.elim hnew (by simp)
      have hbefore_le : m₀.funcTypes.length ≤ k := by
        by_contra hlt
        rw [(hdeclares.trans hdeclares').getElem?_funcTypes (by omega)] at hk
        exact hnew (List.mem_of_getElem? hk)
      have hle := length_typeDefs_le before
      rw [← (moduleFields_hasTypes hbefore).length] at hle
      rw [hfields, typeDefs_append, @typeDefs_eq_nil (f :: after), List.append_nil]
      · omega
      · rintro funcType (_ | ⟨_, hmem⟩)
        · exact hf funcType rfl
        · exact hnone funcType hmem

/-! ## Text modules -/

/-- The field of a function type, whatever else is at the address. -/
def Field.funcType? : Field → Option FuncType
  | funcType t => some t
  | _ => none

theorem Module.funcType?_own (m : Module) (a : Nat) :
    m.funcType? (.own a) = (m.field? a).bind (·.funcType?) := by
  rw [Module.funcType?]
  rcases m.field? a with _ | field
  · rfl
  · cases field <;> rfl

theorem changeFunc_funcType? (f : Func → Func) (p : Pointer) (field : Option Field) :
    (changeFunc f p field).bind (·.funcType?) = field.bind (·.funcType?) := by
  cases p with
  | own p => rcases field with _ | _ | _ | _ | _ | _ | _ | _ | _ | _ | _ <;> rfl
  | imported p =>
    rcases field with _ | _ | _ | ⟨_, _, _ | _ | _ | _ | _⟩ | _ | _ | _ | _ | _ | _ | _ <;> rfl

theorem Module.funcType?_modifyFunc (m : Module) (f : Func → Func) (p q : Pointer) :
    (m.modifyFunc f p).funcType? q = m.funcType? q := by
  cases q with
  | imported a => rfl
  | own a =>
    rw [Module.funcType?_own, Module.funcType?_own, Module.modifyFunc_eq_modifyField,
      Module.field?_eq, Module.field?_eq, Module.fields_modifyField, List.getElem?_modify]
    cases m.fields[a]? with
    | none => rfl
    | some field =>
      have hsame : ∀ b, ((if b = a then changeFunc f p field else field).bind (·.funcType?)) =
          field.bind (·.funcType?) := by
        intro b
        split
        · exact changeFunc_funcType? f p field
        · rfl
      exact hsame _

theorem resolveFuncType_keeps (m : Module) (p : Pointer) :
    (m.resolveFuncType p).funcTypes = m.funcTypes ∧
      (m.resolveFuncType p).funcType? = m.funcType? := by
  rw [Module.resolveFuncType]
  split
  · split
    · exact ⟨rfl, rfl⟩
    · refine ⟨?_, funext fun q => m.funcType?_modifyFunc _ p q⟩
      rw [Module.modifyFunc_eq_modifyField]
      rfl
  · exact ⟨rfl, rfl⟩

theorem resolveFuncTypes_keeps : ∀ (funcs : List Pointer) (m : Module),
    (funcs.foldl Module.resolveFuncType m).funcTypes = m.funcTypes ∧
      (funcs.foldl Module.resolveFuncType m).funcType? = m.funcType?
  | [], m => ⟨rfl, rfl⟩
  | p :: funcs, m => by
      obtain ⟨hfuncTypes, hfuncType⟩ := resolveFuncType_keeps m p
      obtain ⟨hfuncTypes', hfuncType'⟩ := resolveFuncTypes_keeps funcs (m.resolveFuncType p)
      exact ⟨hfuncTypes'.trans hfuncTypes, hfuncType'.trans hfuncType⟩

theorem TypesInOrder.congr {fields : List FieldSyntax} {errors : Nat}
    (hfuncTypes : m'.funcTypes = m.funcTypes) (hfuncType : m'.funcType? = m.funcType?) :
    TypesInOrder fields errors m' ↔ TypesInOrder fields errors m := by
  constructor
  · intro h
    refine ⟨?_, ?_⟩
    · rw [← hfuncTypes, ← hfuncType]
      exact h.explicit
    · rw [← hfuncTypes]
      exact h.implicit
  · intro h
    refine ⟨?_, ?_⟩
    · rw [hfuncTypes, hfuncType]
      exact h.explicit
    · rw [hfuncTypes]
      exact h.implicit

/-- The types of a module text are in order as long as no function or function import declares a
signature before an explicit type: every one of them that is before a type and does not name its
own has a signature that is already that of a type. -/
theorem rawModule_typesInOrder_iff (name : StringSlice) (fields : List FieldSyntax) (errors : Nat) :
    ∃ m errors', rawModule (.text name fields) errors = .ok (.text m) errors' ∧
      (TypesInOrder fields errors m ↔
        ∀ before funcType after, fields = before ++ .typeDef funcType :: after →
          ∀ before' f after' decl, before = before' ++ f :: after' → f.decl? = some decl →
            decl.typeVar = none → decl.sig ∈ (typeDefs before').map (·.sig)) := by
  obtain ⟨m, errors', hrun, _⟩ := (foldlM_wp fields {} errors).exists_ok
  obtain ⟨hfuncTypes, hfuncType⟩ := resolveFuncTypes_keeps m.funcs { m with name }
  refine ⟨_, errors', bind_eq_ok.mpr ⟨m, errors', hrun, rfl⟩, ?_⟩
  have hcongr := @TypesInOrder.congr m _ fields errors hfuncTypes hfuncType
  exact hcongr.trans (moduleFields_typesInOrder_iff hrun)

/-- The signature of the function takes the index of the type: `(func (param i32)) (type (func))`. -/
theorem rawModule_shiftsType :
    ¬∀ m errors', rawModule (.text none [.func { decl := { sig := ⟨[.i32], []⟩ } } none,
      .typeDef { sig := ⟨[], []⟩ }]) 0 = .ok (.text m) errors' →
        TypesInOrder [.func { decl := { sig := ⟨[.i32], []⟩ } } none, .typeDef { sig := ⟨[], []⟩ }]
          0 m := by
  intro h
  have hindex := (h _ _ rfl).explicit [.func { decl := { sig := ⟨[.i32], []⟩ } } none]
    { sig := ⟨[], []⟩ } [] _ _ rfl rfl
  exact absurd hindex.1 (by decide)

end Linked

end Text

end SexprWasm
