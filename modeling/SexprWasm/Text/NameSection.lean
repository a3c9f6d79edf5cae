import SexprWasm.Text.NameTables
import SexprWasm.Text.ReadBinarySound
import SexprWasm.Text.TypeIndexes

/-!
# The names of a binary

What the reader makes of a name section. `functionNames` and
`localNames` are the names that the callbacks were given; `Named` says
that the module holds just these, each in the table it belongs to, and
that every callback keeps it so. From the tables a name is found if
none of the names before or behind it was empty.
-/

namespace SexprWasm

namespace Text

namespace Linked

open BinaryReader Callback

/-! ## The names that were given -/

/-- The names given to functions, in order. -/
def functionNames (es : List Event) : Insertions :=
  es.filterMap fun
    | .onFunctionName index name => some (dupName name, index)
    | _ => none

/-- The names given to the locals of a function, in order. -/
def localNames (es : List Event) (func : Nat) : Insertions :=
  es.filterMap fun
    | .onLocalName funcIndex localIndex name =>
      if funcIndex = func then some (dupName name, localIndex) else none
    | _ => none

/-- The names of parameters. -/
def paramsOf (numParams : Nat) (names : Insertions) : Insertions :=
  names.filter fun b => b.2 < numParams

/-- The names of the other locals, which are counted from the first of them. -/
def localsOf (numParams : Nat) (names : Insertions) : Insertions :=
  (names.filter fun b => ¬ b.2 < numParams).map fun b => (b.1, b.2 - numParams)

def Func.numParams (func : Func) : Nat := func.decl.sig.paramTypes.length

/-- The tables of a function hold these names. -/
structure Func.Holds (func : Func) (names : Insertions) : Prop where
  params : func.paramBindings = paramsOf func.numParams names
  locals : func.localBindings = localsOf func.numParams names

/-- `func'` has the parameters and the names of `func`. -/
structure Func.Alike (func func' : Func) : Prop where
  numParams : func'.numParams = func.numParams
  params : func'.paramBindings = func.paramBindings
  locals : func'.localBindings = func.localBindings

theorem Func.Holds.alike {func func' : Func} {names : Insertions} (h : func.Holds names)
    (halike : func.Alike func') : func'.Holds names where
  params := by rw [halike.params, halike.numParams, h.params]
  locals := by rw [halike.locals, halike.numParams, h.locals]

theorem Func.Alike.refl (func : Func) : func.Alike func := ⟨rfl, rfl, rfl⟩

/-- The module holds the names that were given, in the tables of its functions. -/
structure Named (es : List Event) (m : Module) : Prop where
  funcs : m.funcBindings = functionNames es
  func : ∀ f ptr, m.funcs[f]? = some ptr →
    ∃ func, m.func? ptr = some func ∧ func.Holds (localNames es f)
  nodup : m.funcs.Nodup
  funcBound : ∀ b ∈ functionNames es, b.2 < m.funcs.length
  localBound : ∀ f, localNames es f ≠ [] → f < m.funcs.length

/-! ## What a pointer to a function leads to -/

namespace Module

/-- The address of the field. -/
def address : Pointer → Nat
  | .own p | .imported p => p

/-- The function of a field that a pointer leads to. -/
def fieldFunc : Pointer → Option Field → Option Func
  | .own _, some (.func func) => some func
  | .imported _, some (.import_ { kind := some (.func func), .. }) => some func
  | _, _ => none

theorem func?_eq (m : Module) (ptr : Pointer) :
    m.func? ptr = fieldFunc ptr (m.field? (address ptr)) := by
  cases ptr with
  | own p =>
    rw [func?, address]
    rcases m.field? p with _ | _ | _ | _ | _ | _ | _ | _ | _ | _ | _ <;> rfl
  | imported p =>
    rw [func?, address]
    rcases m.field? p with _ | _ | _ | ⟨_, _, _ | _ | _ | _ | _⟩ | _ | _ | _ | _ | _ | _ | _ <;> rfl

theorem field?_modifyField (m : Module) (p : Nat) (f : Option Field → Option Field) (q : Nat) :
    (m.modifyField p f).field? q =
      if p = q ∧ q < m.nodes.length then f (m.field? q) else m.field? q := by
  rw [field?_eq, field?_eq, fields_modifyField, List.getElem?_modify]
  by_cases hq : q < m.nodes.length
  · rw [List.getElem?_eq_getElem (by rwa [length_fields])]
    by_cases hpq : p = q <;> simp [hpq, hq]
  · rw [List.getElem?_eq_none (by rw [length_fields]; omega)]
    simp [hq]

theorem func?_modifyField (m : Module) (p : Nat) {f : Option Field → Option Field}
    (hf : ∀ ptr field, fieldFunc ptr (f field) = fieldFunc ptr field) (ptr : Pointer) :
    (m.modifyField p f).func? ptr = m.func? ptr := by
  rw [func?_eq, func?_eq, field?_modifyField]
  split
  · exact hf ptr _
  · rfl

theorem fieldFunc_changeFunc (f : Func → Func) (ptr ptr' : Pointer) (field : Option Field)
    (haddress : address ptr = address ptr') :
    fieldFunc ptr' (changeFunc f ptr field) =
      if ptr = ptr' then (fieldFunc ptr' field).map f else fieldFunc ptr' field := by
  cases ptr <;> cases ptr' <;> obtain rfl := haddress
  all_goals
    rcases field with _ | _ | _ | ⟨_, _, _ | _ | _ | _ | _⟩ | _ | _ | _ | _ | _ | _ | _ <;>
      simp [fieldFunc, changeFunc, address]

theorem func?_modifyFunc (m : Module) (f : Func → Func) (ptr ptr' : Pointer) :
    (m.modifyFunc f ptr).func? ptr' =
      if ptr = ptr' then (m.func? ptr').map f else m.func? ptr' := by
  have hfield : m.modifyFunc f ptr = m.modifyField (address ptr) (changeFunc f ptr) := by
    cases ptr <;> exact m.modifyFunc_eq_modifyField f _
  rw [hfield, func?_eq, func?_eq, field?_modifyField]
  by_cases hsame : address ptr = address ptr'
  · by_cases hlt : address ptr' < m.nodes.length
    · rw [if_pos ⟨hsame, hlt⟩, fieldFunc_changeFunc f ptr ptr' _ hsame]
    · have hnone : m.field? (address ptr') = none := by
        rw [field?_eq, List.getElem?_eq_none (by rw [length_fields]; omega)]
        rfl
      rw [if_neg fun h => hlt h.2, hnone]
      cases ptr' <;> simp [fieldFunc]
  · rw [if_neg fun h => hsame h.1, if_neg fun h => hsame (congrArg address h)]

theorem func?_of_prefix {m m' : Module} (h : m.fields <+: m'.fields) {ptr : Pointer} {func : Func}
    (hfunc : m.func? ptr = some func) : m'.func? ptr = some func := by
  rw [func?_eq] at hfunc ⊢
  have hlt : address ptr < m.nodes.length := by
    by_contra hge
    rw [field?_eq, List.getElem?_eq_none (by rw [length_fields]; omega)] at hfunc
    cases ptr <;> cases hfunc
  obtain ⟨added, hadded⟩ := h
  rw [field?_eq, ← hadded, List.getElem?_append_left (by rwa [length_fields]), ← field?_eq]
  exact hfunc

theorem funcs_modifyFunc (m : Module) (f : Func → Func) (ptr : Pointer) :
    (m.modifyFunc f ptr).funcs = m.funcs ∧
      (m.modifyFunc f ptr).funcBindings = m.funcBindings := by
  cases ptr <;> exact ⟨rfl, rfl⟩

end Module

/-! ## Callbacks that are given no names -/

/-- From `m` to `m'` no name is added; `new` are the functions that are. -/
structure AddsFunc (m m' : Module) (new : Option Pointer) : Prop where
  funcBindings : m'.funcBindings = m.funcBindings
  funcs : m'.funcs = m.funcs ++ new.toList
  old : ∀ ptr func, m.func? ptr = some func → ∃ func', m'.func? ptr = some func' ∧ func.Alike func'
  new : ∀ ptr ∈ new, m.func? ptr = none ∧ ∃ func, m'.func? ptr = some func ∧
    func.paramBindings = [] ∧ func.localBindings = []

section

variable {es : List Event} {m m' : Module}

theorem Named.adds {new : Option Pointer} (h : Named es m) (hadds : AddsFunc m m' new) :
    Named es m' := by
  have hmem : ∀ ptr ∈ new, ptr ∉ m.funcs := by
    intro ptr hptr hold
    obtain ⟨f, hlt, hf⟩ := List.getElem_of_mem hold
    obtain ⟨func, hfunc, -⟩ := h.func f ptr (by rw [List.getElem?_eq_getElem hlt, hf])
    rw [(hadds.new ptr hptr).1] at hfunc
    cases hfunc
  refine ⟨hadds.funcBindings.trans h.funcs, fun f ptr hf => ?_, ?_, fun b hb => ?_, fun f hf => ?_⟩
  · rw [hadds.funcs] at hf
    by_cases hlt : f < m.funcs.length
    · rw [List.getElem?_append_left hlt] at hf
      obtain ⟨func, hfunc, hholds⟩ := h.func f ptr hf
      obtain ⟨func', hfunc', halike⟩ := hadds.old ptr func hfunc
      exact ⟨func', hfunc', hholds.alike halike⟩
    · rw [List.getElem?_append_right (Nat.le_of_not_lt hlt)] at hf
      obtain ⟨-, func, hfunc, hparams, hlocals⟩ :=
        hadds.new ptr (by simpa using List.mem_of_getElem? hf)
      have hnone : localNames es f = [] := by
        by_contra hnames
        exact hlt (h.localBound f hnames)
      exact ⟨func, hfunc, by rw [hparams, hnone]; rfl, by rw [hlocals, hnone]; rfl⟩
  · rw [hadds.funcs, List.nodup_append]
    refine ⟨h.nodup, by cases new <;> simp, fun a ha b hb heq => ?_⟩
    exact hmem b (by simpa using hb) (heq ▸ ha)
  · have hlt := h.funcBound b hb
    rw [hadds.funcs, List.length_append]
    omega
  · have hlt := h.localBound f hf
    rw [hadds.funcs, List.length_append]
    omega

/-- Fields at the end, and nothing else that holds functions or names. -/
theorem Named.extend (h : Named es m) (hfields : m.fields <+: m'.fields)
    (hfuncs : m'.funcs = m.funcs) (hbindings : m'.funcBindings = m.funcBindings) : Named es m' := by
  have hadds : AddsFunc m m' none :=
    { funcBindings := hbindings
      funcs := by simp [hfuncs]
      old := fun ptr func hfunc => ⟨func, Module.func?_of_prefix hfields hfunc, .refl func⟩
      new := fun ptr hptr => by cases hptr }
  exact h.adds hadds

theorem Named.modifyField (h : Named es m) (p : Nat) {f : Option Field → Option Field}
    (hf : ∀ ptr field, Module.fieldFunc ptr (f field) = Module.fieldFunc ptr field) :
    Named es (m.modifyField p f) := by
  have hadds : AddsFunc m (m.modifyField p f) none :=
    { funcBindings := rfl
      funcs := by simp [Module.modifyField]
      old := fun ptr func hfunc => ⟨func, by rw [m.func?_modifyField p hf, hfunc], .refl func⟩
      new := fun ptr hptr => by cases hptr }
  exact h.adds hadds

theorem Named.modifyFunc (h : Named es m) {f : Func → Func} (hf : ∀ func : Func, func.Alike (f func))
    (ptr : Pointer) : Named es (m.modifyFunc f ptr) := by
  obtain ⟨hfuncs, hbindings⟩ := m.funcs_modifyFunc f ptr
  have hadds : AddsFunc m (m.modifyFunc f ptr) none :=
    { funcBindings := hbindings
      funcs := by simp [hfuncs]
      old := fun ptr' func hfunc => by
        rw [m.func?_modifyFunc, hfunc]
        by_cases heq : ptr = ptr'
        · exact ⟨f func, by rw [if_pos heq]; rfl, hf func⟩
        · exact ⟨func, by rw [if_neg heq], .refl func⟩
      new := fun ptr hptr => by cases hptr }
  exact h.adds hadds

/-- A function at the end, without names. -/
theorem Named.append (h : Named es m) {ptr : Pointer} {func : Func} (hold : m.func? ptr = none)
    (hkeep : ∀ ptr' func', m.func? ptr' = some func' → m'.func? ptr' = some func')
    (hnew : m'.func? ptr = some func) (hparams : func.paramBindings = [])
    (hlocals : func.localBindings = []) (hfuncs : m'.funcs = m.funcs ++ [ptr])
    (hbindings : m'.funcBindings = m.funcBindings) : Named es m' := by
  have hadds : AddsFunc m m' (some ptr) :=
    { funcBindings := hbindings
      funcs := hfuncs
      old := fun ptr' func' hfunc => ⟨func', hkeep ptr' func' hfunc, .refl func'⟩
      new := fun ptr' hptr => by
        cases hptr
        exact ⟨hold, func, hnew, hparams, hlocals⟩ }
  exact h.adds hadds

end

section callbacks

variable {es : List Event}

/-- The invariant between two names. -/
abbrev KeepsNames (es : List Event) (c : ReadContext) : Prop := Named es c.module

theorem funcs_appendItemToVector (m : Module) (ptr : Pointer) {kind : Kind} (hkind : kind ≠ .func) :
    (m.appendItemToVector ptr kind).funcs = m.funcs := by
  cases kind <;> first | rfl | exact absurd rfl hkind

theorem funcBindings_appendItemToVector (m : Module) (ptr : Pointer) (kind : Kind) :
    (m.appendItemToVector ptr kind).funcBindings = m.funcBindings := by
  cases kind <;> rfl

theorem fields_appendItemToVector (m : Module) (ptr : Pointer) (kind : Kind) :
    (m.appendItemToVector ptr kind).fields = m.fields := by
  rw [Module.fields, Module.nodes_appendItemToVector, Module.fields]

theorem fields_prefix_appendEntity (m : Module) (field : Field) (ptr : Pointer) (kind : Kind) :
    m.fields <+: ((m.appendFieldToList field).appendItemToVector ptr kind).fields := by
  rw [fields_appendItemToVector, Module.fields_appendFieldToList]
  exact List.prefix_append _ _

theorem links_appendFieldToList (m : Module) (field : Field) :
    (m.appendFieldToList field).funcs = m.funcs ∧
      (m.appendFieldToList field).funcBindings = m.funcBindings := by
  rw [Module.appendFieldToList, Module.setField, Module.modifyField, Module.appendModuleField]
  exact ⟨rfl, rfl⟩

theorem names_appendEntity {field : Field} {kind : Kind} (hkind : kind ≠ .func) :
    Preserves (KeepsNames es) (appendEntity field kind) :=
  Preserves.modify fun c h => by
    obtain ⟨hfuncs, hbindings⟩ := links_appendFieldToList c.module field
    refine h.extend (fields_prefix_appendEntity ..) ?_ ?_
    · rw [funcs_appendItemToVector _ _ hkind, hfuncs]
    · rw [funcBindings_appendItemToVector, hbindings]

/-- A function of the module itself. -/
theorem names_appendFunc (decl : FuncDeclaration) :
    Preserves (KeepsNames es) (appendEntity (.func { decl }) .func) :=
  Preserves.modify fun c h => by
    obtain ⟨hfuncs, hbindings⟩ := links_appendFieldToList c.module (.func { decl })
    have hfield := Module.field?_of_fields (Module.fields_appendFieldToList c.module (.func { decl }))
    have hlength : ¬ c.module.nodes.length < c.module.fields.length := by
      rw [Module.length_fields]
      exact Nat.lt_irrefl _
    have hold : c.module.func? (.own c.module.nodes.length) = none := by
      rw [Module.func?_eq, Module.address, Module.field?_eq,
        List.getElem?_eq_none (Nat.le_of_not_lt hlength)]
      rfl
    have hnew : ((c.module.appendFieldToList (.func { decl })).appendItemToVector
        (.own c.module.nodes.length) .func).func? (.own c.module.nodes.length) = some { decl } := by
      rw [Module.func?_eq, Module.address, Module.field?_eq, fields_appendItemToVector,
        ← Module.field?_eq, hfield]
      rfl
    refine h.append hold
      (fun ptr' func' => Module.func?_of_prefix (fields_prefix_appendEntity ..)) hnew rfl rfl ?_ ?_
    · show (c.module.appendFieldToList (.func { decl })).funcs ++ [_] = _
      rw [hfuncs]
    · rw [funcBindings_appendItemToVector, hbindings]

theorem names_body (m : Module) (p : Pointer) (firstExpr : ExprList) (h : Named es m) :
    Named es (m.modifyFunc (fun func => { func with firstExpr }) p) :=
  h.modifyFunc (f := fun func => { func with firstExpr }) (fun _ => ⟨rfl, rfl, rfl⟩) p

instance names_popLabel : Preserves (KeepsNames es) popLabel := preserves_popLabel names_body

instance names_onExpr (instr : Instr) : Preserves (KeepsNames es) (onExpr instr) :=
  preserves_onExpr names_body instr

instance names_declOfType (sigIndex : Nat) : Preserves (KeepsNames es) (declOfType sigIndex) := by
  unfold declOfType
  infer_instance

instance names_onFunctionSignature (sigIndex : Nat) :
    Preserves (KeepsNames es) (onFunctionSignature sigIndex) :=
  Preserves.seq fun decl => names_appendFunc decl

instance names_onExport (kind : ExternalKind) (itemIndex : Nat) (name : List UInt8) :
    Preserves (KeepsNames es) (onExport kind itemIndex name) :=
  Preserves.seq fun _ => Preserves.seq fun _ => names_appendEntity (by decide)

instance names_onStartFunction (funcIndex : Nat) :
    Preserves (KeepsNames es) (onStartFunction funcIndex) :=
  Preserves.seq fun _ => Preserves.seq fun _ => Preserves.modify fun c h => by
    obtain ⟨hfuncs, hbindings⟩ := links_appendFieldToList c.module (.start (.index funcIndex))
    refine h.extend ?_ hfuncs hbindings
    show c.module.fields <+: (c.module.appendFieldToList (.start (.index funcIndex))).fields
    rw [Module.fields_appendFieldToList]
    exact List.prefix_append _ _

instance names_beginFunctionBody (index : Nat) :
    Preserves (KeepsNames es) (beginFunctionBody index) :=
  Preserves.seq fun _ => Preserves.seq fun _ => Preserves.seq fun p =>
    have : Preserves (KeepsNames es)
        (modify fun c : ReadContext => { c with currentFunc := some p }) :=
      preserves_modify fun _ => rfl
    Preserves.seq fun _ => preserves_pushLabel _

instance names_onLocalDecl (count : Nat) (type : ValueType) :
    Preserves (KeepsNames es) (onLocalDecl count type) :=
  Preserves.seq fun _ => Preserves.seq fun p => Preserves.modify fun _ h =>
    h.modifyFunc (f := fun func =>
      { func with localTypes := func.localTypes ++ List.replicate count type })
      (fun _ => ⟨rfl, rfl, rfl⟩) p

instance names_endFunctionBody : Preserves (KeepsNames es) endFunctionBody :=
  Preserves.seq fun _ => preserves_modify fun _ => rfl

instance names_beginGlobalInitExpr (index : Nat) :
    Preserves (KeepsNames es) (beginGlobalInitExpr index) :=
  Preserves.seq fun _ => Preserves.seq fun _ => Preserves.seq fun _ => preserves_modify fun _ => rfl

instance names_beginSegmentInitExpr (kind : Kind) (index : Nat) :
    Preserves (KeepsNames es) (beginSegmentInitExpr kind index) :=
  Preserves.seq fun _ => Preserves.seq fun _ => Preserves.seq fun _ => preserves_modify fun _ => rfl

instance names_endInitExpr : Preserves (KeepsNames es) endInitExpr := preserves_modify fun _ => rfl

theorem names_modifyField {f : Option Field → Option Field}
    (hf : ∀ ptr field, Module.fieldFunc ptr (f field) = Module.fieldFunc ptr field) (p : Nat) :
    Preserves (KeepsNames es) (modifyModule fun m => m.modifyField p f) :=
  Preserves.modify fun _ h => h.modifyField p hf

instance names_onInitExpr (e : InitExpr) : Preserves (KeepsNames es) (onInitExpr e) := by
  refine Preserves.seq fun c => ?_
  split
  · refine names_modifyField (fun ptr field => ?_) _
    unfold setInitExpr
    split <;> cases ptr <;> rfl
  · infer_instance

theorem names_beginSegment {field : Field} {kind : Kind} (hkind : kind ≠ .func) (index : Nat) :
    Preserves (KeepsNames es) (beginSegment field kind index) :=
  Preserves.seq fun _ => Preserves.seq fun _ => names_appendEntity hkind

theorem names_modifySegment {f : Option Field → Option Field}
    (hf : ∀ ptr field, Module.fieldFunc ptr (f field) = Module.fieldFunc ptr field) (kind : Kind)
    (index : Nat) : Preserves (KeepsNames es) (modifySegment kind index f) := by
  refine Preserves.seq fun c => Preserves.seq fun _ => ?_
  split
  · exact names_modifyField hf _
  · infer_instance

/-- Is it a callback that is given a name, or the kind of an import. -/
def Event.isName : Event → Bool
  | .onFunctionName .. | .onLocalName .. => true
  | _ => false

theorem names_astReader (e : Event) (hname : Event.isName e = false)
    (hkind : e.isImportKind = false) : Preserves (KeepsNames es) (astReader e) := by
  cases e
  case onFunctionName | onLocalName => cases hname
  case onImportFunc | onImportTable | onImportMemory | onImportGlobal => cases hkind
  case onSignature | onTable | onMemory | beginGlobal | onImport =>
    exact names_appendEntity (by decide)
  case beginElemSegment | beginDataSegment => exact names_beginSegment (by decide) _
  case onElemSegmentFunctionIndexCount =>
    exact names_modifySegment (fun _ _ => rfl) _ _
  case onElemSegmentFunctionIndex funcIndex =>
    refine names_modifySegment (fun ptr field => ?_) _ _
    unfold addVar
    split <;> cases ptr <;> rfl
  case onDataSegmentData data =>
    refine names_modifySegment (fun ptr field => ?_) _ _
    unfold setData
    split <;> cases ptr <;> rfl
  case onFunctionBodiesCount =>
    unfold astReader onFunctionBodiesCount
    infer_instance
  case onFunctionNamesCount =>
    unfold astReader onFunctionNamesCount
    infer_instance
  case onLocalNamesCount =>
    unfold astReader onLocalNamesCount
    infer_instance
  all_goals
    unfold astReader
    infer_instance

/-! ## Imports and names -/

theorem Importing.field_none {m : Module} {before : List Shape} (h : Importing m before) :
    ∃ i : Import, m.field? before.length = some (.import_ i) ∧ i.kind = none := by
  obtain ⟨i, hi⟩ := h.field
  have hshape : m.shape before.length = .import_ none := by
    rw [m.shape_eq, h.shapes, List.getElem?_append_right (Nat.le_refl _), Nat.sub_self]
    rfl
  rw [Module.shape, hi] at hshape
  refine ⟨i, hi, ?_⟩
  simpa [shapeOf, Field.shape] using hshape

/-- The kind of an import is set where no function was. -/
theorem names_onImportKind {c c' : ReadContext} {before : List Shape} {index : Nat}
    {kind : ImportKind} {u : Unit} (h : Named es c.module) (himporting : Importing c.module before)
    (hkind : ∀ func, kind = .func func → func.paramBindings = [] ∧ func.localBindings = [])
    (hc : onImportKind index kind c = .ok u c') : Named es c'.module := by
  obtain ⟨i, hi, hnone⟩ := himporting.field_none
  have hlt : before.length < c.module.nodes.length := by
    by_contra hge
    rw [Module.field?_eq, List.getElem?_eq_none (by rw [Module.length_fields]; omega)] at hi
    cases hi
  have hbefore : ∀ ptr, Module.address ptr = before.length →
      Module.fieldFunc ptr (c.module.field? before.length) = none := by
    intro ptr _
    obtain ⟨moduleName, fieldName, kind⟩ := i
    obtain rfl : kind = none := hnone
    rw [hi]
    cases ptr <;> rfl
  have heq := onImportKind_eq himporting hc
  have hafter : c'.module.field? before.length = some (.import_ { i with kind := some kind }) := by
    rw [heq, Module.field?_eq, Module.fields, Module.nodes_countImport,
      Module.nodes_appendItemToVector, ← Module.fields, ← Module.field?_eq,
      Module.field?_modifyField, if_pos ⟨rfl, hlt⟩, hi]
  have hkeep : ∀ ptr func, c.module.func? ptr = some func → c'.module.func? ptr = some func := by
    intro ptr func hfunc
    rw [Module.func?_eq] at hfunc ⊢
    by_cases hp : Module.address ptr = before.length
    · rw [hp, hbefore ptr hp] at hfunc
      cases hfunc
    · rw [heq, Module.field?_eq, Module.fields, Module.nodes_countImport,
        Module.nodes_appendItemToVector, ← Module.fields, ← Module.field?_eq,
        Module.field?_modifyField, if_neg fun h => hp h.1.symm]
      exact hfunc
  cases kind with
  | func func =>
    obtain ⟨hparams, hlocals⟩ := hkind func rfl
    have hold : c.module.func? (.imported before.length) = none := by
      rw [Module.func?_eq]
      exact hbefore _ rfl
    have hnew : c'.module.func? (.imported before.length) = some func := by
      rw [Module.func?_eq, Module.address, hafter]
      rfl
    exact h.append hold hkeep hnew hparams hlocals (by rw [heq]; rfl) (by rw [heq]; rfl)
  | table | memory | global =>
    have hadds : AddsFunc c.module c'.module none :=
      { funcBindings := by rw [heq]; rfl
        funcs := by
          rw [heq]
          simp [Module.countImport, Module.appendItemToVector, ImportKind.external,
            Kind.ofExternal, Module.modifyField]
        old := fun ptr func hfunc => ⟨func, hkeep ptr func hfunc, .refl func⟩
        new := fun ptr hptr => by cases hptr }
    exact h.adds hadds

theorem functionNames_append (es es' : List Event) :
    functionNames (es ++ es') = functionNames es ++ functionNames es' :=
  List.filterMap_append ..

theorem localNames_append (es es' : List Event) (func : Nat) :
    localNames (es ++ es') func = localNames es func ++ localNames es' func :=
  List.filterMap_append ..

theorem Named.skip {m : Module} {e : Event} (h : Named es m) (hname : Event.isName e = false) :
    Named (es ++ [e]) m := by
  have hfunction : functionNames [e] = [] := by
    cases e <;> first | rfl | cases hname
  have hlocal : ∀ f, localNames [e] f = [] := by
    intro f
    cases e <;> first | rfl | cases hname
  have hfunctions : functionNames (es ++ [e]) = functionNames es := by
    rw [functionNames_append, hfunction, List.append_nil]
  have hlocals : ∀ f, localNames (es ++ [e]) f = localNames es f := fun f => by
    rw [localNames_append, hlocal, List.append_nil]
  refine ⟨hfunctions ▸ h.funcs, fun f => ?_, h.nodup, hfunctions ▸ h.funcBound, fun f => ?_⟩
  · rw [hlocals]
    exact h.func f
  · rw [hlocals]
    exact h.localBound f

theorem lt_of_getElem? {α : Type} {as : List α} {i : Nat} {a : α} (h : as[i]? = some a) :
    i < as.length :=
  (List.getElem?_eq_some_iff.mp h).1

theorem names_onFunctionName {c c' : ReadContext} {index : Nat} {name : List UInt8} {u : Unit}
    (h : Named es c.module) (hc : onFunctionName index name c = .ok u c') :
    Named (es ++ [.onFunctionName index name]) c'.module := by
  obtain ⟨_, _, hget, hc⟩ := bind_eq_ok.mp hc
  cases hget
  obtain ⟨p, _, hptr, hc⟩ := bind_eq_ok.mp hc
  obtain ⟨hp, rfl⟩ := orAbort_eq_ok.mp hptr
  cases hc
  have hfunctions : functionNames (es ++ [.onFunctionName index name]) =
      functionNames es ++ [(dupName name, index)] := functionNames_append ..
  have hlocals : ∀ f, localNames (es ++ [.onFunctionName index name]) f = localNames es f :=
    fun f => (localNames_append ..).trans (List.append_nil _)
  have hbound : Named (es ++ [.onFunctionName index name])
      { c.module with funcBindings := c.module.funcBindings ++ [(dupName name, index)] } := by
    refine ⟨by rw [hfunctions, ← h.funcs], fun f => ?_, h.nodup, fun b hb => ?_, fun f => ?_⟩
    · rw [hlocals]
      exact h.func f
    · rw [hfunctions, List.mem_append, List.mem_singleton] at hb
      rcases hb with hb | rfl
      · exact h.funcBound b hb
      · exact lt_of_getElem? hp
    · rw [hlocals]
      exact h.localBound f
  exact hbound.modifyFunc (f := fun func => { func with name := dupName name })
    (fun _ => ⟨rfl, rfl, rfl⟩) p

theorem Func.Holds.concat {func : Func} {names : Insertions} (h : func.Holds names)
    (name : StringSlice) (localIndex : Nat) :
    Func.Holds (if localIndex < func.decl.sig.paramTypes.length then
        { func with paramBindings := func.paramBindings ++ [(name, localIndex)] }
      else
        { func with localBindings :=
            func.localBindings ++ [(name, localIndex - func.decl.sig.paramTypes.length)] })
      (names ++ [(name, localIndex)]) := by
  obtain ⟨hparams, hlocals⟩ := h
  split
  case isTrue hlt =>
    refine ⟨?_, ?_⟩
    · show func.paramBindings ++ [(name, localIndex)] = paramsOf func.numParams _
      rw [hparams, paramsOf, paramsOf, List.filter_append]
      simp [Func.numParams, hlt]
    · show func.localBindings = localsOf func.numParams _
      rw [hlocals, localsOf, localsOf, List.filter_append]
      simp [Func.numParams, hlt]
  case isFalse hge =>
    refine ⟨?_, ?_⟩
    · show func.paramBindings = paramsOf func.numParams _
      rw [hparams, paramsOf, paramsOf, List.filter_append]
      simp [Func.numParams, hge]
    · show func.localBindings ++ [(name, localIndex - func.numParams)] = localsOf func.numParams _
      rw [hlocals, localsOf, localsOf, List.filter_append]
      simp [Func.numParams, Nat.not_lt.mp hge]

theorem names_onLocalName {c c' : ReadContext} {funcIndex localIndex : Nat} {name : List UInt8}
    {u : Unit} (h : Named es c.module) (hc : onLocalName funcIndex localIndex name c = .ok u c') :
    Named (es ++ [.onLocalName funcIndex localIndex name]) c'.module := by
  obtain ⟨_, _, hget, hc⟩ := bind_eq_ok.mp hc
  cases hget
  obtain ⟨p, _, hptr, hc⟩ := bind_eq_ok.mp hc
  obtain ⟨hp, rfl⟩ := orAbort_eq_ok.mp hptr
  cases hc
  have hfunctions : functionNames (es ++ [.onLocalName funcIndex localIndex name]) =
      functionNames es := (functionNames_append ..).trans (List.append_nil _)
  have hlocals : ∀ f, localNames (es ++ [.onLocalName funcIndex localIndex name]) f =
      localNames es f ++ if funcIndex = f then [(dupName name, localIndex)] else [] := by
    intro f
    rw [localNames_append]
    congr 1
    by_cases hf : funcIndex = f <;> simp [localNames, hf]
  obtain ⟨hfuncs, hbindings⟩ := c.module.funcs_modifyFunc (fun func =>
    if localIndex < func.decl.sig.paramTypes.length then
      { func with paramBindings := func.paramBindings ++ [(dupName name, localIndex)] }
    else
      { func with localBindings :=
          func.localBindings ++ [(dupName name, localIndex - func.decl.sig.paramTypes.length)] }) p
  refine ⟨hbindings.trans (h.funcs.trans hfunctions.symm), fun f ptr hf => ?_, ?_, ?_, fun f hf => ?_⟩
  · replace hf : c.module.funcs[f]? = some ptr := hfuncs ▸ hf
    obtain ⟨func, hfunc, hholds⟩ := h.func f ptr hf
    show ∃ func, (c.module.modifyFunc _ p).func? ptr = some func ∧ _
    rw [hlocals, Module.func?_modifyFunc, hfunc]
    by_cases hsame : funcIndex = f
    · obtain rfl : p = ptr := by
        rw [← hsame, hp] at hf
        exact Option.some.inj hf
      rw [if_pos rfl, if_pos hsame]
      exact ⟨_, rfl, hholds.concat (dupName name) localIndex⟩
    · have hptr : p ≠ ptr := by
        rintro rfl
        exact hsame ((List.getElem?_inj (lt_of_getElem? hp) h.nodup).mp (hp.trans hf.symm))
      rw [if_neg hptr, if_neg hsame, List.append_nil]
      exact ⟨func, rfl, hholds⟩
  · exact hfuncs ▸ h.nodup
  · rw [hfunctions]
    exact fun b hb => hfuncs ▸ h.funcBound b hb
  · rw [hlocals] at hf
    by_cases hsame : funcIndex = f
    · exact hfuncs ▸ hsame ▸ lt_of_getElem? hp
    · rw [if_neg hsame, List.append_nil] at hf
      exact hfuncs ▸ h.localBound f hf

end callbacks

/-! ## The module that is read -/

theorem named_step {data : List UInt8} {es : List Event} {p p' : Proto} {o : Nat} {e : Event}
    {c c' : ReadContext} (h : Named es c.module) (hbetween : Between p c)
    (hp : Proto.step data p (o, e) = some p') (hc : astReader e c = .ok () c') :
    Named (es ++ [e]) c'.module := by
  obtain ⟨hkind, -⟩ := Proto.step_importing hp
  cases hk : e.isImportKind with
  | true =>
    rw [Between, hkind, hk] at hbetween
    obtain ⟨before, himporting⟩ := hbetween
    cases e
    case onImportFunc =>
      obtain ⟨decl, hc⟩ := onImportFunc_eq hc
      refine (names_onImportKind h himporting (fun func hfunc => ?_) hc).skip rfl
      cases hfunc
      exact ⟨rfl, rfl⟩
    case onImportTable | onImportMemory | onImportGlobal =>
      exact (names_onImportKind h himporting (fun func hfunc => by cases hfunc) hc).skip rfl
    all_goals cases hk
  | false =>
    cases hname : Event.isName e with
    | true =>
      cases e
      case onFunctionName => exact names_onFunctionName h hc
      case onLocalName => exact names_onLocalName h hc
      all_goals cases hname
    | false => exact (((names_astReader e hname hk).wp c h).of_ok hc).skip hname

theorem readBinaryAst_named {options : ReadBinaryOptions} {data : List UInt8} {c : ReadContext}
    (h : readBinaryAst options data = .ok () c) :
    Named (events { data, options }) c.module := by
  let J (read : List (ReadContext × Event)) (p : Proto) (c : ReadContext) : Prop :=
    Named (read.map Prod.snd) c.module ∧ Between p c
  have hinit : J [] .initial {} := by
    refine ⟨⟨rfl, fun f ptr hf => ?_, .nil, fun b hb => ?_, fun f hf => absurd rfl hf⟩,
      ⟨.empty, by simp [Module.shapes]⟩⟩
    · cases hf
    · cases hb
  obtain ⟨p, -, hnamed, -⟩ := wasmReadBinary_history_finished (J := J)
    (fun read p p' o e c c' hJ hp hc =>
      ⟨by rw [List.map_append]; exact named_step hJ.1 hJ.2 hp hc, between_step hJ.2 hp hc⟩) hinit h
  rwa [history_events (wasmReadBinary_eq_ok.mp h).1] at hnamed

/-! ## Looking a name up -/

/-- `wasm_get_local_index_by_var` for a name. -/
def Func.getLocalIndexByName (func : Func) (name : Name) : Option Int := do
  let params ← func.paramBindings.rawTable
  let locals ← func.localBindings.rawTable
  let result := params.findBindingIndexByName name
  if result ≠ -1 then return result
  else
    let result := locals.findBindingIndexByName name
    if result = -1 then return result else return cInt (func.numParams + result)

/-- The name is given once. -/
def GivenOnce (names : Insertions) (name : Name) (index : Nat) : Prop :=
  (some name, index) ∈ names ∧ (names.map Prod.fst).count (some name) = 1

/-- The tables are what they should be after each of the names, and a name that is given once is
found where it was given. -/
structure NamesResolve (es : List Event) (m : Module) : Prop where
  funcTable : m.funcBindings.LinkedThroughout
  localTables : ∀ (f : Nat) ptr func, m.funcs[f]? = some ptr → m.func? ptr = some func →
    func.paramBindings.LinkedThroughout ∧ func.localBindings.LinkedThroughout
  funcs : ∀ name index, GivenOnce (functionNames es) name index → index < m.funcs.length ∧
    ∃ h, m.funcBindings.rawTable = some h ∧ h.findBindingIndexByName name = index
  locals : ∀ f name localIndex, GivenOnce (localNames es f) name localIndex →
    ∃ ptr func, m.funcs[f]? = some ptr ∧ m.func? ptr = some func ∧
      func.getLocalIndexByName name = some (localIndex : Int)

/-- No name is empty, and one that is given once is given to an index that is an `int`. -/
structure Nameable (names : Insertions) : Prop where
  named : ∀ b ∈ names, b.1 ≠ none
  index : ∀ name index, GivenOnce names name index → index < 2 ^ 31

theorem cInt_eq_iff {n : Nat} : cInt n = n ↔ n < 2 ^ 31 := by
  constructor
  · intro h
    have hlt := cInt_lt n
    omega
  · intro h
    exact cInt_of_lt (by omega) (by omega)

section

variable {es : List Event} {m : Module} {func : Func} {names : Insertions}

/-- The names of a function are in its two tables. -/
theorem named_iff_tables (hholds : func.Holds names) :
    (∀ b ∈ names, b.1 ≠ none) ↔
      (∀ b ∈ func.paramBindings, b.1 ≠ none) ∧ ∀ b ∈ func.localBindings, b.1 ≠ none := by
  rw [hholds.params, hholds.locals, paramsOf, localsOf]
  constructor
  · intro h
    refine ⟨fun b hb => h b (List.mem_of_mem_filter hb), fun b hb => ?_⟩
    obtain ⟨b', hb', rfl⟩ := List.mem_map.mp hb
    exact h b' (List.mem_of_mem_filter hb')
  · rintro ⟨hparams, hlocals⟩ b hb
    by_cases hlt : b.2 < func.numParams
    · exact hparams b (List.mem_filter.mpr ⟨hb, by simpa using hlt⟩)
    · exact hlocals (b.1, b.2 - func.numParams)
        (List.mem_map.mpr ⟨b, List.mem_filter.mpr ⟨hb, by simpa using hlt⟩, rfl⟩)

theorem count_tables (names : Insertions) (numParams : Nat) (name : StringSlice) :
    (names.map Prod.fst).count name = ((paramsOf numParams names).map Prod.fst).count name +
      ((localsOf numParams names).map Prod.fst).count name := by
  induction names with
  | nil => rfl
  | cons b names ih =>
    rw [List.map_cons, List.count_cons, ih]
    by_cases hlt : b.2 < numParams
    · simp only [paramsOf, localsOf, List.filter_cons, hlt, decide_true, decide_false, if_true,
        not_true_eq_false, Bool.false_eq_true, if_false, List.map_cons, List.count_cons]
      omega
    · simp only [paramsOf, localsOf, List.filter_cons, hlt, decide_true, decide_false, if_true,
        not_false_eq_true, Bool.false_eq_true, if_false, List.map_cons, List.count_cons]
      omega

/-- A name of a function that is given once is found just when its index is an `int`. -/
theorem getLocalIndexByName_iff (hholds : func.Holds names) (hnamed : ∀ b ∈ names, b.1 ≠ none)
    {name : Name} {index : Nat} (honce : GivenOnce names name index) :
    func.getLocalIndexByName name = some (index : Int) ↔ index < 2 ^ 31 := by
  obtain ⟨hmem, hcount⟩ := honce
  obtain ⟨hparamsNamed, hlocalsNamed⟩ := (named_iff_tables hholds).mp hnamed
  obtain ⟨params, hparams, -, hfoundParam, hnotParam⟩ := Insertions.rawTable_spec hparamsNamed
  obtain ⟨locals, hlocals, -, hfoundLocal, hnotLocal⟩ := Insertions.rawTable_spec hlocalsNamed
  rw [count_tables names func.numParams, ← hholds.params, ← hholds.locals] at hcount
  have hvalue : func.getLocalIndexByName name =
      if params.findBindingIndexByName name ≠ -1 then some (params.findBindingIndexByName name)
      else if locals.findBindingIndexByName name = -1 then
        some (locals.findBindingIndexByName name)
      else some (cInt (func.numParams + locals.findBindingIndexByName name)) := by
    rw [Func.getLocalIndexByName, hparams, hlocals]
    rfl
  rw [hvalue]
  by_cases hlt : index < func.numParams
  · have hin : (some name, index) ∈ func.paramBindings := by
      rw [hholds.params]
      exact List.mem_filter.mpr ⟨hmem, by simpa using hlt⟩
    have hpos : 0 < (func.paramBindings.map Prod.fst).count (some name) :=
      List.count_pos_iff.mpr (List.mem_map.mpr ⟨_, hin, rfl⟩)
    have hlocal := hnotLocal name (List.count_eq_zero.mp (by omega))
    rw [hfoundParam name index hin (by omega), hlocal, ← cInt_eq_iff]
    by_cases hminus : cInt index = -1
    · simp [hminus]
    · simp [hminus]
  · have hin : (some name, index - func.numParams) ∈ func.localBindings := by
      rw [hholds.locals]
      exact List.mem_map.mpr ⟨_, List.mem_filter.mpr ⟨hmem, by simpa using hlt⟩, rfl⟩
    have hpos : 0 < (func.localBindings.map Prod.fst).count (some name) :=
      List.count_pos_iff.mpr (List.mem_map.mpr ⟨_, hin, rfl⟩)
    have hparam := hnotParam name (List.count_eq_zero.mp (by omega))
    rw [hfoundLocal name _ hin (by omega), hparam, if_neg (by simp)]
    constructor
    · intro h
      split at h
      case isTrue hminus =>
        rw [hminus, Option.some.injEq] at h
        omega
      case isFalse hfound =>
        rw [Option.some.injEq] at h
        have hbound := cInt_lt (func.numParams + cInt ((index - func.numParams : Nat) : Int))
        omega
    · intro h
      rw [cInt_of_lt (by omega) (by omega), if_neg (by omega), cInt_of_lt (by omega) (by omega)]
      congr 1
      omega

theorem Named.func_of_names {f : Nat} (h : Named es m) (hnames : localNames es f ≠ []) :
    ∃ ptr func, m.funcs[f]? = some ptr ∧ m.func? ptr = some func ∧
      func.Holds (localNames es f) := by
  have hptr := List.getElem?_eq_getElem (h.localBound f hnames)
  obtain ⟨func, hfunc, hholds⟩ := h.func f _ hptr
  exact ⟨_, func, hptr, hfunc, hholds⟩

theorem Named.nameable (h : Named es m) (hresolve : NamesResolve es m) :
    Nameable (functionNames es) ∧ ∀ f, Nameable (localNames es f) := by
  have hfuncNames : ∀ b ∈ functionNames es, b.1 ≠ none := by
    rw [← h.funcs]
    exact Insertions.linkedThroughout_iff.mp hresolve.funcTable
  refine ⟨⟨hfuncNames, fun name index honce => ?_⟩, fun f => ?_⟩
  · obtain ⟨table, htable, -, hfound, -⟩ := Insertions.rawTable_spec hfuncNames
    obtain ⟨-, table', htable', hindex⟩ := hresolve.funcs name index honce
    rw [h.funcs, htable, Option.some.injEq] at htable'
    subst htable'
    rw [hfound name index honce.1 honce.2] at hindex
    exact cInt_eq_iff.mp hindex
  · have hlocalNames : ∀ b ∈ localNames es f, b.1 ≠ none := by
      intro b hb
      obtain ⟨ptr, func, hptr, hfunc, hholds⟩ := h.func_of_names (List.ne_nil_of_mem hb)
      obtain ⟨hparams, hlocals⟩ := hresolve.localTables f ptr func hptr hfunc
      exact (named_iff_tables hholds).mpr ⟨Insertions.linkedThroughout_iff.mp hparams,
        Insertions.linkedThroughout_iff.mp hlocals⟩ b hb
    refine ⟨hlocalNames, fun name index honce => ?_⟩
    obtain ⟨ptr, func, hptr, hfunc, hfound⟩ := hresolve.locals f name index honce
    obtain ⟨func', hfunc', hholds⟩ := h.func f ptr hptr
    rw [hfunc, Option.some.injEq] at hfunc'
    subst hfunc'
    exact (getLocalIndexByName_iff hholds hlocalNames honce).mp hfound

theorem Named.namesResolve (h : Named es m) (hfuncNames : Nameable (functionNames es))
    (hlocalNames : ∀ f, Nameable (localNames es f)) : NamesResolve es m := by
  refine ⟨?_, fun f ptr func hptr hfunc => ?_, fun name index honce => ?_,
    fun f name index honce => ?_⟩
  · rw [h.funcs]
    exact Insertions.linkedThroughout_of_named hfuncNames.named
  · obtain ⟨func', hfunc', hholds⟩ := h.func f ptr hptr
    rw [hfunc, Option.some.injEq] at hfunc'
    subst hfunc'
    obtain ⟨hparams, hlocals⟩ := (named_iff_tables hholds).mp (hlocalNames f).named
    exact ⟨Insertions.linkedThroughout_of_named hparams,
      Insertions.linkedThroughout_of_named hlocals⟩
  · obtain ⟨table, htable, -, hfound, -⟩ := Insertions.rawTable_spec hfuncNames.named
    refine ⟨h.funcBound _ honce.1, table, by rw [h.funcs, htable], ?_⟩
    rw [hfound name index honce.1 honce.2]
    exact cInt_eq_iff.mpr (hfuncNames.index name index honce)
  · obtain ⟨ptr, func, hptr, hfunc, hholds⟩ := h.func_of_names (List.ne_nil_of_mem honce.1)
    exact ⟨ptr, func, hptr, hfunc, (getLocalIndexByName_iff hholds (hlocalNames f).named honce).mpr
      ((hlocalNames f).index name index honce)⟩

end

/-- After any read, the names of the section are found just when none of them is empty and the
indices are `int`s. -/
theorem readBinaryAst_names_iff {options : ReadBinaryOptions} {data : List UInt8} {c : ReadContext}
    (hread : readBinaryAst options data = .ok () c) :
    NamesResolve (events { data, options }) c.module ↔
      Nameable (functionNames (events { data, options })) ∧
        ∀ f, Nameable (localNames (events { data, options }) f) := by
  have hnamed := readBinaryAst_named hread
  exact ⟨hnamed.nameable, fun ⟨hfuncs, hlocals⟩ => hnamed.namesResolve hfuncs hlocals⟩

/-- Three imported functions, named `b`, `j` and the empty name, which share a main entry. -/
def emptyName : List UInt8 :=
  [0x00, 0x61, 0x73, 0x6d, 0x0d, 0x00, 0x00, 0x00,
   0x01, 0x04, 0x01, 0x60, 0x00, 0x00,
   0x02, 0x13, 0x03, 0x01, 0x6d, 0x01, 0x66, 0x00, 0x00, 0x01, 0x6d, 0x01, 0x66, 0x00, 0x00,
   0x01, 0x6d, 0x01, 0x66, 0x00, 0x00,
   0x00, 0x0e, 0x04, 0x6e, 0x61, 0x6d, 0x65, 0x03,
   0x01, 0x62, 0x00, 0x01, 0x6a, 0x00, 0x00, 0x00]

theorem emptyName_read : ∃ c, readBinaryAst { readDebugNames := true } emptyName = .ok () c ∧
    c.module.funcBindings = [(some [0x62], 0), (some [0x6a], 1), (none, 2)] := by
  have hread : (readBinaryAst { readDebugNames := true } emptyName).ok?.map
      (fun r => r.2.module.funcBindings) = some [(some [0x62], 0), (some [0x6a], 1), (none, 2)] := by
    decide +kernel
  obtain ⟨⟨u, c⟩, hok, hbindings⟩ := Option.map_eq_some_iff.mp hread
  exact ⟨c, Outcome.ok?_eq_some.mp hok, hbindings⟩

theorem readBinaryAst_names_iff_emptyName :
    ∃ c, readBinaryAst { readDebugNames := true } emptyName = .ok () c ∧
      (NamesResolve (events { data := emptyName, options := { readDebugNames := true } }) c.module ↔
        Nameable (functionNames
            (events { data := emptyName, options := { readDebugNames := true } })) ∧
          ∀ f, Nameable (localNames
            (events { data := emptyName, options := { readDebugNames := true } }) f)) := by
  obtain ⟨c, hread, -⟩ := emptyName_read
  exact ⟨c, hread, readBinaryAst_names_iff hread⟩

/-- `j` is not found: the entry of the empty name, before it on the chain, looks free. -/
theorem emptyName_not_resolve : ¬∀ (options : ReadBinaryOptions) (data : List UInt8)
    (c : ReadContext), readBinaryAst options data = .ok () c →
      NamesResolve (events { data, options }) c.module := by
  intro h
  obtain ⟨c, hread, hbindings⟩ := emptyName_read
  have hnames : functionNames (events { data := emptyName, options := { readDebugNames := true } }) =
      [(some [0x62], 0), (some [0x6a], 1), (none, 2)] := by
    decide +kernel
  obtain ⟨-, table, htable, hfound⟩ := (h _ emptyName c hread).funcs [0x6a] 1
    (by rw [hnames]; exact ⟨by decide, by decide⟩)
  have hlookup : (Insertions.rawTable [(some [0x62], 0), (some [0x6a], 1), (none, 2)]).map
      (fun table => table.findBindingIndexByName [0x6a]) = some (-1) := by
    decide
  rw [← hbindings, htable, Option.map_some, hfound] at hlookup
  cases hlookup

end Linked

end Text

end SexprWasm
