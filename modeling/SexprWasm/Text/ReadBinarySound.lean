import SexprWasm.Text.ModuleFieldsSound
import SexprWasm.BinaryReader.ProtocolSound

/-!
# One module, seen in two ways

A callback of the reader that links a field sets it and puts what it
holds into a vector, except for `on_import`: the import it appends has a
kind, and is in the vector of that kind, only after the callback that
follows. That one does follow, by the order of the callbacks, so a
module that was read is consistent; one that was parsed is consistent
unless an `export` of its own is among its fields.
-/

namespace SexprWasm

/-- The reader is between the callbacks of an import. -/
def Phase.importing : Phase → Bool
  | .importKind _ _ => true
  | _ => false

/-- The callback for the kind of an import. -/
def Event.isImportKind : Event → Bool
  | .onImportFunc .. | .onImportTable .. | .onImportMemory .. | .onImportGlobal .. => true
  | _ => false

def Event.isImport : Event → Bool
  | .onImport .. => true
  | _ => false

theorem Proto.step_importing {data : List UInt8} {p p' : Proto} {o : Nat} {e : Event}
    (h : Proto.step data p (o, e) = some p') :
    p.phase.importing = e.isImportKind ∧ p'.phase.importing = e.isImport := by
  cases e
  all_goals
    simp only [Proto.step, Proto.goto, Proto.entry, Proto.endSection, Proto.beginEntry,
      Proto.importDone, Proto.beginInit, Proto.endInit, Proto.beginSection, Proto.bodyStep,
      Option.map_if] at h
    repeat' split at h
  all_goals cases h
  all_goals simp_all [Phase.importing, Event.isImportKind, Event.isImport]

namespace Text

namespace Linked

open Callback Links

/-- Every field was set, and what it holds is in the vectors. -/
structure Settled (m : Module) : Prop extends Built m where
  set : .zero ∉ m.shapes

/-- `m` has an import at the end that waits for its kind. -/
structure Importing (m : Module) (before : List Shape) : Prop extends InOrder m where
  shapes : m.shapes = before ++ [.import_ none]
  initialised : ∀ s ∈ before, s.initialised = true
  vector : ∀ k, m.vector k =
    entities k before 0 ++ if k = .import_ then [.own before.length] else []
  numImports : ∀ e, m.numImports e = before.countP (·.imports e)

variable {m : Module}

theorem Settled.tracks (h : Settled m) : Tracks m m.shapes := map_settled h.set ▸ h.toTracks

theorem Settled.of_adds {m' : Module} (h : Settled m) (added : List Shape) (hadds : Adds m m' added)
    (hset : .zero ∉ added) : Settled m' :=
  ⟨hadds.built h.toBuilt, by simp [hadds.shapes, h.set, hset]⟩

theorem Settled.initialised (h : Settled m) : ∀ s ∈ m.shapes, s.initialised = true :=
  fun s hs => h.set_or_zero s hs fun hz => h.set (hz ▸ hs)

theorem Settled.modifyField (h : Settled m) (p : Nat) {f : Option Field → Option Field}
    (hf : ∀ field, shapeOf (f field) = shapeOf field) : Settled (m.modifyField p f) :=
  ⟨h.toBuilt.modifyField p hf, by rw [m.shapes_modifyField_self p hf]; exact h.set⟩

theorem Settled.modifyFunc (h : Settled m) (f : Func → Func) (ptr : Pointer) :
    Settled (m.modifyFunc f ptr) :=
  ⟨h.toBuilt.modifyFunc f ptr, by rw [m.shapes_modifyFunc]; exact h.set⟩

/-! ## The callbacks that keep a module settled -/

/-- The invariant outside of an import. -/
abbrev Keeps (c : ReadContext) : Prop := Settled c.module

theorem keeps_appendEntity {field : Field} {k : Kind} (hs : field.shape = .own k) :
    Preserves Keeps (appendEntity field k) :=
  Preserves.modify fun c h => h.of_adds [.own k]
    ⟨fun h => h.append hs, by simp [hs]⟩ (by simp)

instance keeps_modifyFunc (f : Func → Func) (p : Pointer) :
    Preserves Keeps (modifyModule fun m => m.modifyFunc f p) :=
  Preserves.modify fun _ h => h.modifyFunc f p

theorem keeps_modifyField {f : Option Field → Option Field}
    (hf : ∀ field, shapeOf (f field) = shapeOf field) (p : Nat) :
    Preserves Keeps (modifyModule fun m => m.modifyField p f) :=
  Preserves.modify fun _ h => h.modifyField p hf

section labels

variable {P : Module → Prop}

/-- A change of the context apart from its module. -/
theorem preserves_modify {f : ReadContext → ReadContext} (hf : ∀ c, (f c).module = c.module) :
    Preserves (fun c => P c.module) (modify f) :=
  Preserves.modify fun c h => by
    show P (f c).module
    rwa [hf]

instance preserves_pushLabel (owner : LabelOwner) :
    Preserves (fun c => P c.module) (pushLabel owner) :=
  preserves_modify fun _ => rfl

instance preserves_appendExpr (e : Expr) : Preserves (fun c => P c.module) (appendExpr e) where
  wp c h := by
    rw [wp, appendExpr]
    cases c.labelStack <;> exact h

instance preserves_onElseExpr : Preserves (fun c => P c.module) onElseExpr where
  wp c h := by
    rw [wp, onElseExpr]
    split <;> rename_i heq
    · split at heq <;> cases heq
      exact h
    · split at heq <;> cases heq
      exact h
    · split at heq <;> cases heq

/-- Of a module, the label of a function only changes the body of that function. -/
theorem preserves_popLabel (hbody : ∀ m p firstExpr, P m →
      P (m.modifyFunc (fun func => { func with firstExpr }) p)) :
    Preserves (fun c => P c.module) popLabel where
  wp c h := by
    rw [wp, popLabel]
    cases c.labelStack with
    | nil => exact h
    | cons label rest =>
      show P (c.plug label rest).module
      rw [ReadContext.plug]
      cases label.owner with
      | func p => exact hbody c.module p label.exprs h
      | block | loop | if_ | else_ => cases rest <;> exact h

theorem preserves_onExpr (hbody : ∀ m p firstExpr, P m →
      P (m.modifyFunc (fun func => { func with firstExpr }) p)) (instr : Instr) :
    Preserves (fun c => P c.module) (onExpr instr) := by
  have hpop := preserves_popLabel hbody
  cases instr
  all_goals
    rw [onExpr]
    infer_instance

end labels

theorem keeps_modify {f : ReadContext → ReadContext} (hf : ∀ c, (f c).module = c.module) :
    Preserves Keeps (modify f) := preserves_modify hf

instance keeps_pushLabel (owner : LabelOwner) : Preserves Keeps (pushLabel owner) :=
  preserves_pushLabel owner

instance keeps_popLabel : Preserves Keeps popLabel :=
  preserves_popLabel fun _ p _ h => h.modifyFunc _ p

instance keeps_onExpr (instr : Instr) : Preserves Keeps (onExpr instr) :=
  preserves_onExpr (fun _ p _ h => h.modifyFunc _ p) instr

instance keeps_declOfType (sigIndex : Nat) : Preserves Keeps (declOfType sigIndex) := by
  unfold declOfType
  infer_instance

instance keeps_onFunctionSignature (sigIndex : Nat) :
    Preserves Keeps (onFunctionSignature sigIndex) :=
  Preserves.seq fun decl => keeps_appendEntity rfl

instance keeps_onExport (kind : ExternalKind) (itemIndex : Nat) (name : List UInt8) :
    Preserves Keeps (onExport kind itemIndex name) :=
  Preserves.seq fun _ => Preserves.seq fun _ => keeps_appendEntity rfl

instance keeps_onStartFunction (funcIndex : Nat) : Preserves Keeps (onStartFunction funcIndex) :=
  Preserves.seq fun _ => Preserves.seq fun _ => Preserves.modify fun c h =>
    h.of_adds _ (adds_start (.index funcIndex)) (by simp)

instance keeps_beginFunctionBody (index : Nat) : Preserves Keeps (beginFunctionBody index) :=
  Preserves.seq fun _ => Preserves.seq fun _ => Preserves.seq fun p =>
    have : Preserves Keeps (modify fun c : ReadContext => { c with currentFunc := some p }) :=
      keeps_modify fun _ => rfl
    Preserves.seq fun _ => keeps_pushLabel _

instance keeps_onLocalDecl (count : Nat) (type : ValueType) :
    Preserves Keeps (onLocalDecl count type) := by
  unfold onLocalDecl
  infer_instance

instance keeps_endFunctionBody : Preserves Keeps endFunctionBody :=
  Preserves.seq fun _ => keeps_modify fun _ => rfl

instance keeps_beginGlobalInitExpr (index : Nat) : Preserves Keeps (beginGlobalInitExpr index) :=
  Preserves.seq fun _ => Preserves.seq fun _ => Preserves.seq fun _ => keeps_modify fun _ => rfl

instance keeps_beginSegmentInitExpr (kind : Kind) (index : Nat) :
    Preserves Keeps (beginSegmentInitExpr kind index) :=
  Preserves.seq fun _ => Preserves.seq fun _ => Preserves.seq fun _ => keeps_modify fun _ => rfl

instance keeps_endInitExpr : Preserves Keeps endInitExpr := keeps_modify fun _ => rfl

instance keeps_onInitExpr (e : InitExpr) : Preserves Keeps (onInitExpr e) := by
  refine Preserves.seq fun c => ?_
  split
  · refine keeps_modifyField (fun field => ?_) _
    unfold setInitExpr
    split <;> rfl
  · infer_instance

theorem keeps_beginSegment {field : Field} {kind : Kind} (hs : field.shape = .own kind) (index : Nat) :
    Preserves Keeps (beginSegment field kind index) :=
  Preserves.seq fun _ => Preserves.seq fun _ => keeps_appendEntity hs

theorem keeps_modifySegment {f : Option Field → Option Field}
    (hf : ∀ field, shapeOf (f field) = shapeOf field) (kind : Kind) (index : Nat) :
    Preserves Keeps (modifySegment kind index f) := by
  refine Preserves.seq fun c => Preserves.seq fun _ => ?_
  split
  · exact keeps_modifyField hf _
  · infer_instance

instance keeps_onFunctionName (index : Nat) (name : List UInt8) :
    Preserves Keeps (onFunctionName index name) := by
  refine Preserves.seq fun c => Preserves.seq fun p => Preserves.modify fun c h => ?_
  have hbuilt : Settled { c.module with
      funcBindings := c.module.funcBindings ++ [(dupName name, index)] } :=
    ⟨h.toBuilt.congr rfl rfl (fun k => by cases k <;> rfl) (fun e => by cases e <;> rfl), h.set⟩
  exact hbuilt.modifyFunc _ p

instance keeps_onLocalName (funcIndex localIndex : Nat) (name : List UInt8) :
    Preserves Keeps (onLocalName funcIndex localIndex name) := by
  unfold onLocalName
  infer_instance

theorem keeps_astReader (e : Event) (himport : e.isImport = false)
    (hkind : e.isImportKind = false) : Preserves Keeps (astReader e) := by
  cases e
  case onSignature | onTable | onMemory | beginGlobal => exact keeps_appendEntity rfl
  case onImport => cases himport
  case onImportFunc | onImportTable | onImportMemory | onImportGlobal => cases hkind
  case beginElemSegment | beginDataSegment => exact keeps_beginSegment rfl _
  case onElemSegmentFunctionIndexCount => exact keeps_modifySegment (fun _ => rfl) _ _
  case onElemSegmentFunctionIndex funcIndex =>
    refine keeps_modifySegment (fun field => ?_) _ _
    unfold addVar
    split <;> rfl
  case onDataSegmentData data =>
    refine keeps_modifySegment (fun field => ?_) _ _
    unfold setData
    split <;> rfl
  case onFunctionBodiesCount =>
    unfold astReader onFunctionBodiesCount
    infer_instance
  case onFunctionNamesCount =>
    unfold astReader onFunctionNamesCount
    infer_instance
  case onLocalNamesCount =>
    unfold astReader onLocalNamesCount
    infer_instance
  all_goals
    unfold astReader
    infer_instance

/-! ## The callbacks of an import -/

theorem onImport_spec {c c' : ReadContext} {index : Nat} {moduleName fieldName : List UInt8} {u : Unit}
    (h : Keeps c) (hc : astReader (.onImport index moduleName fieldName) c = .ok u c') :
    Importing c'.module c.module.shapes := by
  cases hc
  exact
    { (h.toInOrder.appendFieldToList _).congr (Module.links_appendItemToVector ..) with
      shapes := by simp [Field.shape]
      initialised := h.initialised
      vector := fun k => by
        rw [Module.vector_appendItemToVector, Module.vector_appendFieldToList, h.tracks.vector,
          Module.length_shapes]
      numImports := fun e => by
        rw [Module.numImports_appendItemToVector, Module.numImports_appendFieldToList,
          h.tracks.numImports] }

theorem Importing.field {before : List Shape} (h : Importing m before) :
    ∃ i : Import, m.field? before.length = some (.import_ i) := by
  have hshape : m.shape before.length = .import_ none := by
    rw [m.shape_eq, h.shapes, List.getElem?_append_right (Nat.le_refl _), Nat.sub_self]
    rfl
  rw [Module.shape, shapeOf] at hshape
  cases hfield : m.field? before.length with
  | none =>
    rw [hfield] at hshape
    cases hshape
  | some field =>
    rw [hfield] at hshape
    cases field
    case import_ i => exact ⟨i, rfl⟩
    all_goals cases hshape

theorem Importing.complete {before : List Shape} (h : Importing m before) (kind : ImportKind)
    {f : Option Field → Option Field}
    (hf : ∀ i : Import, f (some (.import_ i)) = some (.import_ { i with kind := some kind })) :
    Settled (((m.modifyField before.length f).appendItemToVector (.imported before.length)
      (.ofExternal kind.external)).countImport kind.external) := by
  have hshapes : (m.modifyField before.length f).shapes =
      before ++ [.import_ (some kind.external)] := by
    obtain ⟨i, hi⟩ := h.field
    rw [Module.shapes_modifyField (s := .import_ (some kind.external)) _ _ (by rw [hi, hf]; rfl),
      h.shapes, List.set_append_right _ _ (Nat.le_refl _), Nat.sub_self]
    rfl
  have hset : Shape.zero ∉ before ++ [.import_ (some kind.external)] := by
    intro hz
    rcases List.mem_append.mp hz with hz | hz
    · cases h.initialised _ hz
    · simp at hz
  have hnew : ∀ s ∈ before ++ [Shape.import_ (some kind.external)], s.initialised = true := by
    intro s hs
    rcases List.mem_append.mp hs with hs | hs
    · exact h.initialised s hs
    · rw [List.mem_singleton.mp hs]
      rfl
  generalize kind.external = e at hshapes hset hnew ⊢
  exact
    { (h.toInOrder.congr (by simp) : InOrder (((m.modifyField before.length f).appendItemToVector
          (.imported before.length) (.ofExternal e)).countImport e)) with
      vector := fun k => by
        simp only [Module.vector_countImport, Module.vector_appendItemToVector,
          Module.vector_modifyField, h.vector, Module.shapes_countImport,
          Module.shapes_appendItemToVector, hshapes, map_settled hset, entities_append,
          entities_singleton, Nat.zero_add, List.append_assoc]
        cases k <;> cases e <;> simp [Shape.entity, Kind.ofExternal, importKind]
      numImports := fun e' => by
        simp only [Module.numImports_countImport, Module.numImports_appendItemToVector,
          Module.numImports_modifyField, h.numImports, Module.shapes_countImport,
          Module.shapes_appendItemToVector, hshapes, map_settled hset, List.countP_append]
        cases e <;> cases e' <;> simp [Shape.imports, importKind]
      set_or_zero := fun s hs _ => by
        rw [Module.shapes_countImport, Module.shapes_appendItemToVector, hshapes] at hs
        exact hnew s hs
      set := by
        rw [Module.shapes_countImport, Module.shapes_appendItemToVector, hshapes]
        exact hset }

/-- The callback for the kind of an import sets it in the field of that import. -/
theorem onImportKind_eq {c c' : ReadContext} {before : List Shape} {index : Nat}
    {kind : ImportKind} {u : Unit} (h : Importing c.module before)
    (hc : onImportKind index kind c = .ok u c') :
    c'.module = ((c.module.modifyField before.length fun
      | some (.import_ i) => some (.import_ { i with kind := some kind })
      | field => field).appendItemToVector (.imported before.length)
        (.ofExternal kind.external)).countImport kind.external := by
  obtain ⟨_, _, hget, hc⟩ := bind_eq_ok.mp hc
  cases hget
  obtain ⟨_, _, hassert, hc⟩ := bind_eq_ok.mp hc
  obtain ⟨hlast, rfl⟩ := assert_eq_ok.mp hassert
  have hvector : c.module.imports = entities .import_ before 0 ++ [.own before.length] :=
    h.vector .import_
  have hptr : c.module.imports[index]? = some (.own before.length) := by
    have hindex : index = (entities .import_ before 0).length := by
      rw [decide_eq_true_iff, hvector, List.length_append, List.length_singleton] at hlast
      omega
    rw [hvector, hindex, List.getElem?_append_right (Nat.le_refl _), Nat.sub_self]
    rfl
  rw [hptr] at hc
  cases hc
  rfl

theorem onImportKind_spec {c c' : ReadContext} {before : List Shape} {index : Nat}
    {kind : ImportKind} {u : Unit} (h : Importing c.module before)
    (hc : onImportKind index kind c = .ok u c') : Settled c'.module := by
  rw [onImportKind_eq h hc]
  exact h.complete kind fun _ => rfl

/-- The callback of an imported function does that for a function of the type it is given. -/
theorem onImportFunc_eq {c c' : ReadContext} {index sigIndex : Nat} {u : Unit}
    (hc : onImportFunc index sigIndex c = .ok u c') :
    ∃ decl, onImportKind index (.func { decl }) c = .ok u c' := by
  obtain ⟨decl, c₁, hdecl, hc⟩ := bind_eq_ok.mp hc
  obtain ⟨_, _, hget, hdecl⟩ := bind_eq_ok.mp hdecl
  cases hget
  obtain ⟨_, _, hptr, hdecl⟩ := bind_eq_ok.mp hdecl
  obtain ⟨-, rfl⟩ := orAbort_eq_ok.mp hptr
  obtain ⟨_, _, htype, hdecl⟩ := bind_eq_ok.mp hdecl
  obtain ⟨-, rfl⟩ := orAbort_eq_ok.mp htype
  cases hdecl
  exact ⟨_, hc⟩

theorem astReader_kind_spec {c c' : ReadContext} {before : List Shape} {e : Event} {u : Unit}
    (h : Importing c.module before) (he : e.isImportKind = true)
    (hc : astReader e c = .ok u c') : Settled c'.module := by
  cases e
  case onImportFunc index sigIndex =>
    obtain ⟨decl, hc⟩ := onImportFunc_eq hc
    exact onImportKind_spec h hc
  case onImportTable => exact onImportKind_spec h hc
  case onImportMemory => exact onImportKind_spec h hc
  case onImportGlobal => exact onImportKind_spec h hc
  all_goals cases he

/-! ## The modules that are built -/

/-- What holds of a module between two callbacks. -/
def Between (p : Proto) (c : ReadContext) : Prop :=
  if p.phase.importing then ∃ before, Importing c.module before else Settled c.module

theorem between_step {data : List UInt8} {p p' : Proto} {o : Nat} {e : Event} {c c' : ReadContext}
    {u : Unit} (h : Between p c) (hp : Proto.step data p (o, e) = some p')
    (hc : astReader e c = .ok u c') : Between p' c' := by
  obtain ⟨hkind, himport⟩ := Proto.step_importing hp
  unfold Between at h ⊢
  rw [hkind] at h
  rw [himport]
  cases hk : e.isImportKind with
  | true =>
    rw [hk] at h
    obtain ⟨before, hb⟩ := h
    have hnot : e.isImport = false := by
      cases e <;> first | rfl | cases hk
    rw [hnot]
    exact astReader_kind_spec hb hk hc
  | false =>
    rw [hk] at h
    cases hi : e.isImport with
    | true =>
      cases e <;> cases hi
      exact ⟨_, onImport_spec h hc⟩
    | false => exact ((keeps_astReader e hi hk).wp c h).of_ok hc

theorem readBinaryAst_settled {options : ReadBinaryOptions} {data : List UInt8} {c : ReadContext}
    {u : Unit} (h : readBinaryAst options data = .ok u c) : Settled c.module := by
  have hempty : Settled {} := ⟨.empty, by simp [Module.shapes]⟩
  obtain ⟨p, hfinished, hbetween⟩ := (BinaryReader.wasmReadBinary_invariant (J := Between)
    (E := fun _ => True) (P := fun _ _ => True)
    (fun p p' o e s hJ hp => ⟨fun s' hs _ => between_step hJ hp hs, fun _ _ => trivial⟩)
    (show Between .initial {} from hempty) (fun _ _ _ => trivial) (allSteps_of_forall (fun _ _ => trivial) _ _)).1 c h
  unfold Between at hbetween
  rw [hfinished] at hbetween
  exact hbetween

/-! Errors are counted and never taken back. -/

section errors

variable {n : Nat}

/-- At least `n` errors were reported. -/
abbrev Reported (n errors : Nat) : Prop := n ≤ errors

instance reported_parserError : Preserves (Reported n) parserError :=
  Preserves.modify fun _ h => Nat.le_succ_of_le h

instance reported_checkImportOrdering (m : Module) (kind : ExternalKind) :
    Preserves (Reported n) (m.checkImportOrdering kind) := by
  unfold Module.checkImportOrdering
  infer_instance

instance reported_appendField (m : Module) (syntax_ : FieldSyntax) :
    Preserves (Reported n) (m.appendField syntax_) := by
  cases syntax_
  all_goals
    unfold Module.appendField
    infer_instance

theorem reported_foldlM {α β : Type} {f : β → α → Action β} (hf : ∀ b a, Preserves (Reported n) (f b a)) :
    ∀ (l : List α) (b : β), Preserves (Reported n) (l.foldlM f b)
  | [], b => Preserves.pure b
  | a :: l, b => by
      rw [List.foldlM_cons]
      have := hf b a
      exact Preserves.seq fun b' => reported_foldlM hf l b'

instance reported_rawModule (syntax_ : RawModuleSyntax) :
    Preserves (Reported n) (rawModule syntax_) := by
  cases syntax_ with
  | text name fields =>
    have : Preserves (Reported n) (Module.moduleFields fields) :=
      reported_foldlM (fun _ _ => inferInstance) fields ({} : Module)
    exact Preserves.seq fun _ => inferInstance
  | binary name data => exact Preserves.pure _

instance reported_module (syntax_ : RawModuleSyntax) : Preserves (Reported n) (module syntax_) := by
  refine Preserves.seq fun raw => ?_
  split
  · infer_instance
  · split <;> infer_instance

instance reported_command (syntax_ : CommandSyntax) : Preserves (Reported n) (command syntax_) := by
  cases syntax_
  all_goals
    unfold command
    infer_instance

instance reported_appendCommand (script : List Command) (syntax_ : CommandSyntax) :
    Preserves (Reported n) (appendCommand script syntax_) :=
  Preserves.seq fun _ => Preserves.pure _

end errors

/-- A module built for a command is consistent just if it has no `export` of its own. -/
def Builds (syntax_ : CommandSyntax) (built : Command) : Prop :=
  ∀ m, built.module? = some m → ((∃ met, Consistent m met) ↔ syntax_.exports = false)

theorem rawModule_builds {syntax_ : RawModuleSyntax} {raw : RawModule} {errors errors' : Nat}
    (h : rawModule syntax_ errors = .ok raw errors') {m : Module} (hm : raw.module? = some m) :
    (∃ met, Consistent m met) ↔ syntax_.exports = false := by
  cases syntax_ with
  | text name fields =>
    obtain ⟨m', rfl, hbuilt, hzero⟩ := rawModule_spec h
    cases hm
    rw [hbuilt.consistent_iff, hzero, RawModuleSyntax.exports]
    simp
  | binary name data =>
    cases h
    cases hm

theorem module_builds {syntax_ : RawModuleSyntax} {m : Module} {errors : Nat}
    (h : module syntax_ errors = .ok m 0) :
    (∃ met, Consistent m met) ↔ syntax_.exports = false := by
  obtain ⟨raw, errors₁, hraw, h⟩ := bind_eq_ok.mp h
  cases syntax_ with
  | text name fields =>
    obtain ⟨m', rfl, -, -⟩ := rawModule_spec hraw
    cases h
    exact rawModule_builds hraw rfl
  | binary name data =>
    cases hraw
    cases hread : readBinaryAst { readDebugNames := false } data with
    | ok _ c =>
      simp only [hread] at h
      cases h
      have hs := readBinaryAst_settled hread
      have hnamed : Built { c.module with name } :=
        hs.toBuilt.congr rfl rfl (fun k => by cases k <;> rfl) fun e => by cases e <;> rfl
      exact ⟨fun _ => rfl, fun _ => ⟨_, hnamed.consistent hs.set⟩⟩
    | error c =>
      -- a failed read is an error, which the parser does not forget
      simp only [hread] at h
      obtain ⟨_, _, herror, h⟩ := bind_eq_ok.mp h
      cases herror
      cases h
    | abort =>
      simp only [hread] at h
      cases h

theorem command_builds {syntax_ : CommandSyntax} {built : Command} {errors : Nat}
    (h : command syntax_ errors = .ok built 0) : Builds syntax_ built := by
  intro m hm
  cases syntax_ with
  | module raw =>
    obtain ⟨m', _, hmodule, h⟩ := bind_eq_ok.mp h
    cases h
    cases hm
    exact module_builds hmodule
  | assertMalformed raw | assertInvalid raw | assertUnlinkable raw | assertUninstantiable raw =>
    obtain ⟨_, _, hraw, h⟩ := bind_eq_ok.mp h
    cases h
    exact rawModule_builds hraw hm
  | other =>
    cases h
    cases hm

theorem cmdList_builds : ∀ (commands : List CommandSyntax) {script script' : List Command} {errors : Nat},
    commands.foldlM appendCommand script errors = .ok script' 0 →
      ∃ built, script' = script ++ built ∧ List.Forall₂ Builds commands built
  | [], script, script', errors, h => by
      cases h
      exact ⟨[], (List.append_nil _).symm, .nil⟩
  | syntax_ :: commands, script, script', errors, h => by
      rw [List.foldlM_cons] at h
      obtain ⟨script₁, errors₁, hhead, htail⟩ := bind_eq_ok.mp h
      obtain ⟨command_, errors₂, hcommand, hreturn⟩ := bind_eq_ok.mp hhead
      cases hreturn
      -- no error was reported by the end, so none was before
      have hzero : errors₁ = 0 := by
        have hrest := (reported_foldlM (n := errors₁)
          (fun script syntax_ => reported_appendCommand script syntax_) commands
            (script ++ [command_])).wp errors₁ (Nat.le_refl _)
        exact Nat.le_zero.mp (hrest.of_ok htail)
      subst hzero
      obtain ⟨built, rfl, hbuilt⟩ := cmdList_builds commands htail
      exact ⟨command_ :: built, by rw [List.append_assoc]; rfl, .cons (command_builds hcommand) hbuilt⟩

/-- The walk over the fields of a module and its vectors and counters agree in every module that is
read, and in a module that is parsed just if it has no `export` field of its own. -/
theorem built_consistent_iff (options : ReadBinaryOptions) (data : List UInt8)
    (commands : List CommandSyntax) :
    (∀ c, readBinaryAst options data = .ok () c → ∃ met, Consistent c.module met) ∧
      ∀ script, parseAst commands = some script →
        List.Forall₂ (fun (syntax_ : CommandSyntax) (built : Command) =>
          ∀ m, built.module? = some m → ((∃ met, Consistent m met) ↔ syntax_.exports = false))
          commands script := by
  constructor
  · intro c h
    have hs := readBinaryAst_settled h
    exact ⟨_, hs.consistent hs.set⟩
  · intro script h
    unfold parseAst at h
    split at h
    · rename_i script' hlist
      cases h
      obtain ⟨built, rfl, hbuilt⟩ := cmdList_builds commands hlist
      exact hbuilt
    · cases h

theorem built_consistent_iff_inlineExport :
    (∃ c, readBinaryAst { readDebugNames := true } [0, 0x61, 0x73, 0x6d, 0x0d, 0, 0, 0] = .ok () c ∧
      ∃ met, Consistent c.module met) ∧
      ∃ m, parseAst [.module (.text none [.func {} (some [0x66])])] = some [.module m] ∧
        ∃ met, Consistent m met := by
  have hboth := built_consistent_iff { readDebugNames := true }
    [0, 0x61, 0x73, 0x6d, 0x0d, 0, 0, 0] [.module (.text none [.func {} (some [0x66])])]
  refine ⟨⟨{}, by decide +kernel, hboth.1 _ (by decide +kernel)⟩, ?_⟩
  have hbuilt := hboth.2 _ rfl
  cases hbuilt with
  | cons hm _ => exact ⟨_, rfl, (hm _ rfl).mpr rfl⟩

/-- The walk over `(module (func) (export "f" (func 0)))` meets a function that is not there. -/
theorem parseAst_zeroedField :
    ∃ m, parseAst [.module (.text none [.func {} none,
        .export_ { kind := .func, var := .index 0, name := [0x66] }])] = some [.module m] ∧
      Seg m.next m.firstField [0, 1, 2, 3] none ∧
      [0, 1, 2, 3].filterMap (fun p => (m.shape p).entity .func p) = [.own 0, .own 2] ∧
      m.funcs = [.own 0] ∧ ¬ ∃ met, Consistent m met := by
  refine ⟨_, rfl, ⟨rfl, rfl, rfl, rfl, rfl⟩, rfl, rfl, ?_⟩
  rintro ⟨met, hc⟩
  obtain rfl : _ = [0, 1, 2, 3] := hc.walk.unique ⟨rfl, rfl, rfl, rfl, rfl⟩
  cases hc.vector .func

end Linked

end Text

end SexprWasm
