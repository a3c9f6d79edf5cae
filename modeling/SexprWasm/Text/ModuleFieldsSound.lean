import SexprWasm.Text.ModuleFields
import SexprWasm.Text.LinkedModuleSound

/-!
# What the productions build

Each production of `module_fields` links fields at the end and puts what
they hold into the vectors (`appendField_spec`). One of them leaves a
field zeroed: an `export` that stands by itself.
-/

namespace SexprWasm

namespace Text

namespace Linked

open Callback

namespace Module

variable (m : Module) (name : StringSlice) (k k' : Kind) (e : ExternalKind)

@[simp] theorem links_insertBinding : (m.insertBinding name k).links = m.links := by
  cases k <;> rfl

@[simp] theorem shapes_insertBinding : (m.insertBinding name k).shapes = m.shapes := by
  cases k <;> rfl

@[simp] theorem vector_insertBinding : (m.insertBinding name k).vector k' = m.vector k' := by
  cases k <;> cases k' <;> rfl

@[simp] theorem numImports_insertBinding :
    (m.insertBinding name k).numImports e = m.numImports e := by
  cases k <;> cases e <;> rfl

end Module

variable {m m' : Module} {name : StringSlice} {k : Kind} {field : Field}

/-- `m'` is `m` with fields of the shapes `added` at the end, and what they hold. -/
structure Adds (m m' : Module) (added : List Shape) : Prop where
  built : Built m → Built m'
  shapes : m'.shapes = m.shapes ++ added

theorem Adds.refl (m : Module) : Adds m m [] := ⟨id, (List.append_nil _).symm⟩

theorem Adds.trans {m'' : Module} {added added' : List Shape} (h : Adds m m' added)
    (h' : Adds m' m'' added') : Adds m m'' (added ++ added') :=
  ⟨fun hm => h'.built (h.built hm), by rw [h'.shapes, h.shapes, List.append_assoc]⟩

theorem adds_appendEntity (hs : field.shape = .own k) :
    Adds m (m.appendEntity field name k) [.own k] where
  built h := (h.append hs).congr (Module.links_insertBinding ..) (Module.shapes_insertBinding ..)
    (fun k' => Module.vector_insertBinding _ _ _ k') fun e => Module.numImports_insertBinding _ _ _ e
  shapes := by
    rw [Module.appendEntity, Module.shapes_insertBinding, Module.shapes_appendItemToVector,
      Module.shapes_appendFieldToList, hs]

theorem adds_appendInlineExport (e : ExternalKind) (index : Nat) (export_ : Option Name) :
    ∃ added, Adds m (m.appendInlineExport e index export_) added ∧ .zero ∉ added := by
  cases export_ with
  | none => exact ⟨[], .refl m, by simp⟩
  | some name => exact ⟨[.own .export_], adds_appendEntity rfl, by simp⟩

theorem InOrder.appendImplicitFuncType (h : InOrder m) (sig : FuncSignature) :
    InOrder (m.appendImplicitFuncType sig) :=
  (h.appendFieldToList _).congr (Module.links_appendItemToVector ..)

/-- A signature without a type gets a field for it or nothing happens. -/
theorem appendImplicitFuncDeclaration_spec (m : Module) (decl : FuncDeclaration) :
    (InOrder m → InOrder (m.appendImplicitFuncDeclaration decl)) ∧
      ∃ added, (added = [] ∨ added = [.own .funcType]) ∧
        (m.appendImplicitFuncDeclaration decl).shapes = m.shapes ++ added ∧
        (∀ k, (m.appendImplicitFuncDeclaration decl).vector k =
          m.vector k ++ entities k added m.nodes.length) ∧
        ∀ e, (m.appendImplicitFuncDeclaration decl).numImports e = m.numImports e := by
  have hnone : ∃ added : List Shape, (added = [] ∨ added = [.own .funcType]) ∧
      m.shapes = m.shapes ++ added ∧ (∀ k, m.vector k = m.vector k ++ entities k added m.nodes.length) ∧
        ∀ e, m.numImports e = m.numImports e := ⟨[], .inl rfl, by simp, by simp, by simp⟩
  rw [Module.appendImplicitFuncDeclaration]
  split
  · exact ⟨id, hnone⟩
  · split
    · refine ⟨fun h => h.appendImplicitFuncType _, [.own .funcType], .inr rfl, ?_, ?_, ?_⟩
      · rw [Module.appendImplicitFuncType, Module.shapes_appendItemToVector,
          Module.shapes_appendFieldToList]
        rfl
      · intro k
        rw [Module.appendImplicitFuncType, Module.vector_appendItemToVector,
          Module.vector_appendFieldToList, entities_singleton]
        by_cases hk : k = .funcType <;> simp [Shape.entity, hk]
      · intro e
        rw [Module.appendImplicitFuncType, Module.numImports_appendItemToVector,
          Module.numImports_appendFieldToList]
    · exact ⟨id, hnone⟩

theorem adds_func (func : Func) :
    ∃ added, Adds m ((((m.appendFieldToList (.func func)).appendImplicitFuncDeclaration
      func.decl).appendItemToVector (.own m.nodes.length) .func).insertBinding func.name .func) added ∧
        .zero ∉ added := by
  obtain ⟨hord, added, hadded, hshapes, hvector, hnum⟩ :=
    appendImplicitFuncDeclaration_spec (m.appendFieldToList (.func func)) func.decl
  have hshapes' := hshapes
  rw [Module.shapes_appendFieldToList, List.append_assoc] at hshapes'
  refine ⟨.own .func :: added, ⟨fun h => ?_, ?_⟩, ?_⟩
  · refine h.extend (.own .func :: added)
      ((hord (h.toInOrder.appendFieldToList _)).congr (by simp)) (by simpa [Field.shape] using hshapes') ?_ ?_ ?_
    · rcases hadded with rfl | rfl <;> simp [Shape.initialised]
    · intro k
      rw [Module.vector_insertBinding, Module.vector_appendItemToVector, hvector,
        Module.vector_appendFieldToList]
      rcases hadded with rfl | rfl <;> cases k <;> simp [entities, Shape.settled, Shape.entity]
    · intro e
      rw [Module.numImports_insertBinding, Module.numImports_appendItemToVector, hnum,
        Module.numImports_appendFieldToList]
      rcases hadded with rfl | rfl <;> simp [Shape.settled, Shape.imports]
  · simpa [Field.shape] using hshapes'
  · rcases hadded with rfl | rfl <;> simp

/-- An import that needs no type. -/
theorem adds_plainImport {moduleName fieldName : List UInt8} (kind : ImportKind) (name : StringSlice)
    {m₁ m₂ : Module}
    (h₁ : m₁ = m.appendFieldToList (.import_ { moduleName, fieldName, kind := some kind }))
    (h₂ : m₂ = ((m₁.appendItemToVector (.imported m.nodes.length)
      (.ofExternal kind.external)).insertBinding name (.ofExternal kind.external)).countImport
        kind.external) :
    Adds m (m₂.appendItemToVector (.own m.nodes.length) .import_)
      [.import_ (some kind.external)] := by
  have hshapes : (m₂.appendItemToVector (.own m.nodes.length) .import_).shapes =
      m.shapes ++ [.import_ (some kind.external)] := by
    simp [h₂, h₁, Field.shape]
  refine ⟨fun h => h.extend _ ?_ hshapes (by simp [Shape.initialised]) ?_ ?_, hshapes⟩
  · rw [h₂, h₁]
    refine (h.toInOrder.appendFieldToList
      (.import_ { moduleName, fieldName, kind := some kind })).congr ?_
    simp
  · intro k
    rw [h₂, h₁]
    generalize kind.external = e
    cases k <;> cases e <;> simp [entities, Shape.settled, Shape.entity, Kind.ofExternal, importKind]
  · intro e'
    rw [h₂, h₁]
    generalize kind.external = e
    cases e <;> cases e' <;> simp [Shape.settled, Shape.imports, importKind]

theorem adds_import (moduleName fieldName : List UInt8) (kind : ImportKind) :
    ∃ added, Adds m (((m.appendFieldToList
      (.import_ { moduleName, fieldName, kind := some kind })).appendImport m.nodes.length
        kind).appendItemToVector (.own m.nodes.length) .import_) added ∧ .zero ∉ added := by
  cases kind with
  | func func =>
    obtain ⟨hord, added, hadded, hshapes, hvector, hnum⟩ := appendImplicitFuncDeclaration_spec
      (m.appendFieldToList (.import_ { moduleName, fieldName, kind := some (.func func) })) func.decl
    rw [Module.shapes_appendFieldToList, List.append_assoc] at hshapes
    refine ⟨.import_ (some .func) :: added, ⟨fun h => ?_, ?_⟩, ?_⟩
    · refine h.extend (.import_ (some .func) :: added)
        ((hord (h.toInOrder.appendFieldToList _)).congr (by simp [Module.appendImport]))
        (by simpa [Module.appendImport, Field.shape, ImportKind.external] using hshapes) ?_ ?_ ?_
      · rcases hadded with rfl | rfl <;> simp [Shape.initialised]
      · intro k
        simp only [Module.appendImport, Module.vector_appendItemToVector, Module.vector_countImport,
          Module.vector_insertBinding, hvector, Module.vector_appendFieldToList]
        rcases hadded with rfl | rfl <;> cases k <;>
          simp [entities, Shape.settled, Shape.entity, Kind.ofExternal, importKind]
      · intro e
        simp only [Module.appendImport, Module.numImports_appendItemToVector,
          Module.numImports_countImport, Module.numImports_insertBinding, hnum,
          Module.numImports_appendFieldToList]
        rcases hadded with rfl | rfl <;> cases e <;>
          simp [Shape.settled, Shape.imports, importKind]
    · simpa [Module.appendImport, Field.shape, ImportKind.external] using hshapes
    · rcases hadded with rfl | rfl <;> simp
  | table table => exact ⟨_, adds_plainImport (.table table) table.name rfl rfl, by simp⟩
  | memory memory => exact ⟨_, adds_plainImport (.memory memory) memory.name rfl rfl, by simp⟩
  | global global => exact ⟨_, adds_plainImport (.global global) global.name rfl rfl, by simp⟩

theorem adds_start (start : Var) :
    Adds m { m.appendFieldToList (.start start) with start := some m.nodes.length } [.start] := by
  have hshapes : (m.appendFieldToList (.start start)).shapes = m.shapes ++ [.start] :=
    Module.shapes_appendFieldToList ..
  refine ⟨fun h => ?_, hshapes⟩
  refine h.extend _ ((h.toInOrder.appendFieldToList (.start start)).congr rfl) hshapes
    (by simp [Shape.initialised]) ?_ ?_
  · intro k
    cases k <;> exact (List.append_nil _).symm
  · intro e
    cases e <;> rfl

/-- A production adds fields that are set, and an `export` that stands by itself one that is not. -/
theorem appendField_spec {syntax_ : FieldSyntax} {errors errors' : Nat}
    (h : m.appendField syntax_ errors = .ok m' errors') :
    ∃ added, Adds m m' added ∧ (.zero ∈ added ↔ syntax_.isExport = true) := by
  have hset : ∀ {m' : Module}, (∃ added, Adds m m' added ∧ .zero ∉ added) →
      syntax_.isExport = false →
        ∃ added, Adds m m' added ∧ (.zero ∈ added ↔ syntax_.isExport = true) := by
    rintro m' ⟨added, hadds, hzero⟩ hexport
    exact ⟨added, hadds, by simp [hzero, hexport]⟩
  have htwo : ∀ {m₁ m₂ : Module}, (∃ added, Adds m m₁ added ∧ .zero ∉ added) →
      (∃ added, Adds m₁ m₂ added ∧ .zero ∉ added) → ∃ added, Adds m m₂ added ∧ .zero ∉ added := by
    rintro m₁ m₂ ⟨added, hadds, hzero⟩ ⟨added', hadds', hzero'⟩
    exact ⟨_, hadds.trans hadds', by simp [hzero, hzero']⟩
  have hentity : ∀ {m : Module} {field : Field} {name : StringSlice} {k : Kind}, field.shape = .own k →
      ∃ added, Adds m (m.appendEntity field name k) added ∧ .zero ∉ added :=
    fun hs => ⟨_, adds_appendEntity hs, by simp⟩
  cases syntax_ with
  | typeDef funcType =>
    cases h
    exact hset (hentity rfl) rfl
  | global global export_ =>
    cases h
    exact hset (htwo (hentity rfl) (adds_appendInlineExport ..)) rfl
  | table table export_ elemSegment =>
    have hexport : ∃ added, Adds m ((m.appendEntity (.table table) table.name .table).appendInlineExport
        .table ((m.appendEntity (.table table) table.name .table).tables.length - 1) export_) added ∧
          .zero ∉ added := htwo (hentity rfl) (adds_appendInlineExport ..)
    cases elemSegment with
    | none =>
      cases h
      exact hset hexport rfl
    | some elemSegment =>
      cases h
      exact hset (htwo hexport (hentity rfl)) rfl
  | memory memory export_ dataSegment =>
    have hexport : ∃ added, Adds m ((m.appendEntity (.memory memory) memory.name .memory).appendInlineExport
        .memory ((m.appendEntity (.memory memory) memory.name .memory).memories.length - 1) export_) added ∧
          .zero ∉ added := htwo (hentity rfl) (adds_appendInlineExport ..)
    cases dataSegment with
    | none =>
      cases h
      exact hset hexport rfl
    | some dataSegment =>
      cases h
      exact hset (htwo hexport (hentity rfl)) rfl
  | func func export_ =>
    cases h
    exact hset (htwo (adds_func func) (adds_appendInlineExport ..)) rfl
  | elem elemSegment =>
    cases h
    exact hset (hentity rfl) rfl
  | data dataSegment =>
    cases h
    exact hset (hentity rfl) rfl
  | start start =>
    cases h
    exact hset ⟨_, adds_start start, by simp⟩ rfl
  | import_ moduleName fieldName kind =>
    obtain ⟨_, _, -, h⟩ := bind_eq_ok.mp h
    obtain ⟨_, _, -, h⟩ := bind_eq_ok.mp h
    obtain ⟨_, _, -, h⟩ := bind_eq_ok.mp h
    obtain ⟨_, _, -, h⟩ := bind_eq_ok.mp h
    cases h
    exact hset (adds_import moduleName fieldName kind) rfl
  | export_ export_ =>
    cases h
    have hzero : Adds m m.appendModuleField [.zero] := by
      have hshapes := m.shapes_appendModuleField
      refine ⟨fun h => h.extend _ h.toInOrder.appendModuleField hshapes (by simp) ?_ ?_, hshapes⟩
      · intro k
        simp [Shape.settled, Shape.entity]
      · intro e
        simp [Shape.settled, Shape.imports]
    exact ⟨_, hzero.trans (adds_appendEntity rfl), by simp [FieldSyntax.isExport]⟩

theorem foldlM_spec : ∀ (fields : List FieldSyntax) {m m' : Module} {errors errors' : Nat},
    fields.foldlM Module.appendField m errors = .ok m' errors' →
      ∃ added, Adds m m' added ∧ (.zero ∈ added ↔ ∃ f ∈ fields, f.isExport = true)
  | [], m, m', errors, errors', h => by
      cases h
      exact ⟨[], .refl _, by simp⟩
  | syntax_ :: fields, m, m', errors, errors', h => by
      rw [List.foldlM_cons] at h
      obtain ⟨m₁, errors₁, hhead, htail⟩ := bind_eq_ok.mp h
      obtain ⟨added, hadds, hzero⟩ := appendField_spec hhead
      obtain ⟨added', hadds', hzero'⟩ := foldlM_spec fields htail
      exact ⟨added ++ added', hadds.trans hadds', by
        simp only [List.mem_append, hzero, hzero', List.mem_cons, or_and_right, exists_or,
          exists_eq_left]⟩

theorem adds_resolveFuncType (m : Module) (p : Pointer) : Adds m (m.resolveFuncType p) [] := by
  rw [Module.resolveFuncType]
  split
  · split
    · exact .refl m
    · exact ⟨fun h => h.modifyFunc _ p, by rw [Module.shapes_modifyFunc, List.append_nil]⟩
  · exact .refl m

theorem adds_resolveFuncTypes : ∀ (funcs : List Pointer) (m : Module),
    Adds m (funcs.foldl Module.resolveFuncType m) []
  | [], m => .refl m
  | p :: funcs, m => (adds_resolveFuncType m p).trans (adds_resolveFuncTypes funcs _)

/-- A module in text is built, with a zeroed field if an `export` stands by itself in it. -/
theorem rawModule_spec {fields : List FieldSyntax} {errors errors' : Nat} {raw : RawModule}
    (h : rawModule (.text name fields) errors = .ok raw errors') :
    ∃ m, raw = .text m ∧ Built m ∧ (.zero ∈ m.shapes ↔ ∃ f ∈ fields, f.isExport = true) := by
  obtain ⟨m, errors₁, hfields, h⟩ := bind_eq_ok.mp h
  cases h
  obtain ⟨added, hadds, hzero⟩ := foldlM_spec fields hfields
  have hbuilt : Built { m with name } :=
    (hadds.built .empty).congr rfl rfl (fun k => by cases k <;> rfl) fun e => by cases e <;> rfl
  obtain ⟨hresolve, hshapes⟩ := adds_resolveFuncTypes m.funcs { m with name }
  refine ⟨_, rfl, hresolve hbuilt, ?_⟩
  have hm : m.shapes = added := hadds.shapes
  rw [hshapes, List.append_nil, ← hzero, ← hm]
  rfl

end Linked

end Text

end SexprWasm
