import SexprWasm.Text.LinkedModule
import Mathlib.Data.List.Induction

/-!
# What building keeps of a linked module

Each operation on a module is described by what it does to the links of
the fields, to their shapes, to the vectors and to the counters, with a
`simp` lemma for each. `Linked` says that the fields are linked in the
order of their addresses, and `Built` that the vectors and the counters
are those of the shapes; a module that is both is `Consistent`.
-/

namespace SexprWasm

namespace Text

namespace Linked

open Links

/-! ## The entities of a list of shapes -/

/-- The entities of the kind `k` in fields of these shapes, the first of which is at `p`. -/
def entities (k : Kind) (shapes : List Shape) (p : Nat) : List Pointer :=
  (shapes.zipIdx p).filterMap fun s => s.1.entity k s.2

@[simp] theorem entities_nil (k : Kind) (p : Nat) : entities k [] p = [] := rfl

@[simp] theorem entities_append (k : Kind) (shapes shapes' : List Shape) (p : Nat) :
    entities k (shapes ++ shapes') p =
      entities k shapes p ++ entities k shapes' (p + shapes.length) := by
  rw [entities, List.zipIdx_append, List.filterMap_append]
  rfl

@[simp] theorem entities_singleton (k : Kind) (s : Shape) (p : Nat) :
    entities k [s] p = (s.entity k p).toList := by
  cases h : s.entity k p <;> simp [entities, h]

namespace Module

variable (m : Module)

def shapes : List Shape := m.nodes.map fun node => shapeOf node.field

def links : List (Option Nat) × Option Nat × Option Nat :=
  (m.nodes.map (·.next), m.firstField, m.lastField)

theorem length_shapes : m.shapes.length = m.nodes.length := List.length_map _

/-! ## The operations, seen from outside -/

section operations

variable (p : Nat) (ptr : Pointer) (field : Field) (k k' : Kind) (e e' : ExternalKind)

theorem map_modify {α β : Type} {f : α → β} {g : α → α} (h : ∀ a, f (g a) = f a) (l : List α)
    (i : Nat) : (l.modify i g).map f = l.map f := by
  refine List.ext_getElem? fun j => ?_
  rw [List.getElem?_map, List.getElem?_map, List.getElem?_modify]
  cases l[j]? with
  | none => rfl
  | some a =>
    by_cases hij : i = j
    · simp [hij, h]
    · simp [hij]

theorem getElem?_shapes : m.shapes[p]? = m.nodes[p]?.map fun node => shapeOf node.field :=
  List.getElem?_map

theorem shape_eq : m.shape p = (m.shapes[p]?).getD .zero := by
  rw [getElem?_shapes, shape, field?]
  cases m.nodes[p]? <;> rfl

@[simp] theorem shapes_appendModuleField : m.appendModuleField.shapes = m.shapes ++ [.zero] := by
  have hmodify : ∀ last next, (m.nodes.modify last fun node => { node with next }).map
      (fun node => shapeOf node.field) = m.shapes := fun last next =>
    map_modify (g := fun node : Node => { node with next }) (fun _ => rfl) m.nodes last
  rw [shapes, appendModuleField]
  split
  · dsimp only
    rw [List.map_append, hmodify]
    rfl
  · rw [List.map_append]
    rfl

@[simp] theorem length_appendModuleField :
    m.appendModuleField.nodes.length = m.nodes.length + 1 := by
  rw [appendModuleField]
  split <;> simp

@[simp] theorem vector_appendModuleField : m.appendModuleField.vector k = m.vector k := by
  cases k <;> rfl

@[simp] theorem numImports_appendModuleField :
    m.appendModuleField.numImports e = m.numImports e := by
  cases e <;> rfl

variable {f : Option Field → Option Field}

theorem shapes_modifyField {s : Shape} (h : shapeOf (f (m.field? p)) = s) :
    (m.modifyField p f).shapes = m.shapes.set p s := by
  refine List.ext_getElem? fun j => ?_
  rw [getElem?_shapes, List.getElem?_set, modifyField, List.getElem?_modify]
  by_cases hj : p = j
  · subst hj
    rw [field?] at h
    cases hnode : m.nodes[p]? with
    | none => simp [length_shapes, List.getElem?_eq_none_iff.mp hnode]
    | some node =>
      rw [hnode] at h
      have hlt := (List.getElem?_eq_some_iff.mp hnode).1
      simp [length_shapes, hlt, ← h]
  · rw [if_neg hj, getElem?_shapes]
    cases m.nodes[j]? <;> simp [hj]

theorem shapes_modifyField_self (h : ∀ field, shapeOf (f field) = shapeOf field) :
    (m.modifyField p f).shapes = m.shapes := by
  rw [shapes_modifyField m p (h _)]
  refine List.ext_getElem? fun j => ?_
  rw [List.getElem?_set]
  split
  · rename_i hj
    subst hj
    split
    · rename_i hlt
      rw [← shape, shape_eq, List.getElem?_eq_getElem hlt]
      rfl
    · rename_i hlt
      rw [List.getElem?_eq_none (Nat.le_of_not_lt hlt)]
  · rfl

@[simp] theorem links_modifyField : (m.modifyField p f).links = m.links := by
  have hmodify : (m.nodes.modify p fun node => { node with field := f node.field }).map (·.next) =
      m.nodes.map (·.next) :=
    map_modify (g := fun node : Node => { node with field := f node.field }) (fun _ => rfl) m.nodes p
  rw [links, links, modifyField, hmodify]

@[simp] theorem length_modifyField : (m.modifyField p f).nodes.length = m.nodes.length :=
  List.length_modify ..

@[simp] theorem vector_modifyField : (m.modifyField p f).vector k = m.vector k := by
  cases k <;> rfl

@[simp] theorem numImports_modifyField : (m.modifyField p f).numImports e = m.numImports e := by
  cases e <;> rfl

@[simp] theorem shapes_appendFieldToList :
    (m.appendFieldToList field).shapes = m.shapes ++ [field.shape] := by
  rw [appendFieldToList, setField, shapes_modifyField _ _ (s := field.shape) rfl,
    shapes_appendModuleField, ← length_shapes, List.set_append_right _ _ (Nat.le_refl _),
    Nat.sub_self]
  rfl

@[simp] theorem length_appendFieldToList :
    (m.appendFieldToList field).nodes.length = m.nodes.length + 1 := by
  rw [appendFieldToList, setField, length_modifyField, length_appendModuleField]

@[simp] theorem vector_appendFieldToList : (m.appendFieldToList field).vector k = m.vector k := by
  cases k <;> rfl

@[simp] theorem numImports_appendFieldToList :
    (m.appendFieldToList field).numImports e = m.numImports e := by
  cases e <;> rfl

@[simp] theorem nodes_appendItemToVector : (m.appendItemToVector ptr k).nodes = m.nodes := by
  cases k <;> rfl

@[simp] theorem links_appendItemToVector : (m.appendItemToVector ptr k).links = m.links := by
  cases k <;> rfl

@[simp] theorem shapes_appendItemToVector : (m.appendItemToVector ptr k).shapes = m.shapes := by
  cases k <;> rfl

@[simp] theorem vector_appendItemToVector :
    (m.appendItemToVector ptr k).vector k' = m.vector k' ++ if k' = k then [ptr] else [] := by
  cases k <;> cases k' <;> simp [appendItemToVector, vector]

@[simp] theorem numImports_appendItemToVector :
    (m.appendItemToVector ptr k).numImports e = m.numImports e := by
  cases k <;> cases e <;> rfl

@[simp] theorem nodes_countImport : (m.countImport e).nodes = m.nodes := by
  cases e <;> rfl

@[simp] theorem links_countImport : (m.countImport e).links = m.links := by
  cases e <;> rfl

@[simp] theorem shapes_countImport : (m.countImport e).shapes = m.shapes := by
  cases e <;> rfl

@[simp] theorem vector_countImport : (m.countImport e).vector k = m.vector k := by
  cases e <;> cases k <;> rfl

@[simp] theorem numImports_countImport :
    (m.countImport e).numImports e' = m.numImports e' + if e' = e then 1 else 0 := by
  cases e <;> cases e' <;> simp [countImport, numImports]

end operations

end Module

/-! ## Linked modules -/

/-- The fields are linked in the order of their addresses. -/
structure InOrder (m : Module) : Prop where
  walk : Seg m.next m.firstField (List.range m.nodes.length) none
  last : m.lastField = lastOr none (List.range m.nodes.length)

theorem Module.next_eq (m : Module) (p : Nat) : m.next p = (m.links.1[p]?).join := by
  rw [links, next, List.getElem?_map]
  cases m.nodes[p]? <;> rfl

theorem InOrder.congr {m m' : Module} (h : InOrder m) (hlinks : m'.links = m.links) :
    InOrder m' := by
  have hlen : m'.nodes.length = m.nodes.length := by
    have := congrArg (fun links => links.1.length) hlinks
    simpa [Module.links] using this
  have hfirst : m'.firstField = m.firstField := congrArg (fun links => links.2.1) hlinks
  have hlast : m'.lastField = m.lastField := congrArg (fun links => links.2.2) hlinks
  have hnext : ∀ p, m'.next p = m.next p := fun p => by
    rw [Module.next_eq, Module.next_eq, hlinks]
  exact ⟨by rw [hlen, hfirst]; exact h.walk.congr fun p _ => hnext p, by rw [hlen, hlast, h.last]⟩

theorem InOrder.appendModuleField {m : Module} (h : InOrder m) : InOrder m.appendModuleField := by
  obtain ⟨hwalk, hlast⟩ := h
  have hlen := m.length_appendModuleField
  constructor
  · rw [hlen, List.range_succ, seg_append_singleton]
    cases hn : m.nodes.length with
    | zero =>
      rw [hn] at hwalk
      have hfirst : m.firstField = none := hwalk
      have hnodes := List.length_eq_zero_iff.mp hn
      simp [Module.appendModuleField, Module.next, hfirst, hnodes]
    | succ k =>
      rw [hn, List.range_succ] at hwalk hlast
      obtain ⟨hwalk, -⟩ := seg_append_singleton.mp hwalk
      obtain ⟨first, hfirst⟩ : ∃ first, m.firstField = some first := by
        cases hr : List.range k with
        | nil => exact ⟨k, by rw [hr] at hwalk; exact hwalk⟩
        | cons q l => exact ⟨q, by rw [hr] at hwalk; exact hwalk.1⟩
      have hlast' : m.lastField = some k := hlast.trans lastOr_append_singleton
      have hnext : ∀ p, m.appendModuleField.next p =
          if p = k then some (k + 1) else if p = k + 1 then none else m.next p := by
        intro p
        simp only [Module.next, Module.appendModuleField, hfirst, hlast', hn]
        by_cases hk : p = k
        · subst hk
          have hlt : p < m.nodes.length := by omega
          rw [if_pos rfl, List.getElem?_append_left (by simpa using hlt), List.getElem?_modify_eq,
            List.getElem?_eq_getElem hlt]
          rfl
        · rw [if_neg hk]
          by_cases hnew : p = k + 1
          · subst hnew
            rw [if_pos rfl, List.getElem?_append_right (by simp [hn])]
            simp [hn]
          · rw [if_neg hnew, List.getElem?_append]
            split
            · rw [List.getElem?_modify_ne _ _ fun h => hk h.symm]
            · rename_i hge
              rw [List.length_modify, hn] at hge
              rw [List.getElem?_eq_none (show m.nodes.length ≤ p by omega),
                List.getElem?_eq_none (by simp; omega)]
      rw [List.range_succ, seg_append_singleton]
      refine ⟨⟨?_, by rw [hnext, if_pos rfl]⟩, by rw [hnext, if_neg (by omega), if_pos rfl]⟩
      have hfirst' : m.appendModuleField.firstField = m.firstField := by
        rw [Module.appendModuleField, hfirst]
        rfl
      rw [hfirst']
      refine hwalk.congr fun p hp => ?_
      have hlt := List.mem_range.mp hp
      rw [hnext, if_neg (by omega), if_neg (by omega)]
  · rw [hlen, List.range_succ, lastOr_append_singleton]
    rfl

theorem InOrder.appendFieldToList {m : Module} (h : InOrder m) (field : Field) :
    InOrder (m.appendFieldToList field) :=
  h.appendModuleField.congr (by rw [Module.appendFieldToList, Module.setField, Module.links_modifyField])

theorem InOrder.eq_range {m : Module} {met : List Nat} (h : InOrder m) (hc : Consistent m met) :
    met = List.range m.nodes.length :=
  hc.walk.unique h.walk

/-- A zeroed field among those linked. -/
theorem InOrder.not_consistent {m : Module} (h : InOrder m) (hzero : .zero ∈ m.shapes)
    {met : List Nat} : ¬ Consistent m met := by
  intro hc
  obtain ⟨p, hp⟩ := List.mem_iff_getElem?.mp hzero
  have hlt : p < m.nodes.length := by
    rw [← m.length_shapes]
    exact (List.getElem?_eq_some_iff.mp hp).1
  have hinit := hc.initialised p (h.eq_range hc ▸ List.mem_range.mpr hlt)
  rw [m.shape_eq, hp] at hinit
  cases hinit

/-! ## Built modules -/

/-- The vectors and the counters of `m` are those of fields of these shapes. -/
structure Tracks (m : Module) (shapes : List Shape) : Prop where
  vector : ∀ k, m.vector k = entities k shapes 0
  numImports : ∀ e, m.numImports e = shapes.countP (·.imports e)

/-- What the clients point to of a field: nothing while it is zeroed. -/
def Shape.settled : Shape → Shape
  | zero => start
  | s => s

/-- The vectors and the counters are those of the fields that were set. -/
structure Built (m : Module) : Prop extends InOrder m, Tracks m (m.shapes.map (·.settled)) where
  set_or_zero : ∀ s ∈ m.shapes, s ≠ .zero → s.initialised = true

theorem entities_eq (k : Kind) (shapes : List Shape) :
    (List.range shapes.length).filterMap (fun p => (shapes[p]?.getD .zero).entity k p) =
      entities k shapes 0 := by
  induction shapes using List.reverseRecOn with
  | nil => rfl
  | append_singleton shapes s ih =>
    have hold : (List.range shapes.length).filterMap
        (fun p => ((shapes ++ [s])[p]?.getD .zero).entity k p) =
          (List.range shapes.length).filterMap (fun p => (shapes[p]?.getD .zero).entity k p) :=
      List.filterMap_congr fun p hp => by
        rw [List.getElem?_append_left (List.mem_range.mp hp)]
    rw [List.length_append, List.length_singleton, List.range_succ, List.filterMap_append, hold, ih,
      entities_append, entities_singleton, Nat.zero_add]
    cases hs : s.entity k shapes.length <;> simp [hs]

theorem countP_eq (e : ExternalKind) (shapes : List Shape) :
    (List.range shapes.length).countP (fun p => (shapes[p]?.getD .zero).imports e) =
      shapes.countP (·.imports e) := by
  induction shapes using List.reverseRecOn with
  | nil => rfl
  | append_singleton shapes s ih =>
    have hold : (List.range shapes.length).countP
        (fun p => ((shapes ++ [s])[p]?.getD .zero).imports e) =
          (List.range shapes.length).countP (fun p => (shapes[p]?.getD .zero).imports e) :=
      List.countP_congr fun p hp => by
        rw [List.getElem?_append_left (List.mem_range.mp hp)]
    rw [List.length_append, List.length_singleton, List.range_succ, List.countP_append, hold, ih,
      List.countP_append]
    simp

theorem map_settled {shapes : List Shape} (hset : .zero ∉ shapes) :
    shapes.map (·.settled) = shapes := by
  refine (List.map_congr_left fun s hs => ?_).trans (List.map_id _)
  cases s
  case zero => exact absurd hs hset
  all_goals rfl

theorem Built.consistent {m : Module} (h : Built m) (hset : .zero ∉ m.shapes) :
    Consistent m (List.range m.nodes.length) := by
  have hsettled := map_settled hset
  exact
    { walk := h.walk
      once := List.nodup_range
      initialised := fun p hp => by
        have hlt : p < m.shapes.length := m.length_shapes.symm ▸ List.mem_range.mp hp
        rw [m.shape_eq, List.getElem?_eq_getElem hlt]
        exact h.set_or_zero _ (List.getElem_mem hlt) fun hz => hset (hz ▸ List.getElem_mem hlt)
      vector := fun k => by
        rw [h.vector k, hsettled, ← entities_eq, m.length_shapes]
        exact List.filterMap_congr fun p _ => by rw [m.shape_eq]
      numImports := fun e => by
        rw [h.numImports e, hsettled, ← countP_eq, m.length_shapes]
        exact List.countP_congr fun p _ => by rw [m.shape_eq] }

/-- The two views of a built module are the same just if it has no field that was not set. -/
theorem Built.consistent_iff {m : Module} (h : Built m) :
    (∃ met, Consistent m met) ↔ .zero ∉ m.shapes :=
  ⟨fun ⟨_, hc⟩ hzero => h.toInOrder.not_consistent hzero hc, fun hset => ⟨_, h.consistent hset⟩⟩

theorem Built.empty : Built {} where
  walk := rfl
  last := rfl
  vector k := by cases k <;> rfl
  numImports e := by cases e <;> rfl
  set_or_zero s hs := by cases hs

/-- Fields of the shapes `added` are linked at the end, with what they hold. -/
theorem Built.extend {m m' : Module} (h : Built m) (added : List Shape) (hord : InOrder m')
    (hshapes : m'.shapes = m.shapes ++ added)
    (hset : ∀ s ∈ added, s ≠ .zero → s.initialised = true)
    (hvector : ∀ k, m'.vector k = m.vector k ++ entities k (added.map (·.settled)) m.nodes.length)
    (hnum : ∀ e, m'.numImports e = m.numImports e + (added.map (·.settled)).countP (·.imports e)) :
    Built m' where
  toInOrder := hord
  vector k := by
    rw [hvector, h.vector, hshapes, List.map_append, entities_append, List.length_map,
      m.length_shapes, Nat.zero_add]
  numImports e := by rw [hnum, h.numImports, hshapes, List.map_append, List.countP_append]
  set_or_zero s hs := by
    rw [hshapes, List.mem_append] at hs
    rcases hs with hs | hs
    · exact h.set_or_zero s hs
    · exact hset s hs

theorem Built.congr {m m' : Module} (h : Built m) (hlinks : m'.links = m.links)
    (hshapes : m'.shapes = m.shapes) (hvector : ∀ k, m'.vector k = m.vector k)
    (hnum : ∀ e, m'.numImports e = m.numImports e) : Built m' := by
  refine h.extend [] (h.toInOrder.congr hlinks) ?_ ?_ ?_ ?_
  · rw [hshapes, List.append_nil]
  · intro s hs
    cases hs
  · intro k
    rw [hvector, List.map_nil, entities_nil, List.append_nil]
  · intro e
    rw [hnum]
    rfl

/-- A field with its entity in the vector of its kind. -/
theorem Built.append {m : Module} (h : Built m) {field : Field} {k : Kind}
    (hs : field.shape = .own k) :
    Built ((m.appendFieldToList field).appendItemToVector (.own m.nodes.length) k) := by
  refine h.extend [.own k]
    ((h.toInOrder.appendFieldToList field).congr (Module.links_appendItemToVector ..)) ?_ ?_ ?_ ?_
  · rw [Module.shapes_appendItemToVector, Module.shapes_appendFieldToList, hs]
  · intro s hs _
    rw [List.mem_singleton.mp hs]
    rfl
  · intro k'
    rw [Module.vector_appendItemToVector, Module.vector_appendFieldToList, List.map_singleton,
      entities_singleton]
    by_cases hk : k' = k <;> simp [Shape.settled, Shape.entity, hk]
  · intro e
    simp [Shape.settled, Shape.imports]

theorem Built.modifyField {m : Module} (h : Built m) (p : Nat) {f : Option Field → Option Field}
    (hf : ∀ field, shapeOf (f field) = shapeOf field) : Built (m.modifyField p f) :=
  h.congr (m.links_modifyField p) (m.shapes_modifyField_self p hf)
    (fun k => m.vector_modifyField p k) fun e => m.numImports_modifyField p e

theorem Module.modifyFunc_eq (m : Module) (f : Func → Func) (ptr : Pointer) :
    ∃ p g, m.modifyFunc f ptr = m.modifyField p g ∧ ∀ field, shapeOf (g field) = shapeOf field := by
  cases ptr with
  | own p =>
    rw [Module.modifyFunc]
    refine ⟨p, _, rfl, fun field => ?_⟩
    split <;> rfl
  | imported p =>
    rw [Module.modifyFunc]
    refine ⟨p, _, rfl, fun field => ?_⟩
    split <;> rfl

theorem Module.shapes_modifyFunc (m : Module) (f : Func → Func) (ptr : Pointer) :
    (m.modifyFunc f ptr).shapes = m.shapes := by
  obtain ⟨p, g, heq, hg⟩ := m.modifyFunc_eq f ptr
  rw [heq, m.shapes_modifyField_self p hg]

theorem Built.modifyFunc {m : Module} (h : Built m) (f : Func → Func) (ptr : Pointer) :
    Built (m.modifyFunc f ptr) := by
  obtain ⟨p, g, heq, hg⟩ := m.modifyFunc_eq f ptr
  rw [heq]
  exact h.modifyField p hg

theorem Module.modifyField_modifyField (m : Module) (p : Nat) (f g : Option Field → Option Field) :
    (m.modifyField p f).modifyField p g = m.modifyField p fun field => g (f field) := by
  simp only [Module.modifyField, List.modify_modify_eq]
  rfl

/-- What `modifyFunc` does to the field that a pointer to a function leads to. -/
def changeFunc (f : Func → Func) : Pointer → Option Field → Option Field
  | .own _, some (.func func) => some (.func (f func))
  | .imported _, some (.import_ ⟨moduleName, fieldName, some (.func func)⟩) =>
    some (.import_ ⟨moduleName, fieldName, some (.func (f func))⟩)
  | _, field => field

theorem changeFunc_comp (f g : Func → Func) (ptr : Pointer) (field : Option Field) :
    changeFunc g ptr (changeFunc f ptr field) = changeFunc (fun func => g (f func)) ptr field := by
  cases ptr with
  | own p => rcases field with _ | _ | _ | _ | _ | _ | _ | _ | _ | _ | _ <;> rfl
  | imported p =>
    rcases field with _ | _ | _ | ⟨_, _, _ | _ | _ | _ | _⟩ | _ | _ | _ | _ | _ | _ | _ <;> rfl

theorem changeFunc_id (ptr : Pointer) : changeFunc (fun func => func) ptr = id := by
  funext field
  cases ptr with
  | own p => rcases field with _ | _ | _ | _ | _ | _ | _ | _ | _ | _ | _ <;> rfl
  | imported p =>
    rcases field with _ | _ | _ | ⟨_, _, _ | _ | _ | _ | _⟩ | _ | _ | _ | _ | _ | _ | _ <;> rfl

theorem Module.modifyFunc_eq_modifyField (m : Module) (f : Func → Func) (ptr : Pointer) :
    m.modifyFunc f ptr = m.modifyField (match ptr with | .own p | .imported p => p)
      (changeFunc f ptr) := by
  cases ptr with
  | own p =>
    rw [Module.modifyFunc]
    congr 1
    funext field
    rcases field with _ | _ | _ | _ | _ | _ | _ | _ | _ | _ | _ <;> rfl
  | imported p =>
    rw [Module.modifyFunc]
    congr 1
    funext field
    rcases field with _ | _ | _ | ⟨_, _, _ | _ | _ | _ | _⟩ | _ | _ | _ | _ | _ | _ | _ <;> rfl

theorem Module.modifyFunc_modifyFunc (m : Module) (f g : Func → Func) (ptr : Pointer) :
    (m.modifyFunc f ptr).modifyFunc g ptr = m.modifyFunc (fun func => g (f func)) ptr := by
  simp only [Module.modifyFunc_eq_modifyField, Module.modifyField_modifyField]
  congr 1
  funext field
  exact changeFunc_comp f g ptr field

theorem Module.modifyFunc_id (m : Module) (ptr : Pointer) :
    m.modifyFunc (fun func => func) ptr = m := by
  rw [Module.modifyFunc_eq_modifyField, changeFunc_id, Module.modifyField]
  exact congrArg (fun nodes => { m with nodes }) (List.modify_id _ _)

end Linked

end Text

end SexprWasm
