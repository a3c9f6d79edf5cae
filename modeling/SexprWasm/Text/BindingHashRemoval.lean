import SexprWasm.Text.BindingHashRuns
import Mathlib.Data.List.Induction

/-!
# Removing a binding

`wasm_remove_binding` looks the name up and clears the entry whose
position is the *index* it finds, where the index is the one the client
stored with the name and has nothing to do with positions. So it deletes
a name from the table just if the name is not in the table.
-/

namespace SexprWasm

namespace Text

open Links

namespace RawBindingHash

variable {h h' : RawBindingHash} {chain : Nat → List Nat} {free : List Nat} {name : Name} {p : Nat}

/-- `wasm_remove_binding`; `none` if the entry it clears is outside of the table. -/
def removeBinding (h : RawBindingHash) (name : Name) : Option RawBindingHash :=
  let index := h.findBindingIndexByName name
  if index = -1 then some h
  else if 0 ≤ index ∧ index.toNat < h.capacity then some (h.put index.toNat {})
  else none

/-- `h'` is `h` without `name`: lookups say so, the pointers are in order, and what is inserted
later is found and reported as in a table that `inserted` without `name` went into. -/
structure Deletes (inserted : List (Name × Int)) (name : Name) (h h' : RawBindingHash) : Prop where
  gone : h'.findBindingIndexByName name = -1
  others : ∀ other, other ≠ name → h'.findBindingIndexByName other = h.findBindingIndexByName other
  linked : h'.Linked
  later : ∀ later : List (Name × Int), ∃ h₁ h₂,
    later.foldlM (fun h binding => h.insertBinding binding.1 binding.2) h' = some h₁ ∧
    insertAll (inserted.filter (·.1 ≠ name) ++ later) = some h₂ ∧
    (∀ other, h₁.findBindingIndexByName other = h₂.findBindingIndexByName other) ∧
    ∀ other, other ∈ h₁.duplicateNames ↔ other ∈ h₂.duplicateNames

/-! ## Runs -/

/-- What is done to a table. The indices are positions in a vector of the client. -/
inductive HashOp
  | insert (name : Name) (index : Nat)
  | remove (name : Name)
  deriving DecidableEq, Repr

def HashOp.run (h : RawBindingHash) : HashOp → Option RawBindingHash
  | .insert name index => h.insertBinding name index
  | .remove name => h.removeBinding name

def runOps (ops : List HashOp) : Option RawBindingHash := ops.foldlM HashOp.run {}

/-- The bindings that were inserted. -/
def inserted (ops : List HashOp) : List (Name × Int) :=
  ops.filterMap fun
    | .insert name index => some (name, (index : Int))
    | .remove _ => none

/-- Every removal is of a name that has not been inserted before. -/
def RemovesNothing (ops : List HashOp) : Prop :=
  ∀ before name after, ops = before ++ .remove name :: after → name ∉ (inserted before).map Prod.fst

theorem inserted_append (ops ops' : List HashOp) :
    inserted (ops ++ ops') = inserted ops ++ inserted ops' := List.filterMap_append

theorem removeBinding_of_notMem (hl : h.LaidOut) (hnot : ∀ i, (name, i) ∉ h.bindings) :
    h.removeBinding name = some h := by
  rcases find_cases hl name with hfound | ⟨hnone, -⟩
  · exact absurd hfound (hnot _)
  · rw [removeBinding, if_pos hnone]

/-- A run that removes nothing does what its insertions do. -/
theorem runOps_eq (ops : List HashOp) (hops : RemovesNothing ops) :
    runOps ops = insertAll (inserted ops) := by
  induction ops using List.reverseRecOn with
  | nil => rfl
  | append_singleton ops op ih =>
    have hbefore : RemovesNothing ops := fun before name after heq =>
      hops before name (after ++ [op]) (by rw [heq, List.append_assoc]; rfl)
    rw [runOps, List.foldlM_append, ← runOps, ih hbefore, inserted_append]
    obtain ⟨h, hh, hwf, hperm⟩ := insertAll_spec (inserted ops)
    rw [hh]
    cases op with
    | insert name index =>
      rw [insertAll, List.foldlM_append, ← insertAll, hh]
      rfl
    | remove name =>
      have hnot := hops ops name [] rfl
      have hremove : h.removeBinding name = some h :=
        removeBinding_of_notMem hwf.laidOut fun i hi =>
          hnot (List.mem_map.mpr ⟨_, hperm.mem_iff.mp hi, rfl⟩)
      show (h.removeBinding name).bind some = insertAll (inserted ops ++ [])
      rw [hremove, List.append_nil, hh]
      rfl

theorem index_nonneg {ops : List HashOp} {i : Int} (h : (name, i) ∈ inserted ops) : 0 ≤ i := by
  obtain ⟨op, -, hop⟩ := List.mem_filterMap.mp h
  cases op with
  | insert name index =>
    cases hop
    exact Int.natCast_nonneg index
  | remove name => cases hop

/-! ## Clearing an entry -/

/-- A free entry at the end of its list that is cleared is as it was. -/
theorem Layout.clear (hl : h.Layout chain [p] none) : (h.put p {}).Layout chain [p] none := by
  have hp := (hl.memFree p).mp List.mem_cons_self
  have hnext : h.next p = none := hl.freeSeg.2
  have hprev : h.prev p = none := hl.freeBack.1
  have hsame : ∀ q, ((h.put p {}).entry q).name = (h.entry q).name ∧
      (h.put p {}).next q = h.next q ∧ (h.put p {}).prev q = h.prev q := by
    intro q
    rw [next, prev, entry_put hp.1]
    by_cases hq : q = p
    · subst hq
      rw [if_pos rfl, hnext, hprev, hp.2.1]
      exact ⟨rfl, rfl, rfl⟩
    · rw [if_neg hq]
      exact ⟨rfl, rfl, rfl⟩
  have hbelongs : ∀ m q, (h.put p {}).Belongs m q ↔ h.Belongs m q := by
    intro m q
    simp only [Belongs, (hsame q).1, capacity_put, mainEntry_put]
  exact
    { chainSeg := fun m hm => (hl.chainSeg m hm).congr fun q _ => (hsame q).2.1
      chainNodup := hl.chainNodup
      memChain := fun m q => by rw [hbelongs, hl.memChain]
      freeSeg := hl.freeSeg.congr fun q _ => (hsame q).2.1
      freeBack := hl.freeBack.congr fun q _ => (hsame q).2.2
      freeNodup := hl.freeNodup
      memFree := fun q => by rw [hl.memFree, (hsame q).1, capacity_put]
      prevUsed := fun q hq => by
        rw [(hsame q).2.2]
        exact hl.prevUsed q (by rwa [(hsame q).1] at hq) }

theorem bindings_clear (hp : p < h.capacity) (hfree : (h.entry p).name = none) :
    (h.put p {}).bindings = h.bindings := by
  rw [bindings_eq, bindings_eq, capacity_put]
  refine List.filterMap_congr fun q _ => ?_
  rw [binding?, binding?, entry_put hp]
  by_cases hq : q = p
  · rw [if_pos hq, hq, hfree]
    rfl
  · rw [if_neg hq]

/-- The pointers are in order after an entry is cleared only if it was the one free entry. -/
theorem eq_singleton_of_linked_put (hl : h.Layout chain free none) (hp : p < h.capacity)
    (hlinked : (h.put p {}).Linked) : free = [p] := by
  obtain ⟨free', hseg, hback, -, hmem⟩ := hlinked.freeList
  have hcleared : (h.put p {}).entry p = {} := by rw [entry_put hp, if_pos rfl]
  have hp' : p ∈ free' := (hmem p).mpr ⟨by rwa [capacity_put], by rw [hcleared]⟩
  -- it points at nothing before it and nothing after it
  cases free' with
  | nil => cases hp'
  | cons q rest =>
    have hprev : (h.put p {}).prev p = none := by rw [prev, hcleared]
    have hnext : (h.put p {}).next p = none := by rw [next, hcleared]
    obtain ⟨l, l', hsplit⟩ := List.append_of_mem hp'
    rw [hsplit, back_append] at hback
    have hhead : lastOr none l = none := hback.2.1.symm.trans hprev
    have hl_nil : l = [] := by
      rcases List.eq_nil_or_concat l with rfl | ⟨l₀, r, rfl⟩
      · rfl
      · rw [List.concat_eq_append, lastOr_append_singleton] at hhead
        cases hhead
    rw [hsplit, hl_nil] at hseg
    obtain ⟨hhead', hrest⟩ := hseg
    rw [hnext] at hrest
    have hl'_nil : l' = [] := by
      cases l' with
      | nil => rfl
      | cons r l' => cases hrest.1
    rw [freeHead_put] at hhead'
    have hpfree : p ∈ free := by
      have hfirst := hl.freeSeg.head?_eq
      rw [hhead'] at hfirst
      exact List.mem_of_mem_head? hfirst
    have honly : ∀ r ∈ free, r = p := by
      intro r hr
      obtain ⟨hrlt, hrname, -⟩ := (hl.memFree r).mp hr
      by_contra hne
      have hrname' : ((h.put p {}).entry r).name = none := by rw [entry_put hp, if_neg hne, hrname]
      have := (hmem r).mpr ⟨by rwa [capacity_put], hrname'⟩
      rw [hsplit, hl_nil, hl'_nil] at this
      exact hne (List.mem_singleton.mp this)
    exact (List.eq_replicate_of_mem honly).trans (by
      have hlen := hl.freeNodup
      rw [List.eq_replicate_of_mem honly, List.nodup_replicate] at hlen
      have hpos := List.length_pos_of_mem hpfree
      rw [show free.length = 1 by omega]
      rfl)

/-- In a run whose earlier removals remove nothing, a removal deletes its name just if the name
has not been inserted. -/
theorem removeBinding_deletes_iff (ops : List HashOp) (name : Name) (h : RawBindingHash)
    (hops : RemovesNothing ops) (hrun : runOps ops = some h) :
    (∃ h', h.removeBinding name = some h' ∧ Deletes (inserted ops) name h h') ↔
      name ∉ (inserted ops).map Prod.fst := by
  rw [runOps_eq ops hops] at hrun
  obtain ⟨h₀, hh₀, hwf, hperm⟩ := insertAll_spec (inserted ops)
  obtain rfl : h = h₀ := Option.some.inj (hrun.symm.trans hh₀)
  constructor
  · rintro ⟨h', hremove, hdel⟩ hmem
    obtain ⟨⟨n, i⟩, hi, hn⟩ := List.mem_map.mp hmem
    obtain rfl : name = n := hn.symm
    have hbound := hperm.mem_iff.mpr hi
    -- the lookup finds an index, and the entry at that position is cleared
    rcases find_cases hwf.laidOut name with hfound | ⟨-, hnot⟩
    · have hnonneg := index_nonneg (hperm.mem_iff.mp hfound)
      rw [removeBinding, if_neg (by omega)] at hremove
      split at hremove
      · rename_i hin
        cases hremove
        obtain ⟨chain, free, hl⟩ := hwf.laidOut
        obtain rfl := eq_singleton_of_linked_put hl hin.2 hdel.linked
        have hl' := hl.clear
        have hfree := ((hl.memFree _).mp List.mem_cons_self).2.1
        -- the entry was free, so the binding is still there
        rcases find_cases ⟨chain, _, hl'⟩ name with hfound' | ⟨-, hnot⟩
        · rw [hdel.gone, bindings_clear hin.2 hfree] at hfound'
          have := index_nonneg (hperm.mem_iff.mp hfound')
          omega
        · rw [bindings_clear hin.2 hfree] at hnot
          exact hnot i hbound
      · cases hremove
    · exact hnot i hbound
  · intro hnot
    have hunbound : ∀ i, (name, i) ∉ h.bindings := fun i hi =>
      hnot (List.mem_map.mpr ⟨_, hperm.mem_iff.mp hi, rfl⟩)
    refine ⟨h, removeBinding_of_notMem hwf.laidOut hunbound, ?_, fun _ _ => rfl, hwf.laidOut.linked,
      fun later => ?_⟩
    · rcases find_cases hwf.laidOut name with hfound | ⟨hnone, -⟩
      · exact absurd hfound (hunbound _)
      · exact hnone
    · have hfilter : (inserted ops).filter (·.1 ≠ name) = inserted ops :=
        List.filter_eq_self.mpr fun b hb => decide_eq_true fun heq =>
          hnot (List.mem_map.mpr ⟨b, hb, heq⟩)
      obtain ⟨h₁, heq₁, -⟩ := insertAll_from later hwf
      refine ⟨h₁, h₁, heq₁, ?_, fun _ => rfl, fun _ => Iff.rfl⟩
      rw [hfilter, insertAll, List.foldlM_append, ← insertAll, hrun]
      exact heq₁

theorem removeBinding_deletes_iff_absent :
    ∃ h h', runOps [.insert [0x61] 0, .remove [0x62]] = some h ∧
      h.removeBinding [0x63] = some h' ∧
      Deletes (inserted [.insert [0x61] 0, .remove [0x62]]) [0x63] h h' := by
  have hops : RemovesNothing [.insert [0x61] 0, .remove [0x62]] := by
    intro before name after heq
    rcases before with _ | ⟨op, _ | ⟨op', before⟩⟩
    · cases heq
    · obtain ⟨rfl, hop, -⟩ : .insert [0x61] 0 = op ∧ .remove [0x62] = HashOp.remove name ∧ [] = after := by
        simpa using heq
      cases hop
      decide
    · simp at heq
  obtain ⟨h, hrun⟩ : ∃ h, runOps [.insert [0x61] 0, .remove [0x62]] = some h := ⟨_, rfl⟩
  obtain ⟨h', hremove, hdel⟩ := (removeBinding_deletes_iff _ [0x63] h hops hrun).mpr (by decide)
  exact ⟨h, h', hrun, hremove, hdel⟩

/-- The index of `a` is 0 and its entry is not the first: it is still there afterwards. -/
theorem removeBinding_keepsName :
    ∃ h h', runOps [.insert [0x61] 0] = some h ∧ h.removeBinding [0x61] = some h' ∧
      h'.findBindingIndexByName [0x61] = 0 ∧ ¬ Deletes (inserted [.insert [0x61] 0]) [0x61] h h' := by
  refine ⟨_, _, rfl, rfl, by decide +kernel, fun hdel => ?_⟩
  have hgone := hdel.gone
  revert hgone
  decide +kernel

end RawBindingHash

end Text

end SexprWasm
