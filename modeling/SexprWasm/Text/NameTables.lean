import Mathlib.Data.List.Count
import SexprWasm.Text.BindingHashRuns
import SexprWasm.Text.LinkedModule

/-!
# Tables that are given null names

The reader of binaries binds every name of a name section, and one
without characters as a null slice. `RawBindingHash` again, for slices
that may be null: the entry that such a name claims still looks free, but
it is on no list. So a table is what it should be after each of its
insertions only if none of the names is null
(`Insertions.linkedThroughout_iff`).
-/

namespace SexprWasm

namespace Text

open Links

namespace RawBindingHash

variable (h : RawBindingHash)

/-- The end of `hash_new_entry` for any slice, with the index its callers store. -/
def claimSlice (entry : Nat) (name : StringSlice) (index : Int) : RawBindingHash :=
  h.put entry { h.entry entry with name, index, prev := none }

/-- `hash_new_entry` for any slice; a null one hashes like the empty name. -/
def newSlice (name : StringSlice) (index : Int) : Option RawBindingHash :=
  let entry := h.mainEntry (name.getD [])
  if h.entryIsFree entry then
    some (((h.unlink entry).setNext entry none).claimSlice entry name index)
  else
    match h.freeHead with
    | none => none
    | some freeEntry =>
      let freeNext := h.next freeEntry
      let h := { h with freeHead := freeNext }.linkPrev freeNext none
      let otherEntry := h.mainEntry ((h.entry entry).name.getD [])
      if otherEntry = entry then
        let h := h.setNext freeEntry (h.next entry)
        some ((h.setNext entry (some freeEntry)).claimSlice freeEntry name index)
      else if h.entryIsFree otherEntry then none
      else
        match h.findPrevious h.capacity otherEntry entry with
        | none => none
        | some otherEntry =>
          let h := h.setNext otherEntry (some freeEntry)
          let h := h.put freeEntry (h.entry entry)
          some ((h.setNext entry none).claimSlice entry name index)

/-- `wasm_insert_binding` for any slice, and the store of the index that follows it. -/
def insertSlice (name : StringSlice) (index : Int) : Option RawBindingHash :=
  (if h.size = 0 then h.resize initialHashCapacity else some h).bind fun h =>
  (if h.freeHead = none then h.resize (h.capacity * 2) else some h).bind fun h =>
  (h.newSlice name index).map fun h => { h with size := h.size + 1 }

/-- The name of an entry is zeroed. -/
def zeroName (p : Nat) : RawBindingHash := h.put p { h.entry p with name := none }

variable {h} {h' : RawBindingHash} {p : Nat} {name : Name} {index : Int}

theorem insertSlice_some : h.insertSlice (some name) index = h.insertBinding name index := rfl

theorem claimSlice_none (hp : p < h.capacity) :
    h.claimSlice p none index = (h.claim p [] index).zeroName p := by
  rw [zeroName, entry_claim hp, if_pos rfl, claim, claimSlice, put, put, put, List.set_set]

theorem claim_name (hp : p < h.capacity) : ((h.claim p name index).entry p).name = some name := by
  rw [entry_claim hp, if_pos rfl]

/-- A null name is bound as the empty name is, but that its entry is left without a name. -/
theorem newSlice_none (hl : h.LaidOut) (hpos : 0 < h.capacity)
    (hnew : h.newEntry [] index = some h') :
    ∃ p < h'.capacity, (h'.entry p).name = some [] ∧
      h.newSlice none index = some (h'.zeroName p) := by
  have hmain : h.mainEntry [] < h.capacity := Nat.mod_lt _ hpos
  have hhead : ∀ head, ({ h with freeHead := head } : RawBindingHash).capacity = h.capacity :=
    fun _ => rfl
  rw [newEntry] at hnew
  rw [newSlice, Option.getD_none]
  by_cases hfree : h.entryIsFree (h.mainEntry [])
  · simp only [hfree, if_true, Option.some.injEq] at hnew ⊢
    subst hnew
    refine ⟨h.mainEntry [], ?_, claim_name ?_, claimSlice_none ?_⟩ <;> simpa [claim, unlink] using hmain
  · cases hfreeHead : h.freeHead with
    | none => simp [hfree, hfreeHead] at hnew
    | some f =>
      have hf : f < h.capacity := by
        obtain ⟨chain, free, hl⟩ := hl
        cases hlist : free with
        | nil =>
          have hseg := hl.freeSeg
          rw [hlist, hfreeHead] at hseg
          cases hseg
        | cons q free =>
          have hseg := hl.freeSeg
          rw [hlist, hfreeHead] at hseg
          obtain rfl : f = q := by simpa using hseg.1
          exact ((hl.memFree f).mp (hlist ▸ List.mem_cons_self)).1
      rw [if_neg hfree] at hnew ⊢
      simp only [hfreeHead] at hnew ⊢
      split at hnew
      case isTrue hown =>
        rw [if_pos hown]
        cases hnew
        refine ⟨f, ?_, claim_name ?_, congrArg some (claimSlice_none ?_)⟩ <;>
          simpa [claim, hhead] using hf
      case isFalse hother =>
        rw [if_neg hother]
        split at hnew
        case isTrue => cases hnew
        case isFalse hused =>
          rw [if_neg hused]
          generalize findPrevious _ _ _ _ = previous at hnew ⊢
          cases previous with
          | none => cases hnew
          | some otherEntry =>
            cases hnew
            refine ⟨h.mainEntry [], ?_, claim_name ?_, congrArg some (claimSlice_none ?_)⟩ <;>
              simpa [claim, hhead] using hmain

/-- An entry that lost its name is on no list. -/
theorem LaidOut.not_linked_zeroName (hl : h.LaidOut) (hp : p < h.capacity)
    (hname : (h.entry p).name ≠ none) : ¬ (h.zeroName p).Linked := by
  obtain ⟨free, hseg, -, -, hfree⟩ := hl.linked.freeList
  intro hlinked
  obtain ⟨free', hseg', -, -, hfree'⟩ := hlinked.freeList
  have hentry : ∀ q, (h.zeroName p).entry q =
      if q = p then { h.entry p with name := none } else h.entry q := fun q => entry_put hp
  have hnext : (h.zeroName p).next = h.next := by
    funext q
    rw [next, next, hentry]
    split
    case isTrue heq => rw [heq]
    case isFalse hne => rfl
  rw [hnext] at hseg'
  have hmem : p ∈ free := by
    rw [hseg.unique hseg', hfree']
    refine ⟨by rw [zeroName, capacity_put]; exact hp, ?_⟩
    rw [hentry, if_pos rfl]
  exact hname ((hfree p).mp hmem).2

/-- A null name leaves a table that is not what it should be. -/
theorem insertSlice_none (hwf : h.WellFormed) (index : Int) :
    ∃ h', h.insertSlice none index = some h' ∧ ¬ h'.Linked := by
  obtain ⟨h₁, h₂, heq₁, heq₂, hl₂, hroom₂, -⟩ := prepared hwf
  obtain ⟨h₃, heq₃, hl₃, -⟩ := newEntry_spec [] index hl₂ hroom₂
  obtain ⟨p, hp, hname, hslice⟩ := newSlice_none hl₂ (Nat.zero_lt_of_lt hroom₂) heq₃
  refine ⟨{ h₃.zeroName p with size := (h₃.zeroName p).size + 1 }, ?_, fun hlinked => ?_⟩
  · simp [insertSlice, heq₁, heq₂, hslice]
  · refine hl₃.not_linked_zeroName hp (by simp [hname]) ⟨hlinked.reached, hlinked.acyclic, ?_⟩
    exact hlinked.freeList

end RawBindingHash

/-! ## Tables of insertions -/

namespace Insertions

open RawBindingHash

/-- The table after the insertions; the index of a binding is an `int`. -/
def rawTable (insertions : Insertions) : Option RawBindingHash :=
  insertions.foldlM (fun h (name, index) => h.insertSlice name (cInt index)) {}

/-- After each of the insertions the chains and the free list are what they should be. -/
def LinkedThroughout (insertions : Insertions) : Prop :=
  ∀ k, ∃ h, rawTable (insertions.take k) = some h ∧ h.Linked

/-- The insertions, where no name is null. -/
theorem exists_named {insertions : Insertions} (hnamed : ∀ b ∈ insertions, b.1 ≠ none) :
    ∃ named : List (Name × Nat), insertions = named.map fun b => (some b.1, b.2) := by
  induction insertions with
  | nil => exact ⟨[], rfl⟩
  | cons b insertions ih =>
    obtain ⟨named, rfl⟩ := ih fun b hb => hnamed b (List.mem_cons_of_mem _ hb)
    obtain ⟨name | name, index⟩ := b
    · exact absurd rfl (hnamed _ List.mem_cons_self)
    · exact ⟨(name, index) :: named, rfl⟩

theorem rawTable_named (named : List (Name × Nat)) :
    rawTable (named.map fun b => (some b.1, b.2)) =
      insertAll (named.map fun b => (b.1, cInt b.2)) := by
  simp only [rawTable, insertAll, List.foldlM_map, insertSlice_some]

/-- A table without null names finds the names that were inserted once, and no others. -/
theorem rawTable_spec {insertions : Insertions} (hnamed : ∀ b ∈ insertions, b.1 ≠ none) :
    ∃ h, rawTable insertions = some h ∧ h.Linked ∧
      (∀ name index, (some name, index) ∈ insertions →
        (insertions.map Prod.fst).count (some name) = 1 →
          h.findBindingIndexByName name = cInt index) ∧
      ∀ name, some name ∉ insertions.map Prod.fst → h.findBindingIndexByName name = -1 := by
  obtain ⟨named, rfl⟩ := exists_named hnamed
  obtain ⟨h, heq, hlinked, hfound, hnot, -⟩ :=
    insertAll_refines (named.map fun b => (b.1, cInt b.2))
  refine ⟨h, by rw [rawTable_named, heq], hlinked, ?_, ?_⟩
  · intro name index hmem honce
    refine hfound name (cInt index) ?_ ?_
    · obtain ⟨b, hb, heq⟩ := List.mem_map.mp hmem
      cases heq
      exact List.mem_map.mpr ⟨b, hb, rfl⟩
    · rw [List.map_map] at honce ⊢
      rw [← List.count_map_of_injective _ some (fun _ _ h => Option.some.inj h), List.map_map]
      exact honce
  · intro name hname
    refine hnot name fun hmem => hname ?_
    rw [List.map_map, List.mem_map] at hmem ⊢
    obtain ⟨b, hb, heq⟩ := hmem
    exact ⟨b, hb, congrArg some heq⟩

theorem linkedThroughout_of_named {insertions : Insertions}
    (hnamed : ∀ b ∈ insertions, b.1 ≠ none) : insertions.LinkedThroughout := by
  intro k
  obtain ⟨h, heq, hlinked, -⟩ := @rawTable_spec (insertions.take k)
    fun b hb => hnamed b (List.mem_of_mem_take hb)
  exact ⟨h, heq, hlinked⟩

/-- The first null name breaks the table. -/
theorem named_of_linkedThroughout {insertions : Insertions} (h : insertions.LinkedThroughout) :
    ∀ b ∈ insertions, b.1 ≠ none := by
  have hnamed : ∀ k, ∀ b ∈ insertions.take k, b.1 ≠ none := by
    intro k
    induction k with
    | zero => simp
    | succ k ih =>
      cases hk : insertions[k]? with
      | none => simpa [List.take_add_one, hk] using ih
      | some b =>
        obtain ⟨named, hnames⟩ := exists_named ih
        obtain ⟨before, hbefore, hwf, -⟩ := insertAll_spec (named.map fun b => (b.1, cInt b.2))
        rw [← rawTable_named, ← hnames] at hbefore
        obtain ⟨after, hafter, hlinked⟩ := h (k + 1)
        rw [List.take_add_one, hk, rawTable, List.foldlM_append, ← rawTable, hbefore] at hafter
        have hinsert : before.insertSlice b.1 (cInt b.2) = some after := by simpa using hafter
        intro b' hb'
        rw [List.take_add_one, hk, List.mem_append] at hb'
        rcases hb' with hb' | hb'
        · exact ih b' hb'
        · obtain rfl : b' = b := by simpa using hb'
          intro hnull
          obtain ⟨after', hafter', hnot⟩ := insertSlice_none hwf (cInt b'.2)
          rw [hnull, hafter'] at hinsert
          cases hinsert
          exact hnot hlinked
  intro b hb
  exact hnamed insertions.length b (by rwa [List.take_length])

theorem linkedThroughout_iff {insertions : Insertions} :
    insertions.LinkedThroughout ↔ ∀ b ∈ insertions, b.1 ≠ none :=
  ⟨named_of_linkedThroughout, linkedThroughout_of_named⟩

end Insertions

end Text

end SexprWasm
