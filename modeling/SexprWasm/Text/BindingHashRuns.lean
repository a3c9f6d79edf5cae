import SexprWasm.Text.BindingHashSound
import Mathlib.Logic.Relation

/-!
# The table of bindings after any insertions

A table refines the list of the bindings inserted into it: the names
inserted once are found with their indices, the names never inserted are
not found, and the scan for redefinitions reports the names inserted
more than once. What the table is made of is as the chains and the free
list of `Layout` say, in terms of the pointers alone.
-/

namespace SexprWasm

namespace Text

open Links

namespace RawBindingHash

variable {h h' : RawBindingHash} {chain : Nat → List Nat} {free : List Nat} {name : Name} {m p q : Nat}

/-! ## The pointers of the table -/

/-- `next` leads from one entry to the other in one step. -/
def Follows (h : RawBindingHash) (p q : Nat) : Prop := h.next p = some q

/-- What the pointers of a table are: a used entry is reached from the main position of its name
and does not lead back to itself, and the free list is the entries that are not used. -/
structure Linked (h : RawBindingHash) : Prop where
  reached : ∀ p < h.capacity, ∀ name, (h.entry p).name = some name →
    Relation.ReflTransGen h.Follows (h.mainEntry name) p
  acyclic : ∀ p < h.capacity, (h.entry p).name ≠ none → ¬ Relation.TransGen h.Follows p p
  freeList : ∃ free, Seg h.next h.freeHead free none ∧ Back h.prev none free ∧ free.Nodup ∧
    ∀ p, p ∈ free ↔ p < h.capacity ∧ (h.entry p).name = none

theorem reflTransGen_of_seg {l : List Nat} {b : Option Nat} :
    ∀ {a : Nat}, Seg h.next (some a) l b → q ∈ l → Relation.ReflTransGen h.Follows a q := by
  induction l with
  | nil => intro a _ hq; cases hq
  | cons c l ih =>
    intro a hseg hq
    obtain ⟨hac, hrest⟩ := hseg
    obtain rfl : a = c := Option.some.inj hac
    rcases List.mem_cons.mp hq with rfl | hq
    · exact .refl
    · obtain ⟨d, hd⟩ : ∃ d, h.next a = some d := by
        cases hn : h.next a with
        | none =>
          rw [hn] at hrest
          cases l with
          | nil => cases hq
          | cons e l => cases hrest.1
        | some d => exact ⟨d, rfl⟩
      exact .head hd (ih (hd ▸ hrest) hq)

/-- A list that ends gets shorter along its pointers. -/
theorem seg_of_transGen {l : List Nat} (hseg : Seg h.next (some p) l none)
    (hpq : Relation.TransGen h.Follows p q) :
    ∃ l', Seg h.next (some q) l' none ∧ l'.length < l.length := by
  have hstep : ∀ {a b : Nat} {l : List Nat}, Seg h.next (some a) l none → h.Follows a b →
      ∃ l', Seg h.next (some b) l' none ∧ l'.length < l.length := by
    intro a b l hl hab
    cases l with
    | nil => cases hl
    | cons c l =>
      obtain ⟨hac, hrest⟩ := hl
      obtain rfl : a = c := Option.some.inj hac
      exact ⟨l, hab ▸ hrest, Nat.lt_succ_self _⟩
  induction hpq with
  | single hab => exact hstep hseg hab
  | tail _ hbc ih =>
    obtain ⟨l', hl', hlt⟩ := ih
    obtain ⟨l'', hl'', hlt'⟩ := hstep hl' hbc
    exact ⟨l'', hl'', Nat.lt_trans hlt' hlt⟩

theorem not_transGen_of_seg {l : List Nat} (hseg : Seg h.next (some p) l none) :
    ¬ Relation.TransGen h.Follows p p := by
  intro hcycle
  obtain ⟨l', hl', hlt⟩ := seg_of_transGen hseg hcycle
  rw [hseg.unique hl'] at hlt
  exact Nat.lt_irrefl _ hlt

theorem LaidOut.linked (hl : h.LaidOut) : h.Linked := by
  obtain ⟨chain, free, hl⟩ := hl
  refine ⟨fun p hp name hname => ?_, fun p hp hused => ?_, free, hl.freeSeg, hl.freeBack, hl.freeNodup,
    fun p => ?_⟩
  · have hmem : p ∈ chain (h.mainEntry name) := (hl.memChain _ p).mpr ⟨hp, name, hname, rfl⟩
    exact reflTransGen_of_seg (hl.chainSeg _ (List.ne_nil_of_mem hmem)) hmem
  · obtain ⟨name, hname⟩ := Option.ne_none_iff_exists'.mp hused
    have hmem : p ∈ chain (h.mainEntry name) := (hl.memChain _ p).mpr ⟨hp, name, hname, rfl⟩
    obtain ⟨l, l', hsplit⟩ := List.append_of_mem hmem
    have hseg := hl.chainSeg _ (List.ne_nil_of_mem hmem)
    rw [hsplit] at hseg
    have hrest : Seg h.next (some p) (p :: l') none := ⟨rfl, (seg_append_cons.mp hseg).2⟩
    exact not_transGen_of_seg hrest
  · rw [hl.memFree]
    simp

/-! ## The names reported -/

/-- The names of the pairs that the two inner loops of `check_duplicate_bindings` report. -/
def chainDuplicates (h : RawBindingHash) : List Nat → List Name
  | [] => []
  | a :: rest =>
    (rest.filterMap fun b => if (h.entry a).name = (h.entry b).name then (h.entry a).name else none) ++
      h.chainDuplicates rest

/-- The names `check_duplicate_bindings` reports, one for each of its messages. -/
def duplicateNames (h : RawBindingHash) : List Name :=
  (List.range h.capacity).flatMap fun i =>
    if !h.entryIsFree i && (h.prev i).isNone then h.chainDuplicates (h.chainFrom h.capacity i) else []

theorem mem_chainDuplicates {c : List Nat} :
    name ∈ h.chainDuplicates c ↔ 2 ≤ c.countP fun p => (h.entry p).name = some name := by
  induction c with
  | nil => simp [chainDuplicates]
  | cons a c ih =>
    rw [chainDuplicates, List.mem_append, ih, List.mem_filterMap, List.countP_cons]
    have hpos : (∃ b ∈ c, (h.entry b).name = some name) ↔
        0 < c.countP fun p => (h.entry p).name = some name := by
      simp [List.countP_pos_iff]
    by_cases ha : (h.entry a).name = some name
    · have hpair : (∃ b ∈ c, (if (h.entry a).name = (h.entry b).name then (h.entry a).name else none) =
          some name) ↔ ∃ b ∈ c, (h.entry b).name = some name := by
        refine exists_congr fun b => and_congr_right fun _ => ?_
        rw [ha]
        constructor
        · intro heq
          split at heq
          · rename_i hb
            exact hb.symm
          · cases heq
        · intro hb
          rw [if_pos hb.symm]
      rw [hpair, hpos]
      simp only [ha, decide_true, if_true]
      omega
    · have hpair : ¬ ∃ b ∈ c, (if (h.entry a).name = (h.entry b).name then (h.entry a).name else none) =
          some name := by
        rintro ⟨b, -, heq⟩
        split at heq
        · exact ha heq
        · cases heq
      simp [hpair, ha]

/-- All entries of a name are in the chain of its main position. -/
theorem Layout.countP_chain (hl : h.Layout chain free none) (name : Name) :
    (chain (h.mainEntry name)).countP (fun p => (h.entry p).name = some name) =
      (List.range h.capacity).countP fun p => (h.entry p).name = some name := by
  rw [List.countP_eq_length_filter, List.countP_eq_length_filter]
  refine List.Perm.length_eq ((List.perm_ext_iff_of_nodup ((hl.chainNodup _).filter _)
    (List.nodup_range.filter _)).mpr fun p => ?_)
  rw [List.mem_filter, List.mem_filter, hl.memChain, List.mem_range]
  constructor
  · rintro ⟨⟨hp, -⟩, hname⟩
    exact ⟨hp, hname⟩
  · rintro ⟨hp, hname⟩
    exact ⟨⟨hp, name, of_decide_eq_true hname, rfl⟩, hname⟩

/-- From an entry of a chain on, the scan sees the rest of the chain. -/
theorem Layout.chainFrom (hl : h.Layout chain free none) {l l' : List Nat} (hsplit : chain m = l ++ p :: l') :
    h.chainFrom h.capacity p = p :: l' := by
  have hseg := hl.chainSeg m (by simp [hsplit])
  have hlen := hl.length_chain_le (m := m)
  rw [hsplit] at hseg hlen
  refine chainFrom_eq ⟨rfl, (seg_append_cons.mp hseg).2⟩ ?_
  simp at hlen ⊢
  omega

theorem count_names (name : Name) :
    (h.bindings.map Prod.fst).count name =
      (List.range h.capacity).countP fun p => (h.entry p).name = some name := by
  have hnames : h.bindings.map Prod.fst =
      (List.range h.capacity).filterMap fun p => (h.entry p).name := by
    rw [bindings_eq, List.map_filterMap]
    refine List.filterMap_congr fun p _ => ?_
    cases hn : (h.entry p).name <;> simp [binding?, hn]
  rw [hnames, List.count_eq_countP, List.countP_filterMap]
  refine List.countP_congr fun p _ => ?_
  cases hn : (h.entry p).name <;> simp

/-- `check_duplicate_bindings` reports the names that are bound more than once. -/
theorem mem_duplicateNames (hl : h.LaidOut) :
    name ∈ h.duplicateNames ↔ 2 ≤ (h.bindings.map Prod.fst).count name := by
  obtain ⟨chain, free, hl⟩ := hl
  rw [count_names, ← hl.countP_chain, duplicateNames, List.mem_flatMap]
  constructor
  · rintro ⟨i, hi, hmem⟩
    split at hmem
    · rename_i hscan
      have hused : (h.entry i).name ≠ none := by
        intro hnone
        simp [entryIsFree, hnone] at hscan
      obtain ⟨n, hn⟩ := Option.ne_none_iff_exists'.mp hused
      have hmain : i ∈ chain (h.mainEntry n) :=
        (hl.memChain _ i).mpr ⟨List.mem_range.mp hi, n, hn, rfl⟩
      obtain ⟨l, l', hsplit⟩ := List.append_of_mem hmain
      rw [hl.chainFrom hsplit, mem_chainDuplicates] at hmem
      have hle : 2 ≤ (chain (h.mainEntry n)).countP fun p => (h.entry p).name = some name := by
        rw [hsplit, List.countP_append]
        omega
      -- the chain holds an entry of the name, so it is the chain of the name
      obtain ⟨p, hp, hname⟩ := List.countP_pos_iff.mp (Nat.lt_of_lt_of_le Nat.zero_lt_two hle)
      obtain ⟨-, n', hn', hk⟩ := (hl.memChain _ p).mp hp
      rw [of_decide_eq_true hname] at hn'
      cases hn'
      rwa [hk]
    · cases hmem
  · intro hle
    obtain ⟨p, hp, -⟩ := List.countP_pos_iff.mp (Nat.lt_of_lt_of_le Nat.zero_lt_two hle)
    have hmain := hl.main_mem hp
    obtain ⟨hlt, hused⟩ := hl.used_of_mem hmain
    refine ⟨h.mainEntry name, List.mem_range.mpr hlt, ?_⟩
    have hfree : h.entryIsFree (h.mainEntry name) = false := by
      simpa [entryIsFree, Option.isNone_eq_false_iff, Option.isSome_iff_ne_none] using hused
    have hfull : h.chainFrom h.capacity (h.mainEntry name) = chain (h.mainEntry name) :=
      chainFrom_eq (hl.chainSeg _ (List.ne_nil_of_mem hmain)) hl.length_chain_le
    simp only [hfree, hl.prevUsed _ hused, Bool.not_false, Option.isNone_none, Bool.and_self, if_true]
    rw [hfull, mem_chainDuplicates]
    exact hle

theorem reportsDuplicate_iff_duplicateNames (hl : h.LaidOut) :
    h.reportsDuplicate = true ↔ ∃ name, name ∈ h.duplicateNames := by
  rw [← Bool.not_eq_false, reportsDuplicate_eq_false hl, List.nodup_iff_count_le_one]
  rw [not_forall]
  refine exists_congr fun name => ?_
  rw [Nat.not_le]
  exact (mem_duplicateNames hl).symm

/-! ## Runs of insertions -/

/-- The bindings inserted into an empty table, in order; `none` if an assertion fails. -/
def insertAll (inserted : List (Name × Int)) : Option RawBindingHash :=
  inserted.foldlM (fun h binding => h.insertBinding binding.1 binding.2) {}

theorem insertAll_from (inserted : List (Name × Int)) (hwf : h.WellFormed) :
    ∃ h', inserted.foldlM (fun h binding => h.insertBinding binding.1 binding.2) h = some h' ∧
      h'.WellFormed ∧ h'.bindings.Perm (inserted ++ h.bindings) := by
  induction inserted generalizing h with
  | nil => exact ⟨h, rfl, hwf, .refl _⟩
  | cons binding inserted ih =>
    obtain ⟨h₁, heq₁, hwf₁, hperm₁⟩ := insertBinding_spec hwf binding.1 binding.2
    obtain ⟨h', heq', hwf', hperm'⟩ := ih hwf₁
    refine ⟨h', ?_, hwf', ?_⟩
    · rw [List.foldlM_cons, heq₁]
      exact heq'
    · exact hperm'.trans ((hperm₁.append_left inserted).trans List.perm_middle)

theorem insertAll_spec (inserted : List (Name × Int)) :
    ∃ h, insertAll inserted = some h ∧ h.WellFormed ∧ h.bindings.Perm inserted := by
  obtain ⟨h, heq, hwf, hperm⟩ := insertAll_from inserted wellFormed_empty
  exact ⟨h, heq, hwf, by simpa [bindings] using hperm⟩

/-- A name that is bound once is found with its index. -/
theorem find_of_count_eq_one (hl : h.LaidOut) {index : Int} (hmem : (name, index) ∈ h.bindings)
    (honce : (h.bindings.map Prod.fst).count name = 1) : h.findBindingIndexByName name = index := by
  rcases find_cases hl name with hfound | ⟨-, hnot⟩
  · by_contra hne
    obtain ⟨l, l', hsplit⟩ := List.append_of_mem hmem
    have hother : (name, h.findBindingIndexByName name) ∈ l ++ l' := by
      rw [hsplit] at hfound
      rcases List.mem_append.mp hfound with hl | hl
      · exact List.mem_append_left _ hl
      · rcases List.mem_cons.mp hl with heq | hl
        · exact absurd (Prod.mk.inj heq).2 hne
        · exact List.mem_append_right _ hl
    have hcount : 0 < ((l ++ l').map Prod.fst).count name :=
      List.count_pos_iff.mpr (List.mem_map.mpr ⟨_, hother, rfl⟩)
    rw [hsplit] at honce
    simp only [List.map_append, List.map_cons, List.count_append, List.count_cons_self] at honce hcount
    omega
  · exact absurd hmem (hnot index)

/-- The table that any insertions leave refines the list of the bindings inserted. -/
theorem insertAll_refines (inserted : List (Name × Int)) :
    ∃ h, insertAll inserted = some h ∧ h.Linked ∧
      (∀ name index, (name, index) ∈ inserted → (inserted.map Prod.fst).count name = 1 →
        h.findBindingIndexByName name = index) ∧
      (∀ name, name ∉ inserted.map Prod.fst → h.findBindingIndexByName name = -1) ∧
      ∀ name, name ∈ h.duplicateNames ↔ 2 ≤ (inserted.map Prod.fst).count name := by
  obtain ⟨h, heq, hwf, hperm⟩ := insertAll_spec inserted
  have hnames := hperm.map Prod.fst
  refine ⟨h, heq, hwf.laidOut.linked, ?_, ?_, ?_⟩
  · intro name index hmem honce
    exact find_of_count_eq_one hwf.laidOut (hperm.mem_iff.mpr hmem) ((hnames.count_eq name).trans honce)
  · intro name hnot
    rcases find_cases hwf.laidOut name with hfound | ⟨hnone, -⟩
    · exact absurd (hnames.mem_iff.mp (List.mem_map.mpr ⟨_, hfound, rfl⟩)) hnot
    · exact hnone
  · intro name
    rw [mem_duplicateNames hwf.laidOut, hnames.count_eq]

end RawBindingHash

end Text

end SexprWasm
