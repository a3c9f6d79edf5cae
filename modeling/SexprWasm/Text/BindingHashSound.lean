import Mathlib.Data.List.Pairwise
import SexprWasm.Text.BindingHash

/-!
# The table of bindings holds what was inserted

Each of the three ways `newEntry` places a name keeps the table laid
out: the entry it takes leaves the free list (`Layout.unlink`), and from
then on belongs to the chain of its name's main position. Lookups and
the scan for redefinitions walk one chain, and a chain has every entry
of a name in it.
-/

namespace SexprWasm

namespace Text

open Links

namespace RawBindingHash

variable {h h' : RawBindingHash} {chain : Nat → List Nat} {free l l' : List Nat}
  {loose : Option Nat} {p q m : Nat} {name : Name} {index : Int}

theorem Layout.used_of_mem (hl : h.Layout chain free loose) (hp : p ∈ chain m) :
    p < h.capacity ∧ (h.entry p).name ≠ none := by
  obtain ⟨hlt, n, hn, _⟩ := (hl.memChain m p).mp hp
  exact ⟨hlt, by simp [hn]⟩

theorem Layout.notMem_free (hl : h.Layout chain free loose) (hp : p ∈ chain m) : p ∉ free := by
  intro hf
  exact (hl.used_of_mem hp).2 ((hl.memFree p).mp hf).2.1

/-- A chain starts at its main position. -/
theorem Layout.main_mem (hl : h.Layout chain free loose) (hp : p ∈ chain m) : m ∈ chain m := by
  have hne : chain m ≠ [] := List.ne_nil_of_mem hp
  have hseg := hl.chainSeg m hne
  cases hc : chain m with
  | nil => exact absurd hc hne
  | cons q l =>
    rw [hc] at hseg
    have : m = q := by simpa using hseg.1
    simp [this]

/-! ## Taking an entry off the free list -/

@[simp] theorem capacity_unlink : (h.unlink p).capacity = h.capacity := by
  simp [unlink]

@[simp] theorem size_unlink : (h.unlink p).size = h.size := by
  simp [unlink]

theorem freeHead_unlink_of_none (hp : h.prev p = none) : (h.unlink p).freeHead = h.next p := by
  simp [unlink, hp]

theorem freeHead_unlink_of_some (hp : h.prev p = some q) : (h.unlink p).freeHead = h.freeHead := by
  simp [unlink, hp]

theorem entry_unlink (hn : ∀ q, h.next p = some q → q < h.capacity)
    (hp : ∀ q, h.prev p = some q → q < h.capacity) :
    (h.unlink p).entry q =
      { h.entry q with
        next := if h.prev p = some q then h.next p else h.next q
        prev := if h.next p = some q then h.prev p else h.prev q } := by
  have hp' : ∀ q, h.prev p = some q → q < (h.linkPrev (h.next p) (h.prev p)).capacity := by
    simpa using hp
  rw [RawBindingHash.unlink, entry_linkNext hp', entry_linkPrev hn]
  rfl

/-- An entry that leaves the free list is loose; the chains keep their entries and links. -/
theorem Layout.unlink (hl : h.Layout chain (l ++ p :: l') none) :
    (h.unlink p).Layout chain (l ++ l') (some p) ∧
      (∀ q, ((h.unlink p).entry q).name = (h.entry q).name) ∧
      (∀ q, ((h.unlink p).entry q).index = (h.entry q).index) := by
  have hfree : ∀ q ∈ l ++ p :: l', q < h.capacity ∧ (h.entry q).name = none := by
    intro q hq
    obtain ⟨h1, h2, _⟩ := (hl.memFree q).mp hq
    exact ⟨h1, h2⟩
  obtain ⟨hpnot, hnd⟩ := List.nodup_cons.mp (List.nodup_middle.mp hl.freeNodup)
  obtain ⟨hndl, hndl', hdisj⟩ := List.nodup_append.mp hnd
  obtain ⟨hseg₁, hseg₂⟩ := seg_append_cons.mp hl.freeSeg
  obtain ⟨hback₁, hprev, hback₂⟩ := back_append.mp hl.freeBack
  have hnext : h.next p = l'.head? := hseg₂.head?_eq.symm
  have hnlt : ∀ q, h.next p = some q → q < h.capacity := by
    intro q hq
    rw [hnext] at hq
    exact (hfree q (by simp [List.mem_of_mem_head? hq])).1
  have hlast : ∀ q, lastOr none l = some q → q ∈ l := by
    intro q hq
    rcases l.eq_nil_or_concat' with rfl | ⟨l, r, rfl⟩
    · cases hq
    · have : r = q := by simpa using hq
      simp [this]
  have hplt : ∀ q, h.prev p = some q → q < h.capacity := by
    intro q hq
    rw [hprev] at hq
    exact (hfree q (by simp [hlast q hq])).1
  have hentry := fun q => entry_unlink (q := q) hnlt hplt
  have hused : ∀ q, (h.entry q).name ≠ none → (h.unlink p).entry q = h.entry q := by
    intro q hq
    have h1 : h.prev p ≠ some q := fun e =>
      hq (hfree q (by simp [hlast q (hprev ▸ e)])).2
    have h2 : h.next p ≠ some q := fun e =>
      hq (hfree q (by simp [List.mem_of_mem_head? (hnext ▸ e)])).2
    rw [hentry q, if_neg h1, if_neg h2]
    rfl
  have hname : ∀ q, ((h.unlink p).entry q).name = (h.entry q).name := fun q => by rw [hentry q]
  have hbelongs : ∀ m q, (h.unlink p).Belongs m q ↔ h.Belongs m q := by
    intro m q
    simp [Belongs, hname, mainEntry]
  refine ⟨⟨?_, hl.chainNodup, ?_, ?_, ?_, ?_, ?_, ?_⟩, hname, fun q => by rw [hentry q]⟩
  · intro m hm
    refine (hl.chainSeg m hm).congr fun q hq => ?_
    rw [next, hused q (hl.used_of_mem hq).2]
    rfl
  · intro m q
    rw [hbelongs, hl.memChain]
  · rcases l.eq_nil_or_concat' with rfl | ⟨l, r, rfl⟩
    · have hnone : h.prev p = none := hprev
      rw [freeHead_unlink_of_none hnone]
      refine hseg₂.congr fun q _ => ?_
      simp [next, hentry q, hnone]
    · have hsome : h.prev p = some r := by simpa using hprev
      obtain ⟨hseg₀, -⟩ := seg_append_singleton.mp hseg₁
      have hnext' : ∀ q, q ≠ r → (h.unlink p).next q = h.next q := by
        intro q hq
        have hrq : r ≠ q := fun e => hq e.symm
        simp [next, hentry q, hsome, hrq]
      have hr : (h.unlink p).next r = h.next p := by simp [next, hentry r, hsome]
      have hrl : r ∉ l := fun hr => by
        have := (List.nodup_append.mp hndl).2.2 r hr r (by simp)
        exact this rfl
      have hrl' : r ∉ l' := fun hr => hdisj r (by simp) r hr rfl
      rw [freeHead_unlink_of_some hsome, List.append_assoc]
      refine seg_append_cons.mpr ⟨hseg₀.congr fun q hq => ?_, ?_⟩
      · exact hnext' q fun e => hrl (e ▸ hq)
      · rw [hr]
        exact hseg₂.congr fun q hq => hnext' q fun e => hrl' (e ▸ hq)
  · have hprev' : ∀ q, h.next p ≠ some q → (h.unlink p).prev q = h.prev q := by
      intro q hq
      simp [prev, hentry q, hq]
    refine back_append.mpr ⟨hback₁.congr fun q hq => hprev' q fun e => ?_, ?_⟩
    · have : q ∈ l' := List.mem_of_mem_head? (hnext ▸ e)
      exact hdisj q hq q this rfl
    · cases l' with
      | nil => trivial
      | cons n l' =>
        have hn : h.next p = some n := hnext
        refine ⟨?_, hback₂.2.congr fun q hq => hprev' q fun e => ?_⟩
        · simpa [prev, hentry n, hn] using hprev
        · obtain rfl : n = q := by simpa [hn] using e
          exact (List.nodup_cons.mp hndl').1 hq
  · exact hnd
  · intro q
    have hmem := hl.memFree q
    rw [hname, capacity_unlink]
    by_cases hq : q = p
    · simp [hq, hpnot]
    · have hpq : p ≠ q := fun e => hq e.symm
      simpa [hq, hpq] using hmem
  · intro q hq
    rw [hname] at hq
    rw [prev, hused q hq]
    exact hl.prevUsed q hq

/-! ## Placing a name -/

/-- What the entry `p` binds. -/
def binding? (h : RawBindingHash) (p : Nat) : Option (Name × Int) :=
  (h.entry p).name.map fun name => (name, (h.entry p).index)

theorem bindings_eq : h.bindings = (List.range h.capacity).filterMap h.binding? := by
  have hentries : h.entries = (List.range h.capacity).map h.entry := by
    refine List.ext_getElem (by simp [capacity]) fun i h₁ h₂ => ?_
    simp [entry, List.getD_eq_getElem?_getD, List.getElem?_eq_getElem h₁]
  rw [bindings, hentries, List.filterMap_map]
  rfl

/-- A free entry gets a binding and the rest keep theirs. -/
theorem bindings_perm_of_place (hcap : h'.capacity = h.capacity) (hf : q < h.capacity)
    (hfree : h.binding? q = none) {b : Name × Int} (hb : h'.binding? q = some b)
    (hrest : ∀ r, r ≠ q → h'.binding? r = h.binding? r) :
    h'.bindings.Perm (b :: h.bindings) := by
  have hsplit : (List.range h.capacity).Perm (q :: (List.range h.capacity).erase q) :=
    List.perm_cons_erase (List.mem_range.mpr hf)
  have hsame : ((List.range h.capacity).erase q).filterMap h'.binding? =
      ((List.range h.capacity).erase q).filterMap h.binding? := by
    refine List.filterMap_congr fun r hr => hrest r fun e => ?_
    exact (List.nodup_range.mem_erase_iff.mp hr).1 e
  have h₁ := hsplit.filterMap h'.binding?
  have h₂ := hsplit.filterMap h.binding?
  rw [List.filterMap_cons_some hb, hsame] at h₁
  rw [List.filterMap_cons_none hfree] at h₂
  rw [bindings_eq, bindings_eq, hcap]
  exact h₁.trans (h₂.symm.cons b)

/-- A free entry takes over the binding of `p`, which gets another. -/
theorem bindings_perm_of_move (hcap : h'.capacity = h.capacity) (hf : q < h.capacity)
    (hp : p < h.capacity) (hqp : p ≠ q) (hfree : h.binding? q = none)
    (hmove : h'.binding? q = h.binding? p) {b : Name × Int} (hb : h'.binding? p = some b)
    (hrest : ∀ r, r ≠ q → r ≠ p → h'.binding? r = h.binding? r) :
    h'.bindings.Perm (b :: h.bindings) := by
  set rest := ((List.range h.capacity).erase q).erase p with hrestdef
  have hmem : p ∈ (List.range h.capacity).erase q :=
    List.nodup_range.mem_erase_iff.mpr ⟨hqp, List.mem_range.mpr hp⟩
  have hsplit : (List.range h.capacity).Perm (q :: p :: rest) :=
    (List.perm_cons_erase (List.mem_range.mpr hf)).trans ((List.perm_cons_erase hmem).cons q)
  have hsame : rest.filterMap h'.binding? = rest.filterMap h.binding? := by
    refine List.filterMap_congr fun r hr => ?_
    obtain ⟨hrp, hr⟩ := (List.nodup_range.erase q).mem_erase_iff.mp hr
    exact hrest r (List.nodup_range.mem_erase_iff.mp hr).1 hrp
  have h₁ := hsplit.filterMap h'.binding?
  have h₂ := hsplit.filterMap h.binding?
  rw [bindings_eq, bindings_eq, hcap]
  cases hbp : h.binding? p with
  | none =>
    rw [hbp] at hmove
    rw [List.filterMap_cons_none hmove, List.filterMap_cons_some hb, hsame] at h₁
    rw [List.filterMap_cons_none hfree, List.filterMap_cons_none hbp] at h₂
    exact h₁.trans (h₂.symm.cons b)
  | some c =>
    rw [hbp] at hmove
    rw [List.filterMap_cons_some hmove, List.filterMap_cons_some hb, hsame] at h₁
    rw [List.filterMap_cons_none hfree, List.filterMap_cons_some hbp] at h₂
    exact h₁.trans ((List.Perm.swap b c _).trans (h₂.symm.cons b))

@[simp] theorem capacity_claim : (h.claim p name index).capacity = h.capacity :=
  capacity_put

@[simp] theorem size_claim : (h.claim p name index).size = h.size := rfl

theorem entry_claim (hp : p < h.capacity) :
    (h.claim p name index).entry q =
      if q = p then { h.entry p with name := some name, index, prev := none } else h.entry q :=
  entry_put hp

/-- What a placement has to show: how the chains change, and that the free entries are left
alone. -/
theorem Layout.place {chain' : Nat → List Nat} (hl : h.Layout chain free (some p))
    (hcap : h'.capacity = h.capacity) (hhead : h'.freeHead = h.freeHead)
    (hfree : ∀ q ∈ free, h'.entry q = h.entry q)
    (hname : ∀ q, q ≠ p → ((h'.entry q).name = none ↔ (h.entry q).name = none))
    (hp : (h'.entry p).name ≠ none) (hprev : ∀ q, (h'.entry q).name ≠ none → h'.prev q = none)
    (hseg : ∀ m, chain' m ≠ [] → Seg h'.next (some m) (chain' m) none)
    (hnodup : ∀ m, (chain' m).Nodup) (hmem : ∀ m q, q ∈ chain' m ↔ h'.Belongs m q) :
    h'.Layout chain' free none where
  chainSeg := hseg
  chainNodup := hnodup
  memChain := hmem
  freeSeg := by
    rw [hhead]
    refine hl.freeSeg.congr fun q hq => ?_
    rw [next, hfree q hq]
    rfl
  freeBack := by
    refine hl.freeBack.congr fun q hq => ?_
    rw [prev, hfree q hq]
    rfl
  freeNodup := hl.freeNodup
  memFree q := by
    rw [hl.memFree q, hcap]
    by_cases hq : q = p
    · simp [hq, hp]
    · have hpq : p ≠ q := fun e => hq e.symm
      simp [hname q hq, hpq]
  prevUsed := hprev

/-- The main position is free: the name starts a chain. -/
theorem Layout.placeAtMain (name : Name) (index : Int) (hl : h.Layout chain free (some m))
    (hm : h.mainEntry name = m) (hlt : m < h.capacity) (hnone : (h.entry m).name = none) :
    ((h.setNext m none).claim m name index).Layout (Function.update chain m [m]) free none ∧
      ((h.setNext m none).claim m name index).bindings.Perm ((name, index) :: h.bindings) := by
  set h' := (h.setNext m none).claim m name index with hh'
  have hcap : h'.capacity = h.capacity := by simp [hh']
  have hentry : ∀ q, h'.entry q = if q = m then ⟨some name, index, none, none⟩ else h.entry q := by
    intro q
    rw [hh', entry_claim (by simpa using hlt)]
    by_cases hq : q = m
    · simp [hq, entry_setNext hlt]
    · have hmq : m ≠ q := fun e => hq e.symm
      simp [hq, entry_setNext hlt, hmq]
  have hself : h'.entry m = ⟨some name, index, none, none⟩ := by simp [hentry]
  have hother : ∀ q, q ≠ m → h'.entry q = h.entry q := fun q hq => by simp [hentry, hq]
  have hempty : chain m = [] := by
    by_contra hne
    obtain ⟨q, hq⟩ := List.exists_mem_of_ne_nil _ hne
    exact (hl.used_of_mem (hl.main_mem hq)).2 hnone
  have hnotm : ∀ k, m ∉ chain k := fun k hk => (hl.used_of_mem hk).2 hnone
  refine ⟨hl.place hcap rfl ?_ ?_ ?_ ?_ ?_ ?_ ?_, ?_⟩
  · intro q hq
    exact hother q fun e => ((hl.memFree q).mp hq).2.2 (by rw [e])
  · intro q hq
    rw [hother q hq]
  · simp [hself]
  · intro q hq
    by_cases hqm : q = m
    · rw [prev, hqm, hself]
    · rw [hother q hqm] at hq
      rw [prev, hother q hqm]
      exact hl.prevUsed q hq
  · intro k hk
    by_cases hkm : k = m
    · subst hkm
      simp [next, hself]
    · rw [Function.update_of_ne hkm] at hk ⊢
      refine (hl.chainSeg k hk).congr fun q hq => ?_
      rw [next, hother q fun e => hnotm k (e ▸ hq)]
      rfl
  · intro k
    by_cases hkm : k = m
    · simp [hkm]
    · rw [Function.update_of_ne hkm]
      exact hl.chainNodup k
  · intro k q
    have hmain : ∀ n, h'.mainEntry n = h.mainEntry n := fun n => by simp [mainEntry, hcap]
    have hbel := hl.memChain k q
    simp only [Belongs, hcap, hmain] at hbel ⊢
    by_cases hqm : q = m
    · subst hqm
      by_cases hkm : k = q
      · simp [hkm, hself, hlt, hm]
      · have hmk : ¬ q = k := fun e => hkm e.symm
        simp [Function.update_of_ne hkm, hself, hlt, hm, hmk, hnotm k]
    · rw [hother q hqm]
      by_cases hkm : k = m
      · subst hkm
        rw [hempty] at hbel
        simpa [hqm] using hbel
      · rw [Function.update_of_ne hkm]
        exact hbel
  · refine bindings_perm_of_place (q := m) hcap hlt ?_ ?_ ?_
    · simp [binding?, hnone]
    · simp [binding?, hself]
    · intro r hr
      simp [binding?, hother r hr]

/-- The entry at the main position belongs there: the name is second in its chain. -/
theorem Layout.placeBehindMain {f : Nat} (name : Name) (index : Int)
    (hl : h.Layout chain free (some f)) (hm : h.mainEntry name = m) (hflt : f < h.capacity)
    (hfnone : (h.entry f).name = none) (hmem : m ∈ chain m) :
    (((h.setNext f (h.next m)).setNext m (some f)).claim f name index).Layout
        (Function.update chain m (m :: f :: (chain m).tail)) free none ∧
      (((h.setNext f (h.next m)).setNext m (some f)).claim f name index).bindings.Perm
        ((name, index) :: h.bindings) := by
  set h' := ((h.setNext f (h.next m)).setNext m (some f)).claim f name index with hh'
  obtain ⟨hmlt, hmused⟩ := hl.used_of_mem hmem
  have hmf : m ≠ f := fun e => hmused (e ▸ hfnone)
  have hfm : f ≠ m := fun e => hmf e.symm
  have hcap : h'.capacity = h.capacity := by simp [hh']
  have hlink₁ : ∀ q, (h.setNext f (h.next m)).entry q = _ := fun q => entry_setNext hflt
  have hlink₂ : ∀ q, ((h.setNext f (h.next m)).setNext m (some f)).entry q = _ :=
    fun q => entry_setNext (by simpa using hmlt)
  have hclaim : ∀ q, h'.entry q = _ := fun q => entry_claim (by simpa using hflt)
  have hself : h'.entry f = ⟨some name, index, h.next m, none⟩ := by
    simp [hclaim, hlink₂, hlink₁, hmf]
  have hmain : h'.entry m = { h.entry m with next := some f } := by
    simp [hclaim, hlink₂, hlink₁, hmf]
  have hother : ∀ q, q ≠ f → q ≠ m → h'.entry q = h.entry q := by
    intro q hqf hqm
    have hfq : f ≠ q := fun e => hqf e.symm
    have hmq : m ≠ q := fun e => hqm e.symm
    simp [hclaim, hlink₂, hlink₁, hqf, hfq, hmq]
  have hname : ∀ q, q ≠ f → (h'.entry q).name = (h.entry q).name := by
    intro q hqf
    by_cases hqm : q = m
    · rw [hqm, hmain]
    · rw [hother q hqf hqm]
  have hnotf : ∀ k, f ∉ chain k := fun k hk => (hl.used_of_mem hk).2 hfnone
  have hchain : chain m = m :: (chain m).tail := by
    have hne : chain m ≠ [] := List.ne_nil_of_mem hmem
    have hhead := (hl.chainSeg m hne).head?_eq
    cases hc : chain m with
    | nil => exact absurd hc hne
    | cons q l =>
      rw [hc] at hhead
      have : q = m := by simpa using hhead
      simp [this]
  have hnodup := hl.chainNodup m
  have hseg := hl.chainSeg m (List.ne_nil_of_mem hmem)
  rw [hchain] at hnodup hseg
  obtain ⟨hmtail, htail⟩ := List.nodup_cons.mp hnodup
  have hftail : f ∉ (chain m).tail := fun hf => hnotf m (List.mem_of_mem_tail hf)
  refine ⟨hl.place hcap rfl ?_ ?_ ?_ ?_ ?_ ?_ ?_, ?_⟩
  · intro q hq
    refine hother q (fun e => ((hl.memFree q).mp hq).2.2 (by rw [e])) fun e => ?_
    exact hmused (e ▸ ((hl.memFree q).mp hq).2.1)
  · intro q hq
    rw [hname q hq]
  · simp [hself]
  · intro q hq
    by_cases hqf : q = f
    · rw [prev, hqf, hself]
    · rw [hname q hqf] at hq
      by_cases hqm : q = m
      · rw [prev, hqm, hmain]
        exact hl.prevUsed m hmused
      · rw [prev, hother q hqf hqm]
        exact hl.prevUsed q hq
  · intro k hk
    by_cases hkm : k = m
    · subst hkm
      rw [Function.update_self]
      refine ⟨rfl, by simp [next, hmain], ?_⟩
      rw [next, hself]
      refine hseg.2.congr fun q hq => ?_
      rw [next, hother q (fun e => hftail (e ▸ hq)) fun e => hmtail (e ▸ hq)]
      rfl
    · rw [Function.update_of_ne hkm] at hk ⊢
      refine (hl.chainSeg k hk).congr fun q hq => ?_
      have hqm : q ≠ m := by
        rintro rfl
        obtain ⟨_, n, hn, hnk⟩ := (hl.memChain k q).mp hq
        obtain ⟨_, n', hn', hnm⟩ := (hl.memChain q q).mp hmem
        rw [hn] at hn'
        cases hn'
        exact hkm (hnk.symm.trans hnm)
      rw [next, hother q (fun e => hnotf k (e ▸ hq)) hqm]
      rfl
  · intro k
    by_cases hkm : k = m
    · subst hkm
      rw [Function.update_self]
      simp [hmf, hmtail, hftail, htail]
    · rw [Function.update_of_ne hkm]
      exact hl.chainNodup k
  · intro k q
    have hmainEntry : ∀ n, h'.mainEntry n = h.mainEntry n := fun n => by simp [mainEntry, hcap]
    have hbel := hl.memChain k q
    simp only [Belongs, hcap, hmainEntry] at hbel ⊢
    by_cases hqf : q = f
    · subst hqf
      by_cases hkm : k = m
      · simp [hkm, hself, hflt, hm]
      · have hmk : ¬ m = k := fun e => hkm e.symm
        simp [Function.update_of_ne hkm, hself, hflt, hm, hmk, hnotf k]
    · rw [hname q hqf]
      by_cases hkm : k = m
      · subst hkm
        rw [hchain] at hbel
        simpa [hqf] using hbel
      · rw [Function.update_of_ne hkm]
        exact hbel
  · refine bindings_perm_of_place (q := f) hcap hflt ?_ ?_ ?_
    · simp [binding?, hfnone]
    · simp [binding?, hself]
    · intro r hr
      by_cases hrm : r = m
      · simp [binding?, hrm, hmain]
      · simp [binding?, hother r hr hrm]

/-- The walk down a chain finds the entry before `q`. -/
theorem findPrevious_eq {r : Nat} {a : Nat} {fuel : Nat}
    (hseg : Seg h.next (some a) (l ++ r :: q :: l') none) (hq : q ∉ l) (hrq : r ≠ q)
    (hfuel : l.length < fuel) : h.findPrevious fuel a q = some r := by
  induction l generalizing a fuel with
  | nil =>
    obtain ⟨fuel, rfl⟩ := Nat.exists_eq_succ_of_ne_zero (Nat.ne_of_gt hfuel)
    obtain ⟨har, hnext, -⟩ := hseg
    obtain rfl : a = r := by simpa using har
    simp [findPrevious, hnext]
  | cons b l ih =>
    obtain ⟨fuel, rfl⟩ := Nat.exists_eq_succ_of_ne_zero (Nat.ne_of_gt (Nat.zero_lt_of_lt hfuel))
    obtain ⟨hab, hrest⟩ := hseg
    obtain rfl : a = b := by simpa using hab
    have hql : q ∉ l := fun e => hq (List.mem_cons_of_mem _ e)
    have hlen : l.length < fuel := by simpa using hfuel
    -- the next entry is still in front of `q`
    obtain ⟨c, hc, hcq⟩ : ∃ c, h.next a = some c ∧ c ≠ q := by
      cases l with
      | nil => exact ⟨r, hrest.1, hrq⟩
      | cons c l => exact ⟨c, hrest.1, fun e => hql (by simp [e])⟩
    rw [hc] at hrest
    simp [findPrevious, hc, hcq, ih hrest hql hlen]

/-- The entry at the main position belongs to another chain: it moves to the free entry, and
the name starts a chain in its place. -/
theorem Layout.placeMoving {f r k₀ : Nat} (name : Name) (index : Int)
    (hl : h.Layout chain free (some f))
    (hm : h.mainEntry name = m) (hflt : f < h.capacity) (hfnone : (h.entry f).name = none)
    (hkm : k₀ ≠ m) (hchain : chain k₀ = l ++ r :: m :: l') {h₁ : RawBindingHash}
    (hh₁ : h₁ = h.setNext r (some f)) (hh' : h' = (((h₁.put f (h₁.entry m)).setNext m none).claim
      m name index)) :
    h'.Layout (Function.update (Function.update chain k₀ (l ++ r :: f :: l')) m [m]) free none ∧
      h'.bindings.Perm ((name, index) :: h.bindings) := by
  obtain ⟨hmlt, hmused⟩ := hl.used_of_mem (p := m) (m := k₀) (by simp [hchain])
  obtain ⟨hrlt, hrused⟩ := hl.used_of_mem (p := r) (m := k₀) (by simp [hchain])
  have hmf : m ≠ f := fun e => hmused (e ▸ hfnone)
  have hrf : r ≠ f := fun e => hrused (e ▸ hfnone)
  have hnodup := hl.chainNodup k₀
  rw [hchain] at hnodup
  obtain ⟨hnl, hnr, hdisj⟩ := List.nodup_append.mp hnodup
  obtain ⟨hrnot, hnm⟩ := List.nodup_cons.mp hnr
  obtain ⟨hml', hnl'⟩ := List.nodup_cons.mp hnm
  have hrm : r ≠ m := fun e => hrnot (by simp [e])
  have hrl' : r ∉ l' := fun e => hrnot (List.mem_cons_of_mem _ e)
  have hrl : r ∉ l := fun e => hdisj r e r List.mem_cons_self rfl
  have hml : m ∉ l := fun e => hdisj m e m (by simp) rfl
  have hnotf : ∀ k, f ∉ chain k := fun k hk => (hl.used_of_mem hk).2 hfnone
  have hfl : f ∉ l := fun e => hnotf k₀ (by simp [hchain, e])
  have hfl' : f ∉ l' := fun e => hnotf k₀ (by simp [hchain, e])
  have hcap₁ : h₁.capacity = h.capacity := by simp [hh₁]
  have hcap : h'.capacity = h.capacity := by simp [hh', hcap₁]
  have hlink₁ : ∀ q, h₁.entry q =
      { h.entry q with next := if r = q then some f else (h.entry q).next } := by
    intro q
    rw [hh₁]
    exact entry_setNext hrlt
  have hcopied : h₁.entry m = h.entry m := by simp [hlink₁, hrm]
  rw [hcopied] at hh'
  have hlink₂ : ∀ q, (h₁.put f (h.entry m)).entry q = _ :=
    fun q => entry_put (by simpa [hcap₁] using hflt)
  have hlink₃ : ∀ q, ((h₁.put f (h.entry m)).setNext m none).entry q = _ :=
    fun q => entry_setNext (by simpa [hcap₁] using hmlt)
  have hclaim : ∀ q, (((h₁.put f (h.entry m)).setNext m none).claim m name index).entry q = _ :=
    fun q => entry_claim (by simpa [hcap₁] using hmlt)
  rw [← hh'] at hclaim
  have hself : h'.entry m = ⟨some name, index, none, none⟩ := by
    simp [hclaim, hlink₃]
  have hmoved : h'.entry f = h.entry m := by
    have hfm : f ≠ m := fun e => hmf e.symm
    simp [hclaim, hlink₃, hlink₂, hlink₁, hmf, hfm, hrm]
  have hbefore : h'.entry r = { h.entry r with next := some f } := by
    have hmr : m ≠ r := fun e => hrm e.symm
    simp [hclaim, hlink₃, hlink₂, hlink₁, hrm, hmr, hrf]
  have hother : ∀ q, q ≠ f → q ≠ m → q ≠ r → h'.entry q = h.entry q := by
    intro q hqf hqm hqr
    have hmq : m ≠ q := fun e => hqm e.symm
    have hrq : r ≠ q := fun e => hqr e.symm
    simp [hclaim, hlink₃, hlink₂, hlink₁, hqf, hqm, hmq, hrq]
  -- the entry that moves does not head the chain of its slot
  have hempty : chain m = [] := by
    by_contra hne
    obtain ⟨q, hq⟩ := List.exists_mem_of_ne_nil _ hne
    obtain ⟨_, n, hn, hnm⟩ := (hl.memChain m m).mp (hl.main_mem hq)
    obtain ⟨_, n', hn', hnk⟩ := (hl.memChain k₀ m).mp (by simp [hchain])
    rw [hn] at hn'
    cases hn'
    exact hkm (hnk.symm.trans hnm)
  have hbind : ∀ q, q ≠ f → q ≠ m → h'.binding? q = h.binding? q := by
    intro q hqf hqm
    by_cases hqr : q = r
    · simp [binding?, hqr, hbefore]
    · simp [binding?, hother q hqf hqm hqr]
  have hname : ∀ q, q ≠ f → q ≠ m → (h'.entry q).name = (h.entry q).name := by
    intro q hqf hqm
    by_cases hqr : q = r
    · simp [hqr, hbefore]
    · simp [hother q hqf hqm hqr]
  have hnext : ∀ q, q ≠ f → q ≠ m → q ≠ r → h'.next q = h.next q := by
    intro q hqf hqm hqr
    simp [next, hother q hqf hqm hqr]
  have hchains : ∀ q k, q ∈ chain k → q ∈ chain k₀ → k = k₀ := by
    intro q k hk hk₀
    obtain ⟨_, n, hn, hnk⟩ := (hl.memChain k q).mp hk
    obtain ⟨_, n', hn', hnk₀⟩ := (hl.memChain k₀ q).mp hk₀
    rw [hn] at hn'
    cases hn'
    exact hnk.symm.trans hnk₀
  have hseg := hl.chainSeg k₀ (by simp [hchain])
  rw [hchain] at hseg
  obtain ⟨hseg₁, -, hseg₂⟩ := seg_append_cons.mp hseg
  refine ⟨hl.place hcap ?_ ?_ ?_ ?_ ?_ ?_ ?_ ?_, ?_⟩
  · simp [hh', claim, setNext, hh₁]
  · intro q hq
    obtain ⟨-, hqnone, hqloose⟩ := (hl.memFree q).mp hq
    exact hother q (fun e => hqloose (by rw [e])) (fun e => hmused (e ▸ hqnone))
      fun e => hrused (e ▸ hqnone)
  · intro q hqf
    by_cases hqm : q = m
    · simp [hqm, hself, hmused]
    · rw [hname q hqf hqm]
  · rw [hmoved]
    exact hmused
  · intro q hq
    by_cases hqf : q = f
    · rw [prev, hqf, hmoved]
      exact hl.prevUsed m hmused
    · by_cases hqm : q = m
      · rw [prev, hqm, hself]
      · rw [hname q hqf hqm] at hq
        by_cases hqr : q = r
        · rw [prev, hqr, hbefore]
          exact hl.prevUsed r hrused
        · rw [prev, hother q hqf hqm hqr]
          exact hl.prevUsed q hq
  · intro k hk
    by_cases hkm' : k = m
    · subst hkm'
      simp [next, hself]
    · rw [Function.update_of_ne hkm'] at hk ⊢
      by_cases hkk₀ : k = k₀
      · subst hkk₀
        rw [Function.update_self]
        refine seg_append_cons.mpr ⟨hseg₁.congr fun q hq => ?_, ?_⟩
        · exact hnext q (fun e => hfl (e ▸ hq)) (fun e => hml (e ▸ hq)) fun e => hrl (e ▸ hq)
        · refine ⟨by simp [next, hbefore], ?_⟩
          rw [next, hmoved]
          refine hseg₂.congr fun q hq => ?_
          exact hnext q (fun e => hfl' (e ▸ hq)) (fun e => hml' (e ▸ hq)) fun e => hrl' (e ▸ hq)
      · rw [Function.update_of_ne hkk₀] at hk ⊢
        refine (hl.chainSeg k hk).congr fun q hq => ?_
        refine hnext q (fun e => hnotf k (e ▸ hq)) (fun e => ?_) fun e => ?_
        · exact hkk₀ (hchains q k hq (by simp [hchain, e]))
        · exact hkk₀ (hchains q k hq (by simp [hchain, e]))
  · intro k
    by_cases hkm' : k = m
    · simp [hkm']
    · rw [Function.update_of_ne hkm']
      by_cases hkk₀ : k = k₀
      · subst hkk₀
        rw [Function.update_self]
        refine List.nodup_append.mpr ⟨hnl, by simp [hrf, hrl', hfl', hnl'], ?_⟩
        intro a ha b hb e
        subst e
        rcases List.mem_cons.mp hb with rfl | hb
        · exact hrl ha
        · rcases List.mem_cons.mp hb with rfl | hb
          · exact hfl ha
          · exact hdisj a ha a (by simp [hb]) rfl
      · rw [Function.update_of_ne hkk₀]
        exact hl.chainNodup k
  · intro k q
    have hmainEntry : ∀ n, h'.mainEntry n = h.mainEntry n := fun n => by simp [mainEntry, hcap]
    have hbel := hl.memChain k q
    have hbelm := hl.memChain k m
    simp only [Belongs, hcap, hmainEntry] at hbel hbelm ⊢
    by_cases hqm : q = m
    · subst hqm
      by_cases hkm' : k = q
      · simp [hkm', hself, hmlt, hm]
      · have hmk : ¬ q = k := fun e => hkm' e.symm
        rw [Function.update_of_ne hkm']
        by_cases hkk₀ : k = k₀
        · subst hkk₀
          have hqr : q ≠ r := fun e => hrm e.symm
          simp [hself, hm, hmk, hml, hml', hqr, hmf]
        · rw [Function.update_of_ne hkk₀]
          have hqk : q ∉ chain k := fun e => hkk₀ (hchains q k e (by simp [hchain]))
          simp [hself, hm, hmk, hqk]
    · by_cases hqf : q = f
      · subst hqf
        rw [hmoved]
        by_cases hkm' : k = m
        · subst hkm'
          rw [hempty] at hbelm
          simpa [hqm, hmlt, hflt] using hbelm
        · rw [Function.update_of_ne hkm']
          by_cases hkk₀ : k = k₀
          · subst hkk₀
            simp only [hchain] at hbelm
            simpa [hflt, hmlt] using hbelm
          · rw [Function.update_of_ne hkk₀]
            have hmk : m ∉ chain k := fun e => hkk₀ (hchains m k e (by simp [hchain]))
            simpa [hnotf k, hmk, hflt, hmlt] using hbelm
      · rw [hname q hqf hqm]
        by_cases hkm' : k = m
        · subst hkm'
          rw [hempty] at hbel
          simpa [hqm] using hbel
        · rw [Function.update_of_ne hkm']
          by_cases hkk₀ : k = k₀
          · subst hkk₀
            rw [hchain] at hbel
            simpa [hqm, hqf] using hbel
          · rw [Function.update_of_ne hkk₀]
            exact hbel
  · refine bindings_perm_of_move (q := f) (p := m) hcap hflt hmlt hmf ?_ ?_ ?_ hbind
    · simp [binding?, hfnone]
    · simp [binding?, hmoved]
    · simp [binding?, hself]

/-- The entries are where the chains and the free list say. -/
def LaidOut (h : RawBindingHash) : Prop := ∃ chain free, h.Layout chain free none

theorem bindings_unlink (hl : h.Layout chain (l ++ p :: l') none) :
    (h.unlink p).bindings = h.bindings := by
  obtain ⟨-, hname, hindex⟩ := hl.unlink
  rw [bindings_eq, bindings_eq, capacity_unlink]
  refine List.filterMap_congr fun q _ => ?_
  simp [binding?, hname, hindex]

/-- Taking the head off the free list. -/
theorem pop_eq_unlink (hp : h.prev p = none) :
    { h with freeHead := h.next p }.linkPrev (h.next p) none = h.unlink p := by
  simp only [unlink, hp, linkNext]
  cases h.next p <;> rfl

theorem Layout.length_chain_le (hl : h.Layout chain free loose) : (chain m).length ≤ h.capacity := by
  have hsub : chain m ⊆ List.range h.capacity := by
    intro q hq
    exact List.mem_range.mpr (hl.used_of_mem hq).1
  simpa using (hl.chainNodup m).length_le_of_subset hsub

/-- As long as not every entry is bound there is a free one. -/
theorem Layout.free_ne_nil (hl : h.Layout chain free none) (hroom : h.bindings.length < h.capacity) :
    free ≠ [] := by
  rintro rfl
  have hall : ∀ q ∈ List.range h.capacity, (h.binding? q).isSome = true := by
    intro q hq
    have hmem := hl.memFree q
    cases hn : (h.entry q).name with
    | none => simp [hn, List.mem_range.mp hq] at hmem
    | some n => simp [binding?, hn]
  have hlen : h.bindings.length = h.capacity := by
    rw [bindings_eq, List.length_filterMap_eq_countP, List.countP_eq_length.mpr hall,
      List.length_range]
  omega

/-- `hash_new_entry` adds one binding, if the table has room. -/
theorem newEntry_spec (name : Name) (index : Int) (hl : h.LaidOut)
    (hroom : h.bindings.length < h.capacity) :
    ∃ h', h.newEntry name index = some h' ∧ h'.LaidOut ∧ h'.capacity = h.capacity ∧
      h'.size = h.size ∧ h'.bindings.Perm ((name, index) :: h.bindings) := by
  obtain ⟨chain, free, hl⟩ := hl
  have hcap : 0 < h.capacity := Nat.zero_lt_of_lt hroom
  obtain ⟨m, hm⟩ : ∃ m, h.mainEntry name = m := ⟨_, rfl⟩
  have hmlt : m < h.capacity := hm ▸ Nat.mod_lt _ hcap
  cases hname : (h.entry m).name with
  | none =>
    have hmfree : m ∈ free := (hl.memFree m).mpr ⟨hmlt, hname, by simp⟩
    obtain ⟨l, l', rfl⟩ := List.append_of_mem hmfree
    obtain ⟨hloose, hnames, -⟩ := hl.unlink
    have hplace := hloose.placeAtMain name index
      (by simpa [mainEntry] using hm) (by simpa using hmlt) (by rw [hnames, hname])
    refine ⟨_, ?_, ⟨_, _, hplace.1⟩, by simp, by simp, ?_⟩
    · simp [newEntry, hm, entryIsFree, hname]
    · rw [← bindings_unlink hl]
      exact hplace.2
  | some n =>
    have hfree := hl.free_ne_nil hroom
    cases free with
    | nil => exact absurd rfl hfree
    | cons f free =>
      have hhead : h.freeHead = some f := hl.freeSeg.1
      have hfprev : h.prev f = none := hl.freeBack.1
      obtain ⟨hflt, hfnone, -⟩ := (hl.memFree f).mp List.mem_cons_self
      obtain ⟨hloose, hnames, -⟩ := hl.unlink (l := [])
      have hbind := bindings_unlink (l := []) hl
      set h₁ := h.unlink f with hh₁
      have hcap₁ : h₁.capacity = h.capacity := by simp [hh₁]
      have hmain₁ : ∀ n, h₁.mainEntry n = h.mainEntry n := fun n => by simp [mainEntry, hcap₁]
      have hsize₁ : h₁.size = h.size := by simp [hh₁]
      have hname₁ : (h₁.entry m).name = some n := (hnames m).trans hname
      have hmem : m ∈ chain (h.mainEntry n) :=
        (hl.memChain _ m).mpr ⟨hmlt, n, hname, rfl⟩
      have hunfold : h.newEntry name index =
          if h₁.mainEntry n = m then
            some (((h₁.setNext f (h₁.next m)).setNext m (some f)).claim f name index)
          else if h₁.entryIsFree (h₁.mainEntry n) then none
          else (h₁.findPrevious h₁.capacity (h₁.mainEntry n) m).map fun r =>
            (((h₁.setNext r (some f)).put f ((h₁.setNext r (some f)).entry m)).setNext m
              none).claim m name index := by
        simp only [newEntry, hm, entryIsFree, hname, hhead, Option.isNone_some, Bool.false_eq_true,
          if_false, pop_eq_unlink hfprev, ← hh₁, hname₁, Option.getD_some]
        cases h₁.findPrevious h₁.capacity (h₁.mainEntry n) m <;> rfl
      have hflt₁ : f < h₁.capacity := by rwa [hcap₁]
      have hfnone₁ : (h₁.entry f).name = none := by rw [hnames, hfnone]
      by_cases hk : h.mainEntry n = m
      · have hplace := hloose.placeBehindMain name index
          ((hmain₁ name).trans hm) hflt₁ hfnone₁ (hk ▸ hmem)
        refine ⟨_, by rw [hunfold, if_pos ((hmain₁ n).trans hk)], ⟨_, _, hplace.1⟩, ?_, ?_, ?_⟩
        · simp [hcap₁]
        · simp [hsize₁]
        · rw [← hbind]
          exact hplace.2
      · obtain ⟨a, l', hsplit⟩ := List.append_of_mem hmem
        have hseg := hloose.chainSeg (h.mainEntry n) (by simp [hsplit])
        obtain ⟨l, r, rfl⟩ : ∃ l r, a = l ++ [r] := by
          rcases a.eq_nil_or_concat' with rfl | h'
          · rw [hsplit] at hseg
            exact absurd (by simpa using hseg.1) hk
          · exact h'
        have hchain : chain (h.mainEntry n) = l ++ r :: m :: l' := by simp [hsplit]
        rw [hchain] at hseg
        have hnodup := hloose.chainNodup (h.mainEntry n)
        rw [hchain] at hnodup
        have hml : m ∉ l := fun e => (List.nodup_append.mp hnodup).2.2 m e m (by simp) rfl
        have hrm : r ≠ m := by
          rintro rfl
          simp [List.nodup_append] at hnodup
        have hlen : l.length < h₁.capacity := by
          have := hloose.length_chain_le (m := h.mainEntry n)
          rw [hchain] at this
          simp at this
          omega
        have hfind := findPrevious_eq hseg hml hrm hlen
        have hused : (h₁.entry (h.mainEntry n)).name.isNone = false := by
          have := (hloose.used_of_mem (hloose.main_mem hmem)).2
          simpa [Option.isNone_eq_false_iff, Option.isSome_iff_ne_none] using this
        have hplace := hloose.placeMoving name index
          ((hmain₁ name).trans hm) hflt₁ hfnone₁ hk hchain rfl rfl
        refine ⟨_, ?_, ⟨_, _, hplace.1⟩, ?_, ?_, ?_⟩
        · rw [hunfold, if_neg (by rwa [hmain₁]), hmain₁, entryIsFree, hused]
          simp [hfind]
        · simp [hcap₁]
        · simp [hsize₁]
        · rw [← hbind]
          exact hplace.2

/-! ## Growing the table -/

theorem entry_fresh {n i : Nat} (hi : i < n) :
    (fresh n).entry i =
      { next := if i = 0 then none else some (i - 1)
        prev := if i + 1 < n then some (i + 1) else none } := by
  simp [fresh, entry, List.getD_eq_getElem?_getD, hi]

theorem capacity_fresh {n : Nat} : (fresh n).capacity = n := by simp [fresh, capacity]

theorem bindings_fresh {n : Nat} : (fresh n).bindings = [] := by
  simp [fresh, bindings, List.filterMap_eq_nil_iff]

theorem laidOut_fresh (n : Nat) : (fresh n).LaidOut := by
  have hseg : ∀ k ≤ n, Seg (fresh n).next (if k = 0 then none else some (k - 1))
      (List.range k).reverse none := by
    intro k hk
    induction k with
    | zero => simp
    | succ k ih =>
      have hnext : (fresh n).next k = if k = 0 then none else some (k - 1) := by
        rw [next, entry_fresh (by omega)]
      rw [List.range_succ, List.reverse_append]
      refine ⟨by simp, ?_⟩
      rw [hnext]
      exact ih (by omega)
  have hback : ∀ k ≤ n, Back (fresh n).prev (if k < n then some k else none)
      (List.range k).reverse := by
    intro k hk
    induction k with
    | zero => simp
    | succ k ih =>
      have hprev : (fresh n).prev k = if k + 1 < n then some (k + 1) else none := by
        rw [prev, entry_fresh (by omega)]
      rw [List.range_succ, List.reverse_append]
      refine ⟨hprev, ?_⟩
      have := ih (by omega)
      rwa [if_pos (by omega)] at this
  have hnone : ∀ i, ((fresh n).entry i).name = none := by
    intro i
    by_cases hi : i < n
    · rw [entry_fresh hi]
    · simp [fresh, entry, List.getD_eq_getElem?_getD, hi]
      rfl
  refine ⟨fun _ => [], (List.range n).reverse, ?_⟩
  refine ⟨by simp, by simp, ?_, hseg n (Nat.le_refl n), ?_, ?_, ?_, ?_⟩
  · intro m p
    simp [Belongs, hnone]
  · simpa using hback n (Nat.le_refl n)
  · exact List.nodup_reverse.mpr List.nodup_range
  · intro p
    simp [hnone, capacity_fresh]
  · intro p hp
    exact absurd (hnone p) hp

/-- One step of the loop of `hash_resize`. -/
theorem resize_loop (es : List BindingHashEntry) (hl : h.LaidOut)
    (hroom : h.bindings.length +
      (es.filterMap fun e => e.name.map fun name => (name, e.index)).length ≤ h.capacity) :
    ∃ h', es.foldlM (fun newHash e =>
        match e.name with
        | none => some newHash
        | some name => newHash.newEntry name e.index) h = some h' ∧
      h'.LaidOut ∧ h'.capacity = h.capacity ∧ h'.size = h.size ∧
      h'.bindings.Perm
        ((es.filterMap fun e => e.name.map fun name => (name, e.index)) ++ h.bindings) := by
  induction es generalizing h with
  | nil => exact ⟨h, rfl, hl, rfl, rfl, .refl _⟩
  | cons e es ih =>
    cases hn : e.name with
    | none =>
      simp only [List.filterMap_cons, hn, Option.map_none] at hroom ⊢
      obtain ⟨h', hfold, hrest⟩ := ih hl hroom
      exact ⟨h', by simpa [hn] using hfold, hrest⟩
    | some name =>
      simp only [List.filterMap_cons, hn, Option.map_some, List.length_cons] at hroom ⊢
      obtain ⟨h₁, hnew, hl₁, hcap₁, hsize₁, hperm₁⟩ :=
        newEntry_spec name e.index hl (by omega)
      have hlen := hperm₁.length_eq
      rw [List.length_cons] at hlen
      obtain ⟨h', hfold, hl', hcap', hsize', hperm'⟩ := ih hl₁ (by omega)
      refine ⟨h', by simp [hn, hnew, hfold], hl', hcap'.trans hcap₁, hsize'.trans hsize₁, ?_⟩
      refine hperm'.trans ((hperm₁.append_left _).trans ?_)
      exact List.perm_middle

theorem resize_spec {n : Nat} (hroom : h.bindings.length ≤ n) :
    ∃ h', h.resize n = some h' ∧ h'.LaidOut ∧ h'.capacity = n ∧ h'.bindings.Perm h.bindings := by
  obtain ⟨h', hfold, hl', hcap', -, hperm'⟩ := resize_loop h.entries (laidOut_fresh n)
    (by rw [bindings_fresh, capacity_fresh]; simpa [bindings] using hroom)
  rw [bindings_fresh, List.append_nil] at hperm'
  exact ⟨h', hfold, hl', hcap'.trans capacity_fresh, hperm'⟩

/-- A well-formed table; `size` is zero as long as there are no entries at all. -/
structure WellFormed (h : RawBindingHash) : Prop where
  laidOut : h.LaidOut
  size_eq_zero : h.size = 0 ↔ h.capacity = 0

theorem wellFormed_empty : ({} : RawBindingHash).WellFormed where
  laidOut := by
    have hnone : ∀ i, (({} : RawBindingHash).entry i).name = none := fun i => by
      simp [entry]
      rfl
    refine ⟨fun _ => [], [], by simp, by simp, ?_, rfl, by simp, by simp, ?_, ?_⟩
    · intro m p
      simp [Belongs, hnone]
    · intro p
      simp [capacity]
    · intro p hp
      exact absurd (hnone p) hp
  size_eq_zero := by simp [capacity]

/-- A table with a free entry has room for one more binding. -/
theorem LaidOut.room (hl : h.LaidOut) (hfree : h.freeHead ≠ none) :
    h.bindings.length < h.capacity := by
  obtain ⟨chain, free, hl⟩ := hl
  cases free with
  | nil => exact absurd hl.freeSeg hfree
  | cons f free =>
    obtain ⟨hflt, hfnone, -⟩ := (hl.memFree f).mp List.mem_cons_self
    have hsplit : (List.range h.capacity).Perm (f :: (List.range h.capacity).erase f) :=
      List.perm_cons_erase (List.mem_range.mpr hflt)
    have hperm := hsplit.filterMap h.binding?
    rw [List.filterMap_cons_none (by simp [binding?, hfnone])] at hperm
    have hle := List.length_filterMap_le h.binding? ((List.range h.capacity).erase f)
    have hlen := hperm.length_eq
    rw [← bindings_eq] at hlen
    have hlt := hsplit.length_eq
    rw [List.length_range, List.length_cons] at hlt
    omega

theorem length_bindings_le : h.bindings.length ≤ h.capacity :=
  List.length_filterMap_le _ _

/-- Before it inserts, `wasm_insert_binding` sees to it that there is a free entry: the first
insertion makes the table, and a full one is doubled. -/
theorem prepared (hwf : h.WellFormed) :
    ∃ h₁ h₂, (if h.size = 0 then h.resize initialHashCapacity else some h) = some h₁ ∧
      (if h₁.freeHead = none then h₁.resize (h₁.capacity * 2) else some h₁) = some h₂ ∧
      h₂.LaidOut ∧ h₂.bindings.length < h₂.capacity ∧ h₂.bindings.Perm h.bindings := by
  have hle := h.length_bindings_le
  obtain ⟨h₁, heq₁, hl₁, hcap₁, hperm₁⟩ : ∃ h₁,
      (if h.size = 0 then h.resize initialHashCapacity else some h) = some h₁ ∧ h₁.LaidOut ∧
        0 < h₁.capacity ∧ h₁.bindings.Perm h.bindings := by
    by_cases hs : h.size = 0
    · have hzero : h.capacity = 0 := hwf.size_eq_zero.mp hs
      obtain ⟨h₁, heq₁, hl₁, hcap₁, hperm₁⟩ :=
        resize_spec (h := h) (n := initialHashCapacity) (by omega)
      refine ⟨h₁, by rw [if_pos hs, heq₁], hl₁, ?_, hperm₁⟩
      rw [hcap₁]
      decide
    · refine ⟨h, by rw [if_neg hs], hwf.laidOut, ?_, .refl _⟩
      exact Nat.pos_of_ne_zero fun e => hs (hwf.size_eq_zero.mpr e)
  refine ⟨h₁, ?_⟩
  have hle₁ := h₁.length_bindings_le
  by_cases hf : h₁.freeHead = none
  · obtain ⟨h₂, heq₂, hl₂, hcap₂, hperm₂⟩ :=
      resize_spec (h := h₁) (n := h₁.capacity * 2) (by omega)
    have hlen := hperm₂.length_eq
    exact ⟨h₂, heq₁, by rw [if_pos hf, heq₂], hl₂, by omega, hperm₂.trans hperm₁⟩
  · exact ⟨h₁, heq₁, by rw [if_neg hf], hl₁, hl₁.room hf, hperm₁⟩

/-- `wasm_insert_binding` succeeds and adds one binding to those held. -/
theorem insertBinding_spec (hwf : h.WellFormed) (name : Name) (index : Int) :
    ∃ h', h.insertBinding name index = some h' ∧ h'.WellFormed ∧
      h'.bindings.Perm ((name, index) :: h.bindings) := by
  obtain ⟨h₁, h₂, heq₁, heq₂, hl₂, hroom₂, hperm₂⟩ := prepared hwf
  obtain ⟨h₃, heq₃, hl₃, hcap₃, -, hperm₃⟩ :=
    newEntry_spec name index hl₂ hroom₂
  refine ⟨{ h₃ with size := h₃.size + 1 }, ?_, ⟨?_, ?_⟩, hperm₃.trans (hperm₂.cons _)⟩
  · simp [insertBinding, heq₁, heq₂, heq₃]
  · obtain ⟨chain, free, hl⟩ := hl₃
    exact ⟨chain, free, hl.chainSeg, hl.chainNodup, hl.memChain, hl.freeSeg, hl.freeBack,
      hl.freeNodup, hl.memFree, hl.prevUsed⟩
  · have hpos : h₃.capacity ≠ 0 := by omega
    exact ⟨fun e => absurd e (Nat.succ_ne_zero _), fun e => absurd e hpos⟩

/-! ## Lookups -/

theorem mem_bindings {i : Int} :
    (name, i) ∈ h.bindings ↔
      ∃ p < h.capacity, (h.entry p).name = some name ∧ (h.entry p).index = i := by
  rw [bindings_eq, List.mem_filterMap]
  constructor
  · rintro ⟨p, hp, hb⟩
    refine ⟨p, List.mem_range.mp hp, ?_⟩
    simpa [binding?, and_comm] using hb
  · rintro ⟨p, hp, hn, rfl⟩
    exact ⟨p, List.mem_range.mpr hp, by simp [binding?, hn]⟩

/-- Down a chain, the first entry of the name decides. -/
theorem findFrom_eq {c : List Nat} {a : Nat} (name : Name) (fuel : Nat)
    (hseg : Seg h.next (some a) c none) (hc : c ≠ []) (hused : ∀ q ∈ c, (h.entry q).name ≠ none) (hfuel : c.length ≤ fuel) :
    h.findFrom fuel a name =
      ((c.find? fun q => (h.entry q).name = some name).map fun q => (h.entry q).index).getD (-1) := by
  induction c generalizing a fuel with
  | nil => exact absurd rfl hc
  | cons q c ih =>
    obtain ⟨haq, hrest⟩ := hseg
    obtain rfl : a = q := by simpa using haq
    obtain ⟨fuel, rfl⟩ := Nat.exists_eq_succ_of_ne_zero (Nat.ne_of_gt (Nat.zero_lt_of_lt hfuel))
    by_cases hname : (h.entry a).name = some name
    · simp [findFrom, hname]
    · cases c with
      | nil =>
        have hnext : h.next a = none := hrest
        simp [findFrom, hname, hnext]
      | cons b c =>
        have hnext : h.next a = some b := hrest.1
        have hb : h.entryIsFree b = false := by
          have := hused b (by simp)
          simpa [entryIsFree, Option.isNone_eq_false_iff, Option.isSome_iff_ne_none] using this
        have hseg' : Seg h.next (some b) (b :: c) none := hnext ▸ hrest
        have hih := ih fuel hseg' (by simp)
          (fun r hr => hused r (List.mem_cons_of_mem _ hr)) (by simpa using hfuel)
        rw [List.find?_cons_of_neg (by simpa using hname), findFrom, if_neg hname, hnext]
        simpa [hb] using hih

/-- What `wasm_find_binding_index_by_name` finds. -/
theorem find_cases (hl : h.LaidOut) (name : Name) :
    (name, h.findBindingIndexByName name) ∈ h.bindings ∨
      h.findBindingIndexByName name = -1 ∧ ∀ i, (name, i) ∉ h.bindings := by
  obtain ⟨chain, free, hl⟩ := hl
  unfold findBindingIndexByName
  by_cases hcap : h.capacity = 0
  · rw [if_pos hcap]
    refine .inr ⟨rfl, fun i hi => ?_⟩
    obtain ⟨p, hp, -⟩ := mem_bindings.mp hi
    omega
  · rw [if_neg hcap]
    obtain ⟨m, hm⟩ : ∃ m, h.mainEntry name = m := ⟨_, rfl⟩
    have hmlt : m < h.capacity := hm ▸ Nat.mod_lt _ (Nat.pos_of_ne_zero hcap)
    rw [hm]
    have hchain : ∀ i, (name, i) ∈ h.bindings → ∃ p ∈ chain m, (h.entry p).name = some name := by
      intro i hi
      obtain ⟨p, hp, hn, -⟩ := mem_bindings.mp hi
      exact ⟨p, (hl.memChain m p).mpr ⟨hp, name, hn, hm⟩, hn⟩
    cases hname : (h.entry m).name with
    | none =>
      -- a free entry leads to free entries only
      have hmfree : m ∈ free := (hl.memFree m).mpr ⟨hmlt, hname, by simp⟩
      refine .inr ⟨?_, fun i hi => ?_⟩
      · obtain ⟨l, l', rfl⟩ := List.append_of_mem hmfree
        have hnext := (seg_append_cons.mp hl.freeSeg).2.head?_eq
        obtain ⟨fuel, hfuel⟩ := Nat.exists_eq_succ_of_ne_zero hcap
        rw [hfuel, findFrom, if_neg (by simp [hname]), ← hnext]
        cases l' with
        | nil => rfl
        | cons q l' =>
          have hq := ((hl.memFree q).mp (by simp)).2.1
          simp [entryIsFree, hq]
      · obtain ⟨p, hp, -⟩ := hchain i hi
        exact (hl.used_of_mem (hl.main_mem hp)).2 hname
    | some n =>
      have hmem : m ∈ chain (h.mainEntry n) := (hl.memChain _ m).mpr ⟨hmlt, n, hname, rfl⟩
      obtain ⟨l, l', hsplit⟩ := List.append_of_mem hmem
      have hseg := hl.chainSeg (h.mainEntry n) (List.ne_nil_of_mem hmem)
      have hlen := hl.length_chain_le (m := h.mainEntry n)
      have hused : ∀ q ∈ m :: l', (h.entry q).name ≠ none := by
        intro q hq
        exact (hl.used_of_mem (m := h.mainEntry n) (by rw [hsplit]; simp [hq])).2
      have hnodup := hl.chainNodup (h.mainEntry n)
      rw [hsplit] at hseg hlen hnodup
      have hfind := findFrom_eq (c := m :: l') name h.capacity
        ⟨rfl, (seg_append_cons.mp hseg).2⟩ (by simp) hused (by simp at hlen ⊢; omega)
      rw [hfind]
      cases hfound : (m :: l').find? fun q => (h.entry q).name = some name with
      | some p =>
        have hn : (h.entry p).name = some name := by simpa using List.find?_some hfound
        have hp : p ∈ chain (h.mainEntry n) := by
          have := List.mem_of_find?_eq_some hfound
          rw [hsplit]
          exact List.mem_append_right l this
        exact .inl (mem_bindings.mpr ⟨p, (hl.used_of_mem hp).1, hn, by simp⟩)
      | none =>
        refine .inr ⟨by simp, fun i hi => ?_⟩
        -- the name has a chain, so its main position is its own and heads it
        obtain ⟨p, hp, hn⟩ := hchain i hi
        obtain ⟨-, n', hn', hk⟩ := (hl.memChain m m).mp (hl.main_mem hp)
        rw [hname] at hn'
        cases hn'
        rw [hk] at hsplit
        have hlnil : l = [] := by
          cases l with
          | nil => rfl
          | cons b l =>
            have hbm : h.mainEntry n = b := by simpa using hseg.1
            rw [hk] at hbm
            simp [hbm] at hnodup
        have := List.find?_eq_none.mp hfound p (by simpa [hsplit, hlnil] using hp)
        simp [hn] at this

/-! ## Redefinitions -/

theorem chainFrom_eq {c : List Nat} {a fuel : Nat} (hseg : Seg h.next (some a) c none)
    (hfuel : c.length ≤ fuel) : h.chainFrom fuel a = c := by
  induction c generalizing a fuel with
  | nil => cases hseg
  | cons q c ih =>
    obtain ⟨haq, hrest⟩ := hseg
    obtain rfl : a = q := by simpa using haq
    obtain ⟨fuel, rfl⟩ := Nat.exists_eq_succ_of_ne_zero (Nat.ne_of_gt (Nat.zero_lt_of_lt hfuel))
    cases c with
    | nil =>
      have hnext : h.next a = none := hrest
      simp [chainFrom, hnext]
    | cons b c =>
      have hnext : h.next a = some b := hrest.1
      have hseg' : Seg h.next (some b) (b :: c) none := hnext ▸ hrest
      simp [chainFrom, hnext, ih hseg' (by simpa using hfuel)]

theorem chainHasDuplicate_eq_false {c : List Nat} :
    h.chainHasDuplicate c = false ↔ (c.map fun p => (h.entry p).name).Nodup := by
  induction c with
  | nil => simp [chainHasDuplicate]
  | cons a c ih =>
    simp only [chainHasDuplicate, Bool.or_eq_false_iff, ih, List.map_cons, List.nodup_cons]
    refine and_congr_left fun _ => ?_
    rw [List.any_eq_false, List.mem_map]
    constructor
    · rintro hnone ⟨b, hb, hab⟩
      exact hnone b hb (by simp [hab])
    · intro hnot b hb hab
      exact hnot ⟨b, hb, (beq_iff_eq.mp hab).symm⟩

/-- No name is bound twice: two bound entries of one name are the same entry. -/
theorem nodup_names_iff :
    (h.bindings.map Prod.fst).Nodup ↔ ∀ p < h.capacity, ∀ q < h.capacity, ∀ name,
      (h.entry p).name = some name → (h.entry q).name = some name → p = q := by
  have hnames : h.bindings.map Prod.fst =
      (List.range h.capacity).filterMap fun p => (h.entry p).name := by
    rw [bindings_eq, List.map_filterMap]
    refine List.filterMap_congr fun p _ => ?_
    cases hn : (h.entry p).name <;> simp [binding?, hn]
  rw [hnames, List.Nodup, List.pairwise_filterMap]
  constructor
  · intro hpw p hp q hq name hpn hqn
    by_contra hne
    have hsymm : Std.Symm fun a b : Nat => ∀ n, (h.entry a).name = some n →
        ∀ n', (h.entry b).name = some n' → n ≠ n' :=
      ⟨fun a b hab n hn n' hn' e => hab n' hn' n hn e.symm⟩
    exact hpw.forall (List.mem_range.mpr hp) (List.mem_range.mpr hq) hne name hpn name hqn rfl
  · intro hinj
    refine List.nodup_range.pairwise_of_forall_ne fun p hp q hq hne n hn n' hn' e => ?_
    subst e
    exact hne (hinj p (List.mem_range.mp hp) q (List.mem_range.mp hq) n hn hn')

/-- `check_duplicate_bindings` reports a redefinition exactly when a name is bound twice. -/
theorem reportsDuplicate_eq_false (hl : h.LaidOut) :
    h.reportsDuplicate = false ↔ (h.bindings.map Prod.fst).Nodup := by
  obtain ⟨chain, free, hl⟩ := hl
  -- from an entry of a chain on, the scan sees the rest of the chain
  have hscan : ∀ m l i l', chain m = l ++ i :: l' → h.chainFrom h.capacity i = i :: l' := by
    intro m l i l' hsplit
    have hseg := hl.chainSeg m (by simp [hsplit])
    have hlen := hl.length_chain_le (m := m)
    rw [hsplit] at hseg hlen
    refine chainFrom_eq ⟨rfl, (seg_append_cons.mp hseg).2⟩ ?_
    simp at hlen ⊢
    omega
  rw [nodup_names_iff, reportsDuplicate, List.any_eq_false]
  constructor
  · intro hnone p hp q hq name hpn hqn
    have hmem : ∀ r < h.capacity, (h.entry r).name = some name → r ∈ chain (h.mainEntry name) :=
      fun r hr hn => (hl.memChain _ r).mpr ⟨hr, name, hn, rfl⟩
    have hpc := hmem p hp hpn
    have hqc := hmem q hq hqn
    have hmain := hl.main_mem hpc
    obtain ⟨hmlt, hmused⟩ := hl.used_of_mem hmain
    have hfull : h.chainFrom h.capacity (h.mainEntry name) = chain (h.mainEntry name) := by
      have hseg := hl.chainSeg _ (List.ne_nil_of_mem hmain)
      exact chainFrom_eq hseg hl.length_chain_le
    have hfree : h.entryIsFree (h.mainEntry name) = false := by
      simpa [entryIsFree, Option.isNone_eq_false_iff, Option.isSome_iff_ne_none] using hmused
    have hnodup := hnone _ (List.mem_range.mpr hmlt)
    simp only [hfree, hl.prevUsed _ hmused, hfull, Bool.not_false, Option.isNone_none,
      Bool.true_and, Bool.not_eq_true] at hnodup
    have hinj := List.inj_on_of_nodup_map (chainHasDuplicate_eq_false.mp hnodup)
    exact hinj hpc hqc (hpn.trans hqn.symm)
  · intro hinj i hi
    have hilt := List.mem_range.mp hi
    cases hn : (h.entry i).name with
    | none => simp [entryIsFree, hn]
    | some name =>
      have hmem : i ∈ chain (h.mainEntry name) := (hl.memChain _ i).mpr ⟨hilt, name, hn, rfl⟩
      obtain ⟨l, l', hsplit⟩ := List.append_of_mem hmem
      have hnodup : ((i :: l').map fun p => (h.entry p).name).Nodup := by
        have hsub : ∀ r ∈ i :: l', r ∈ chain (h.mainEntry name) := fun r hr => by
          rw [hsplit]
          exact List.mem_append_right l hr
        have hsuffix : (i :: l').Nodup := by
          have := hl.chainNodup (h.mainEntry name)
          rw [hsplit] at this
          exact (List.nodup_append.mp this).2.1
        refine (List.nodup_map_iff_inj_on hsuffix).mpr fun p hp q hq hpq => ?_
        obtain ⟨hplt, n, hpn, -⟩ := (hl.memChain _ p).mp (hsub p hp)
        exact hinj p hplt q (hl.used_of_mem (hsub q hq)).1 n hpn (hpq ▸ hpn)
      simp [hscan _ l i l' hsplit, chainHasDuplicate_eq_false.mpr hnodup]

end RawBindingHash

/-! ## Tables that carry their layout -/

/-- A table built by insertions. -/
structure BindingHash where
  raw : RawBindingHash := {}
  wellFormed : raw.WellFormed := by exact SexprWasm.Text.RawBindingHash.wellFormed_empty
  deriving DecidableEq

namespace BindingHash

instance : Inhabited BindingHash := ⟨{}⟩

variable (h : BindingHash) {name name' : Name} {index i : Int}

/-- The bindings held. -/
def bindings : List (Name × Int) := h.raw.bindings

/-- `wasm_insert_binding`. -/
def insert (name : Name) (index : Int) : BindingHash where
  raw := (h.raw.insertBinding name index).get <| by
    obtain ⟨h', heq, -⟩ := RawBindingHash.insertBinding_spec h.wellFormed name index
    simp [heq]
  wellFormed := by
    obtain ⟨h', heq, hwf, -⟩ := RawBindingHash.insertBinding_spec h.wellFormed name index
    simpa [heq] using hwf

/-- `wasm_find_binding_index_by_name`. -/
def find (name : Name) : Int := h.raw.findBindingIndexByName name

/-- `check_duplicate_bindings`. -/
def reportsDuplicate : Bool := h.raw.reportsDuplicate

/-- No name is bound twice. -/
def Distinct : Prop := (h.bindings.map Prod.fst).Nodup

instance : Decidable h.Distinct := inferInstanceAs (Decidable (List.Nodup _))

variable {h}

theorem bindings_insert (h : BindingHash) (name : Name) (index : Int) :
    (h.insert name index).bindings.Perm ((name, index) :: h.bindings) := by
  obtain ⟨h', heq, -, hperm⟩ := RawBindingHash.insertBinding_spec h.wellFormed name index
  simpa [bindings, insert, heq] using hperm

@[simp] theorem mem_bindings_insert :
    (name', i) ∈ (h.insert name index).bindings ↔
      name' = name ∧ i = index ∨ (name', i) ∈ h.bindings := by
  rw [(bindings_insert h name index).mem_iff, List.mem_cons, Prod.mk.injEq]

@[simp] theorem bindings_empty : ({} : BindingHash).bindings = [] := rfl

theorem distinct_insert :
    (h.insert name index).Distinct ↔ (∀ i, (name, i) ∉ h.bindings) ∧ h.Distinct := by
  have hperm := (bindings_insert h name index).map Prod.fst
  rw [Distinct, hperm.nodup_iff, List.map_cons, List.nodup_cons]
  refine and_congr_left fun _ => ?_
  simp

theorem Distinct.eq (hd : h.Distinct) {j : Int} (hi : (name, i) ∈ h.bindings)
    (hj : (name, j) ∈ h.bindings) : i = j := by
  have := List.inj_on_of_nodup_map hd hi hj rfl
  exact (Prod.mk.inj this).2

/-- A lookup of a bound name finds one of its bindings. -/
theorem find_mem (hi : (name, i) ∈ h.bindings) : (name, h.find name) ∈ h.bindings := by
  rcases RawBindingHash.find_cases h.wellFormed.laidOut name with hf | ⟨-, hnot⟩
  · exact hf
  · exact absurd hi (hnot i)

theorem Distinct.find_eq (hd : h.Distinct) (hi : (name, i) ∈ h.bindings) : h.find name = i :=
  hd.eq (find_mem hi) hi

theorem find_eq_neg_one (hnot : ∀ i, (name, i) ∉ h.bindings) : h.find name = -1 := by
  rcases RawBindingHash.find_cases h.wellFormed.laidOut name with hf | ⟨hf, -⟩
  · exact absurd hf (hnot _)
  · exact hf

theorem mem_of_find_ne (hf : h.find name ≠ -1) : (name, h.find name) ∈ h.bindings := by
  rcases RawBindingHash.find_cases h.wellFormed.laidOut name with hm | ⟨hm, -⟩
  · exact hm
  · exact absurd hm hf

theorem reportsDuplicate_eq_false : h.reportsDuplicate = false ↔ h.Distinct :=
  RawBindingHash.reportsDuplicate_eq_false h.wellFormed.laidOut

end BindingHash

end Text

end SexprWasm
