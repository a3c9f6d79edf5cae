import SexprWasm.Lib.Naming
import SexprWasm.Text.GenerateNames

/-!
# When generated names are unique

A module whose tables bind the names its entities carry is given a name
for every entity. The new names are those of `Naming.fill`, so they are
apart from each other, and apart from the old ones exactly when no
entity carries the name another one is given. The parameters and the
locals of a function are one list of names here: they have two tables
and two prefixes, but a lookup reads one table after the other.
-/

namespace SexprWasm

namespace Text

open Naming

/-! ## Generated names -/

theorem decimal_injective {m n : Nat} (h : decimal m = decimal n) : m = n := by
  have hchars : ∀ k, (decimal k).map (fun b => Char.ofNat b.toNat) = Nat.toDigits 10 k := by
    intro k
    have hchar : ∀ c ∈ Nat.toDigits 10 k,
        ((fun b : UInt8 => Char.ofNat b.toNat) ∘ fun c : Char => UInt8.ofNat c.toNat) c = id c := by
      intro c hc
      have hdigit := Nat.isDigit_of_mem_toDigits (by decide) (by decide) hc
      have hlt : c.toNat < 256 := by
        simp only [Char.isDigit, Bool.and_eq_true, decide_eq_true_eq] at hdigit
        have hle : c.toNat ≤ 57 := hdigit.2
        omega
      simp [Nat.mod_eq_of_lt hlt]
    rw [decimal, List.map_map, List.map_congr_left hchar, List.map_id]
  have hdigits : Nat.toDigits 10 m = Nat.toDigits 10 n := by
    rw [← hchars, ← hchars, h]
  have hread := congrArg (fun l => Nat.ofDigitChars 10 l 0) hdigits
  simpa using hread

theorem generateName_injective {pre : String} {m n : Nat}
    (h : generateName pre m = generateName pre n) : m = n :=
  decimal_injective (List.append_cancel_left h)

theorem generateName_param_ne_local {m n : Nat} : generateName "$p" m ≠ generateName "$l" n := by
  intro h
  have hp : cstr "$p" = [36, 112] := by decide
  have hl : cstr "$l" = [36, 108] := by decide
  simp [generateName, hp, hl] at h

theorem generateName_ne_nil {pre : String} {n : Nat} : generateName pre n ≠ [] := by
  have hdigits : decimal n ≠ [] := by simp [decimal, Nat.toDigits_ne_nil]
  simp [generateName, hdigits]

/-! ## Tables and the names they bind -/

/-- The table binds the names of the list, which are apart and not empty, to their indices. -/
def Binds (h : BindingHash) (names : List StringSlice) : Prop :=
  h.bindings.Perm (bound names 0) ∧ (names.filterMap id).Nodup ∧ some [] ∉ names ∧
    ∀ b ∈ h.bindings, b.2 < 2 ^ 31

instance (h : BindingHash) (names : List StringSlice) : Decidable (Binds h names) :=
  inferInstanceAs (Decidable (_ ∧ _ ∧ _ ∧ _))

/-- Every entity has a name of its own, and `lookup` finds it by that name. -/
def Unique (names : List StringSlice) (lookup : Name → Int) : Prop :=
  (∀ s ∈ names, s.hasName = true) ∧ names.Nodup ∧
    ∀ (k : Nat) (n : Name), names[k]? = some (some n) → lookup n = k

/-- The index space fits an `int`, and no entity has the name that one without a name is
given. -/
def Nameable (gen : Nat → Name) (names : List StringSlice) : Prop :=
  names.length ≤ 2 ^ 31 ∧ ∀ k : Nat, names[k]? = some none → some (gen k) ∉ names

theorem hasName_iff {s : StringSlice} : s.hasName = true ↔ s ≠ none ∧ s ≠ some [] := by
  rcases s with _ | _ | ⟨c, n⟩ <;> simp [StringSlice.hasName]

/-- Lookups in a table that binds distinct names. -/
theorem unique_of_perm {h : BindingHash} {names : List StringSlice}
    (hperm : h.bindings.Perm (bound names 0)) (hnodup : names.Nodup)
    (hnamed : ∀ s ∈ names, s.hasName = true) : Unique names h.find := by
  refine ⟨hnamed, hnodup, fun k n hk => ?_⟩
  have hdistinct : h.Distinct := by
    have hnames := (hperm.map Prod.fst).nodup_iff
    rw [names_bound] at hnames
    refine hnames.mpr ?_
    refine List.Nodup.filterMap (fun a a' b hb hb' => ?_) hnodup
    have ha : a = some b := by simpa using hb
    have ha' : a' = some b := by simpa using hb'
    exact ha.trans ha'.symm
  refine hdistinct.find_eq (hperm.mem_iff.mpr (mem_bound.mpr ⟨k, hk, ?_⟩))
  simp

/-! ## What the loops do -/

section loops

variable {α : Type} {visit : Nat → α → BindingHash → Option (α × BindingHash)}
  {name : α → StringSlice} {pre : String} {as as' : List α} {h h' : BindingHash} {i : Nat}

/-- A visit names its entity by `maybe_generate_and_bind_name`. -/
def NamesEntity (visit : Nat → α → BindingHash → Option (α × BindingHash)) (name : α → StringSlice)
    (pre : String) : Prop :=
  ∀ i a h a' h', visit i a h = some (a', h') →
    (name a', h') = maybeGenerateAndBindName h pre (u32 i) (name a)

theorem forEachIndex_cons {a : α} :
    forEachIndex visit i (a :: as) h = some (as', h') ↔
      ∃ a' h₁ as₁, visit i a h = some (a', h₁) ∧
        forEachIndex visit (i + 1) as h₁ = some (as₁, h') ∧ as' = a' :: as₁ := by
  simp only [forEachIndex, Option.bind_eq_bind, Option.bind_eq_some_iff, Prod.exists,
    Option.some.injEq, Prod.mk.injEq]
  constructor
  · rintro ⟨a', h₁, hv, as₁, h₂, hr, rfl, rfl⟩
    exact ⟨a', h₁, as₁, hv, hr, rfl⟩
  · rintro ⟨a', h₁, as₁, hv, hr, rfl⟩
    exact ⟨a', h₁, hv, as₁, h', hr, rfl, rfl⟩

theorem forEachIndex_total (visit : Nat → α → BindingHash → Option (α × BindingHash)) (as : List α)
    (hvisit : ∀ a ∈ as, ∀ i h, ∃ r, visit i a h = some r) (i : Nat) (h : BindingHash) : ∃ as' h', forEachIndex visit i as h = some (as', h') := by
  induction as generalizing i h with
  | nil => exact ⟨[], h, rfl⟩
  | cons a as ih =>
    obtain ⟨⟨a', h₁⟩, hv⟩ := hvisit a List.mem_cons_self i h
    obtain ⟨as₁, h', hr⟩ := ih (fun b hb => hvisit b (List.mem_cons_of_mem _ hb)) (i + 1) h₁
    exact ⟨a' :: as₁, h', forEachIndex_cons.mpr ⟨a', h₁, as₁, hv, hr, rfl⟩⟩

theorem forEachIndex_forall₂ (hr : forEachIndex visit i as h = some (as', h')) :
    List.Forall₂ (fun a a' => ∃ i h h', visit i a h = some (a', h')) as as' := by
  induction as generalizing i h as' with
  | nil =>
    obtain ⟨rfl, rfl⟩ : [] = as' ∧ h = h' := by simpa [forEachIndex] using hr
    exact .nil
  | cons a as ih =>
    obtain ⟨a', h₁, as₁, hv, hrest, rfl⟩ := forEachIndex_cons.mp hr
    exact .cons ⟨i, h, h₁, hv⟩ (ih hrest)

theorem maybeGenerateAndBindName_none (hi : i < 2 ^ 31) :
    maybeGenerateAndBindName h pre (u32 i) none =
      (some (generateName pre i), h.insert (generateName pre i) i) := by
  have hu : u32 i = i := u32_of_lt (by simp only [maxU32]; omega)
  have hc : cInt (i : Int) = i := cInt_of_lt (by omega) (by omega)
  simp [maybeGenerateAndBindName, generateAndBindName, StringSlice.hasName, hu, hc]

theorem maybeGenerateAndBindName_some {n : Name} (hn : n ≠ []) :
    maybeGenerateAndBindName h pre (u32 i) (some n) = (some n, h) := by
  have hname : StringSlice.hasName (some n) = true := hasName_iff.mpr ⟨by simp, by simpa using hn⟩
  simp [maybeGenerateAndBindName, hname]

/-- A loop fills in the names and binds the fresh ones, as long as the indices fit. -/
theorem forEachIndex_names (hv : NamesEntity visit name pre)
    (hr : forEachIndex visit i as h = some (as', h')) (hne : some [] ∉ as.map name)
    (hlen : i + as.length ≤ 2 ^ 31) :
    as'.map name = Naming.fill (generateName pre) (as.map name) i ∧
      h'.bindings.Perm (fresh (generateName pre) (as.map name) i ++ h.bindings) := by
  induction as generalizing i h as' with
  | nil =>
    obtain ⟨rfl, rfl⟩ : [] = as' ∧ h = h' := by simpa [forEachIndex] using hr
    exact ⟨rfl, .refl _⟩
  | cons a as ih =>
    obtain ⟨a', h₁, as₁, hvisit, hrest, rfl⟩ := forEachIndex_cons.mp hr
    rw [List.map_cons, List.mem_cons, not_or] at hne
    rw [List.length_cons] at hlen
    obtain ⟨hnames, hperm⟩ := ih hrest hne.2 (by omega)
    have hstep := hv i a h a' h₁ hvisit
    cases hn : name a with
    | none =>
      rw [hn, maybeGenerateAndBindName_none (by omega)] at hstep
      obtain ⟨ha', rfl⟩ := Prod.mk.inj hstep
      refine ⟨by simp [ha', hn, hnames], ?_⟩
      rw [List.map_cons, hn, fresh_cons_none]
      refine hperm.trans ?_
      refine ((BindingHash.bindings_insert _ _ _).append_left _).trans ?_
      exact List.perm_middle
    | some n =>
      rw [hn, maybeGenerateAndBindName_some (by
        rintro rfl
        exact hne.1 hn.symm)] at hstep
      obtain ⟨ha', rfl⟩ := Prod.mk.inj hstep
      refine ⟨by simp [ha', hn, hnames], ?_⟩
      rw [List.map_cons, hn, fresh_cons_some]
      exact hperm

/-- Every index a loop binds is an `int`. -/
theorem forEachIndex_index_lt (hv : NamesEntity visit name pre)
    (hr : forEachIndex visit i as h = some (as', h')) (hlt : ∀ b ∈ h.bindings, b.2 < 2 ^ 31) :
    ∀ b ∈ h'.bindings, b.2 < 2 ^ 31 := by
  induction as generalizing i h as' with
  | nil =>
    obtain ⟨rfl, rfl⟩ : [] = as' ∧ h = h' := by simpa [forEachIndex] using hr
    exact hlt
  | cons a as ih =>
    obtain ⟨a', h₁, as₁, hvisit, hrest, rfl⟩ := forEachIndex_cons.mp hr
    refine ih hrest ?_
    have hstep := hv i a h a' h₁ hvisit
    simp only [maybeGenerateAndBindName, generateAndBindName] at hstep
    split at hstep
    · obtain ⟨-, rfl⟩ := Prod.mk.inj hstep
      rintro ⟨n, j⟩ hb
      rcases BindingHash.mem_bindings_insert.mp hb with ⟨-, hj⟩ | hb
      · have hlt' := cInt_lt (u32 i)
        rw [← hj] at hlt'
        exact hlt'
      · exact hlt _ hb
    · obtain ⟨-, rfl⟩ := Prod.mk.inj hstep
      exact hlt

theorem hasName_fill {gen : Nat → Name} {names : List StringSlice} (hgen : ∀ k, gen k ≠ [])
    (hne : some [] ∉ names) : ∀ s ∈ Naming.fill gen names i, StringSlice.hasName s = true := by
  intro s hs
  simp only [Naming.fill, List.mem_map, Prod.exists] at hs
  obtain ⟨t, k, ht, rfl⟩ := hs
  have ht' : t ∈ names := List.fst_mem_of_mem_zipIdx ht
  refine hasName_iff.mpr ⟨Option.some_ne_none _, fun e => ?_⟩
  cases t with
  | none => exact hgen k (Option.some.inj e)
  | some n =>
    have hn : n = [] := Option.some.inj e
    exact hne (hn ▸ ht')

/-- A lookup never answers more than an `int` holds. -/
theorem find_lt (hlt : ∀ b ∈ h.bindings, b.2 < 2 ^ 31) (n : Name) : h.find n < 2 ^ 31 := by
  by_cases hf : h.find n = -1
  · rw [hf]
    decide
  · exact hlt _ (BindingHash.mem_of_find_ne hf)

theorem Unique.length_le {names : List StringSlice} {lookup : Name → Int}
    (hu : Unique names lookup) (hlt : ∀ n, lookup n < 2 ^ 31) : names.length ≤ 2 ^ 31 := by
  by_contra hlen
  have hk : names[2 ^ 31]? = some names[2 ^ 31] := List.getElem?_eq_getElem (by omega)
  have hnamed := (hasName_iff.mp (hu.1 _ (List.mem_of_getElem? hk))).1
  obtain ⟨n, hn⟩ := Option.ne_none_iff_exists'.mp hnamed
  rw [hn] at hk
  have hlook := hu.2.2 _ n hk
  have hbound := hlt n
  rw [hlook] at hbound
  simp at hbound

/-- One namespace: the loop over its entities leaves them with unique names exactly when they
are nameable. -/
theorem unique_iff_nameable (hv : NamesEntity visit name pre) (hb : Binds h (as.map name))
    (hr : forEachIndex visit 0 as h = some (as', h')) :
    Unique (as'.map name) h'.find ↔ Nameable (generateName pre) (as.map name) := by
  obtain ⟨hperm, hapart, hne, hlt⟩ := hb
  have hlt' := forEachIndex_index_lt hv hr hlt
  have hfresh := fill_nodup_iff (generateName pre) (apart_iff.mpr hapart)
    fun j k _ _ e => generateName_injective e
  constructor
  · intro hu
    have hlen : as.length ≤ 2 ^ 31 := by
      have := hu.length_le fun n => find_lt hlt' n
      rw [List.length_map] at this
      rwa [(forEachIndex_forall₂ hr).length_eq]
    obtain ⟨hnames, -⟩ := forEachIndex_names hv hr hne (by omega)
    refine ⟨by simpa using hlen, hfresh.mp ?_⟩
    rw [← hnames]
    exact hu.2.1
  · rintro ⟨hlen, hfree⟩
    obtain ⟨hnames, hperm'⟩ := forEachIndex_names hv hr hne (by simpa using hlen)
    rw [hnames]
    refine unique_of_perm ?_ (hfresh.mpr hfree) (hasName_fill (fun _ => generateName_ne_nil) hne)
    exact hperm'.trans ((hperm.append_left _).trans (fresh_append_bound _ _ _))

end loops

/-! ## The names of parameters and locals -/

/-- The loop of the reverse mapping, over bindings of distinct indices in range. -/
theorem reverseMapping_loop (bs : List (Name × Int)) (mapping : List StringSlice)
    (hin : ∀ b ∈ bs, ∃ k : Nat, k < mapping.length ∧ k < 2 ^ 32 ∧ b.2 = k)
    (hnodup : (bs.map Prod.snd).Nodup) :
    ∃ mapping', bs.foldlM (fun (mapping : List StringSlice) ((name, index) : Name × Int) =>
        let index := (index % maxU32).toNat
        if index < mapping.length then some (mapping.set index (some name)) else none)
        mapping = some mapping' ∧ mapping'.length = mapping.length ∧
      (∀ n (k : Nat), (n, (k : Int)) ∈ bs → mapping'[k]? = some (some n)) ∧
      ∀ k : Nat, (∀ n, (n, (k : Int)) ∉ bs) → mapping'[k]? = mapping[k]? := by
  induction bs generalizing mapping with
  | nil => exact ⟨mapping, rfl, rfl, by simp, by simp⟩
  | cons b bs ih =>
    obtain ⟨n, i⟩ := b
    obtain ⟨k, hk, hk32, rfl⟩ := hin (n, i) List.mem_cons_self
    rw [List.map_cons, List.nodup_cons] at hnodup
    have hidx : ((k : Int) % maxU32).toNat = k := by
      simp only [maxU32]
      omega
    obtain ⟨mapping', hfold, hlen, hset, hkeep⟩ := ih (mapping.set k (some n))
      (fun b hb => by simpa using hin b (List.mem_cons_of_mem _ hb)) hnodup.2
    refine ⟨mapping', ?_, by simpa using hlen, ?_, ?_⟩
    · simp [List.foldlM_cons, hidx, hk, hfold]
    · intro n' k' hmem
      rcases List.mem_cons.mp hmem with heq | hmem
      · obtain ⟨rfl, hkk⟩ := Prod.mk.inj heq
        obtain rfl : k' = k := by omega
        have hnone : ∀ m, (m, (k' : Int)) ∉ bs := fun m hm =>
          hnodup.1 (List.mem_map.mpr ⟨_, hm, rfl⟩)
        rw [hkeep k' hnone, List.getElem?_set_self hk]
      · exact hset n' k' hmem
    · intro k' hnone
      have hne : k ≠ k' := by
        rintro rfl
        exact hnone n List.mem_cons_self
      rw [hkeep k' fun m hm => hnone m (List.mem_cons_of_mem _ hm), List.getElem?_set_ne hne]

/-- The reverse mapping of a table that binds `names` is `names`. -/
theorem makeTypeBindingReverseMapping_eq {h : BindingHash} {names : List StringSlice}
    (hperm : h.bindings.Perm (bound names 0)) (hlen : names.length ≤ 2 ^ 32) :
    makeTypeBindingReverseMapping names.length h = some names := by
  have hmem : ∀ n (k : Nat), (n, (k : Int)) ∈ h.bindings ↔ names[k]? = some (some n) := by
    intro n k
    rw [hperm.mem_iff, mem_bound]
    constructor
    · rintro ⟨j, hj, hkj⟩
      obtain rfl : k = j := by omega
      exact hj
    · intro hk
      exact ⟨k, hk, by simp⟩
  obtain ⟨mapping, hfold, hmlen, hset, hkeep⟩ :=
    reverseMapping_loop h.bindings (List.replicate names.length none) (by
      rintro ⟨n, i⟩ hb
      obtain ⟨k, hk, rfl⟩ := mem_bound.mp (hperm.mem_iff.mp hb)
      have hlt := (List.getElem?_eq_some_iff.mp hk).1
      exact ⟨k, by simpa using hlt, by omega, by simp⟩)
      ((hperm.map _).nodup_iff.mpr (nodup_bound_indices 0))
  rw [makeTypeBindingReverseMapping, hfold, Option.some.injEq]
  refine List.ext_getElem? fun k => ?_
  by_cases hk : k < names.length
  · cases hn : names[k] with
    | none =>
      rw [hkeep k fun n hb => ?_]
      · simp [hk, hn]
      · have := (hmem n k).mp hb
        simp [hk, hn] at this
    | some n =>
      rw [hset n k ((hmem n k).mpr (by simp [hk, hn]))]
      simp [hk, hn]
  · rw [List.getElem?_eq_none (by simpa [hmlen] using hk), List.getElem?_eq_none (by omega)]

namespace Func

variable (f : Func)

/-- The names of the parameters, by index. -/
def paramNames : List StringSlice :=
  (makeTypeBindingReverseMapping f.numParams f.paramBindings).getD (.replicate f.numParams none)

/-- The names of the locals, by index. -/
def localNames : List StringSlice :=
  (makeTypeBindingReverseMapping f.numLocals f.localBindings).getD (.replicate f.numLocals none)

/-- The tables of a function bind parameters and locals, and no name twice. -/
def NamesConsistent : Prop :=
  Binds f.paramBindings f.paramNames ∧ Binds f.localBindings f.localNames ∧
    ((f.paramNames ++ f.localNames).filterMap id).Nodup

instance : Decidable f.NamesConsistent := inferInstanceAs (Decidable (_ ∧ _ ∧ _))

/-- The name a parameter or a local without one is given. -/
def localGen (k : Nat) : Name :=
  if k < f.numParams then generateName "$p" k else generateName "$l" (k - f.numParams)

/-- Parameters and locals have unique names, and `wasm_get_local_index_by_var` finds them. -/
def NamesUnique : Prop :=
  Unique (f.paramNames ++ f.localNames) fun n => f.getLocalIndexByVar (.name n)

def Nameable : Prop := Text.Nameable f.localGen (f.paramNames ++ f.localNames)

end Func

theorem length_of_reverseMapping {n : Nat} {h : BindingHash} {names : List StringSlice}
    (hm : makeTypeBindingReverseMapping n h = some names) : names.length = n := by
  have hloop : ∀ (bs : List (Name × Int)) (mapping : List StringSlice),
      bs.foldlM (fun (mapping : List StringSlice) ((name, index) : Name × Int) =>
        let index := (index % maxU32).toNat
        if index < mapping.length then some (mapping.set index (some name)) else none)
        mapping = some names → names.length = mapping.length := by
    intro bs
    induction bs with
    | nil =>
      intro mapping hm
      obtain rfl : mapping = names := by simpa using hm
      rfl
    | cons b bs ih =>
      intro mapping hm
      rw [List.foldlM_cons] at hm
      obtain ⟨m, hstep, hrest⟩ := Option.bind_eq_some_iff.mp hm
      have hlen := ih m hrest
      dsimp only at hstep
      split at hstep
      · cases hstep
        simpa using hlen
      · cases hstep
  simpa using hloop h.bindings _ hm

/-- A table that binds the names it maps back to passes the assertion on its indices. -/
theorem Binds.reverseMapping {n : Nat} {h : BindingHash}
    (hb : Binds h ((makeTypeBindingReverseMapping n h).getD (.replicate n none))) :
    ∃ names, makeTypeBindingReverseMapping n h = some names ∧ names.length = n ∧ Binds h names := by
  cases hm : makeTypeBindingReverseMapping n h with
  | some names =>
    rw [hm] at hb
    exact ⟨names, rfl, length_of_reverseMapping hm, hb⟩
  | none =>
    rw [hm] at hb
    have hnil : h.bindings = [] := by
      have hbound : bound (List.replicate n (none : StringSlice)) 0 = [] := by
        refine List.eq_nil_iff_forall_not_mem.mpr fun b hb => ?_
        obtain ⟨k, hk, -⟩ := mem_bound.mp (show (b.1, b.2) ∈ _ from hb)
        have := List.mem_of_getElem? hk
        simp at this
      exact List.perm_nil.mp (hbound ▸ hb.1)
    simp [makeTypeBindingReverseMapping, hnil] at hm

/-- The visits of `generate_and_bind_local_names`. -/
theorem namesEntity_local (pre : String) :
    NamesEntity (fun i str h => some (maybeGenerateAndBindName h pre (u32 i) str)) id pre := by
  intro i a h a' h' hv
  exact (Option.some.inj hv).symm

section visitor

variable (label : StringSlice) (n : Nat)

theorem generateNames_beginBlock : generateNamesVisitor.beginBlockExpr label n =
    .ok (maybeGenerateName "$B" n label) (u32 (n + 1)) := rfl

theorem generateNames_beginLoop : generateNamesVisitor.beginLoopExpr label n =
    .ok (maybeGenerateName "$L" n label) (u32 (n + 1)) := rfl

theorem generateNames_beginIf : generateNamesVisitor.beginIfExpr label n =
    .ok (maybeGenerateName "$L" n label) (u32 (n + 1)) := rfl

theorem generateNames_endBlock : generateNamesVisitor.endBlockExpr n = .ok () n := rfl

theorem generateNames_endLoop : generateNamesVisitor.endLoopExpr n = .ok () n := rfl

theorem generateNames_endIf : generateNamesVisitor.endIfExpr n = .ok () n := rfl

end visitor

/-- The walk over a body only names labels: it never fails. -/
theorem generateNamesVisitor_ok (e : ExprList) (s : Nat) :
    ∃ e' s', visitExprList generateNamesVisitor e s = .ok e' s' := by
  induction e generalizing s with
  | nil => exact ⟨_, _, rfl⟩
  | expr e next ih =>
    have he : ∃ e', visitExpr generateNamesVisitor e s = .ok e' s := by
      cases e <;> exact ⟨_, rfl⟩
    obtain ⟨e', he⟩ := he
    obtain ⟨next', s', hnext⟩ := ih s
    refine ⟨.expr e' next', s', ?_⟩
    simp only [visitExprList, he, Visit.andThen_ok, hnext, Visit.map_ok]
  | block label sig first next ihf ihn =>
    obtain ⟨first', s₁, hfirst⟩ := ihf (u32 (s + 1))
    obtain ⟨next', s₂, hnext⟩ := ihn s₁
    refine ⟨.block (maybeGenerateName "$B" s label) sig first' next', s₂, ?_⟩
    simp only [visitExprList, generateNames_beginBlock, generateNames_endBlock, Visit.andThen_ok,
      hfirst, hnext, Visit.map_ok]
  | loop label sig first next ihf ihn =>
    obtain ⟨first', s₁, hfirst⟩ := ihf (u32 (s + 1))
    obtain ⟨next', s₂, hnext⟩ := ihn s₁
    refine ⟨.loop (maybeGenerateName "$L" s label) sig first' next', s₂, ?_⟩
    simp only [visitExprList, generateNames_beginLoop, generateNames_endLoop, Visit.andThen_ok,
      hfirst, hnext, Visit.map_ok]
  | if_ label sig true_ false_ next iht ihf ihn =>
    obtain ⟨true', s₁, htrue⟩ := iht (u32 (s + 1))
    obtain ⟨false', s₂, hfalse⟩ := ihf s₁
    obtain ⟨next', s₃, hnext⟩ := ihn s₂
    refine ⟨.if_ (maybeGenerateName "$L" s label) sig true' false' next', s₃, ?_⟩
    simp only [visitExprList, generateNames_beginIf, generateNames_endIf, Visit.andThen_ok, htrue,
      hfalse, hnext, Visit.map_ok]

/-! ## Functions -/

section functions

variable {f f' : Func} {h h' : BindingHash} {i : Nat}

/-- A visit of a function with consistent tables names it, and fills in the names of its
parameters and locals. -/
theorem visitFunc_cases (hf : f.NamesConsistent) (i : Nat) (h : BindingHash) :
    ∃ f' ps ls, GenerateNames.visitFunc i f h =
        some (f', (maybeGenerateAndBindName h "$f" (u32 i) f.name).2) ∧
      f'.name = (maybeGenerateAndBindName h "$f" (u32 i) f.name).1 ∧
      f'.decl = f.decl ∧ f'.localTypes = f.localTypes ∧
      f.paramNames.length = f.numParams ∧ f.localNames.length = f.numLocals ∧
      generateAndBindLocalNames f.paramNames f.paramBindings "$p" = some (ps, f'.paramBindings) ∧
      generateAndBindLocalNames f.localNames f.localBindings "$l" = some (ls, f'.localBindings) := by
  obtain ⟨hp, hl, -⟩ := hf
  obtain ⟨pnames, hpm, hplen, -⟩ := hp.reverseMapping
  obtain ⟨lnames, hlm, hllen, -⟩ := hl.reverseMapping
  have hpn : f.paramNames = pnames := by simp [Func.paramNames, hpm]
  have hln : f.localNames = lnames := by simp [Func.localNames, hlm]
  have htotal : ∀ pre (names : List StringSlice) (h : BindingHash),
      ∃ names' h', generateAndBindLocalNames names h pre = some (names', h') :=
    fun pre names h => forEachIndex_total _ names (fun a _ i h => ⟨_, rfl⟩) 0 h
  obtain ⟨ps, pb, hps⟩ := htotal "$p" pnames f.paramBindings
  obtain ⟨ls, lb, hls⟩ := htotal "$l" lnames f.localBindings
  obtain ⟨e', s', he⟩ := generateNamesVisitor_ok f.firstExpr 0
  rw [hpn, hln]
  refine ⟨{ f with
      name := (maybeGenerateAndBindName h "$f" (u32 i) f.name).1
      paramBindings := pb, localBindings := lb, firstExpr := e' }, ps, ls, ?_, rfl, rfl, rfl, hplen,
    hllen, hps, hls⟩
  simp [GenerateNames.visitFunc, hpm, hlm, hps, hls, he]

theorem localGen_injective {j k : Nat} (hjk : f.localGen j = f.localGen k) : j = k := by
  simp only [Func.localGen] at hjk
  split at hjk <;> split at hjk
  · exact generateName_injective hjk
  · exact absurd hjk generateName_param_ne_local
  · exact absurd hjk.symm generateName_param_ne_local
  · have := generateName_injective hjk
    omega

/-- Filling in parameters and locals apart is filling in the whole list. -/
theorem fill_localGen {ps ls : List StringSlice} (hp : ps.length = f.numParams) :
    Naming.fill f.localGen (ps ++ ls) 0 =
      Naming.fill (generateName "$p") ps 0 ++ Naming.fill (generateName "$l") ls 0 := by
  rw [fill_append]
  congr 1
  · refine fill_congr fun k hk => ?_
    simp [Func.localGen, ← hp, hk]
  · refine fill_congr fun k _ => ?_
    simp [Func.localGen, ← hp]

theorem length_paramNames (f : Func) : f.paramNames.length = f.numParams := by
  unfold Func.paramNames
  cases hm : makeTypeBindingReverseMapping f.numParams f.paramBindings with
  | none => simp
  | some names => simpa using length_of_reverseMapping hm

theorem length_localNames (f : Func) : f.localNames.length = f.numLocals := by
  unfold Func.localNames
  cases hm : makeTypeBindingReverseMapping f.numLocals f.localBindings with
  | none => simp
  | some names => simpa using length_of_reverseMapping hm

/-- A function whose tables bind the names of two lists, all distinct, has unique names. -/
theorem namesUnique_of_perm {ps ls : List StringSlice} (hplen : ps.length = f.numParams)
    (hllen : ls.length = f.numLocals) (hlen : (ps ++ ls).length ≤ 2 ^ 31)
    (hp : f.paramBindings.bindings.Perm (bound ps 0))
    (hl : f.localBindings.bindings.Perm (bound ls 0)) (hnodup : (ps ++ ls).Nodup)
    (hnamed : ∀ s ∈ ps ++ ls, StringSlice.hasName s = true) : f.NamesUnique := by
  rw [List.length_append] at hlen
  have hpn : f.paramNames = ps := by
    rw [Func.paramNames, ← hplen, makeTypeBindingReverseMapping_eq hp (by omega)]
    rfl
  have hln : f.localNames = ls := by
    rw [Func.localNames, ← hllen, makeTypeBindingReverseMapping_eq hl (by omega)]
    rfl
  obtain ⟨hndp, hndl, hdisj⟩ := List.nodup_append.mp hnodup
  have hup := unique_of_perm hp hndp fun s hs => hnamed s (List.mem_append_left _ hs)
  have hul := unique_of_perm hl hndl fun s hs => hnamed s (List.mem_append_right _ hs)
  rw [Func.NamesUnique, hpn, hln]
  refine ⟨hnamed, hnodup, fun k n hk => ?_⟩
  by_cases hkp : k < ps.length
  · rw [List.getElem?_append_left hkp] at hk
    have hfind := hup.2.2 k n hk
    have hne : f.paramBindings.find n ≠ -1 := by omega
    have hlookup : f.scope.getLocalIndexByVar (.name n) = f.paramBindings.find n :=
      FuncScope.getLocalIndexByVar_param hne
    exact hlookup.trans hfind
  · rw [List.getElem?_append_right (by omega)] at hk
    have hfind := hul.2.2 _ n hk
    have hklt := (List.getElem?_eq_some_iff.mp hk).1
    -- no parameter has the name of a local
    have hnone : f.paramBindings.find n = -1 := by
      refine BindingHash.find_eq_neg_one fun i hi => ?_
      obtain ⟨j, hj, -⟩ := mem_bound.mp (hp.mem_iff.mp hi)
      exact hdisj _ (List.mem_of_getElem? hj) _ (List.mem_of_getElem? hk) rfl
    have hne : f.localBindings.find n ≠ -1 := by omega
    have hlookup : f.scope.getLocalIndexByVar (.name n) = cInt (f.numParams + f.localBindings.find n) :=
      FuncScope.getLocalIndexByVar_local hnone hne
    have hsum : ((f.numParams : Int) + f.localBindings.find n) = k := by omega
    rw [hsum, cInt_of_lt (by omega) (by omega)] at hlookup
    exact hlookup

/-- One function: its parameters and locals end up with unique names exactly when they are
nameable. -/
theorem visitFunc_unique_iff (hf : f.NamesConsistent)
    (hv : GenerateNames.visitFunc i f h = some (f', h')) : f'.NamesUnique ↔ f.Nameable := by
  obtain ⟨f₁, ps, ls, hv₁, -, hdecl, hlocals, hplen, hllen, hps, hls⟩ := visitFunc_cases hf i h
  rw [hv] at hv₁
  obtain ⟨rfl, -⟩ := Prod.mk.inj (Option.some.inj hv₁)
  have hnp : f'.numParams = f.numParams := by simp [Func.numParams, hdecl]
  have hnl : f'.numLocals = f.numLocals := by simp [Func.numLocals, hlocals]
  obtain ⟨⟨hpperm, hpapart, hpne, hplt⟩, ⟨hlperm, hlapart, hlne, hllt⟩, hapart⟩ := hf
  have hplt' := forEachIndex_index_lt (namesEntity_local "$p") hps hplt
  have hllt' := forEachIndex_index_lt (namesEntity_local "$l") hls hllt
  have hfresh := fill_nodup_iff f.localGen (apart_iff.mpr hapart)
    fun j k _ _ e => localGen_injective e
  -- what the two loops do if the indices fit
  have hloops : (f.paramNames ++ f.localNames).length ≤ 2 ^ 31 →
      f'.paramBindings.bindings.Perm (bound (Naming.fill (generateName "$p") f.paramNames 0) 0) ∧
        f'.localBindings.bindings.Perm (bound (Naming.fill (generateName "$l") f.localNames 0) 0) := by
    intro hlen
    rw [List.length_append] at hlen
    obtain ⟨-, hperm₁⟩ := forEachIndex_names (namesEntity_local "$p") hps (by simpa using hpne)
      (by omega)
    obtain ⟨-, hperm₂⟩ := forEachIndex_names (namesEntity_local "$l") hls (by simpa using hlne)
      (by omega)
    rw [List.map_id] at hperm₁ hperm₂
    exact ⟨hperm₁.trans ((hpperm.append_left _).trans (fresh_append_bound _ _ _)),
      hperm₂.trans ((hlperm.append_left _).trans (fresh_append_bound _ _ _))⟩
  constructor
  · intro hu
    have hlookup : ∀ n, f'.getLocalIndexByVar (.name n) < 2 ^ 31 := by
      intro n
      by_cases hparam : f'.paramBindings.find n = -1
      · by_cases hlocal : f'.localBindings.find n = -1
        · rw [Func.getLocalIndexByVar, FuncScope.getLocalIndexByVar_neither hparam hlocal]
          decide
        · rw [Func.getLocalIndexByVar, FuncScope.getLocalIndexByVar_local hparam hlocal]
          exact cInt_lt _
      · rw [Func.getLocalIndexByVar, FuncScope.getLocalIndexByVar_param hparam]
        exact find_lt hplt' n
    have hlens : (f'.paramNames ++ f'.localNames).length = f.numParams + f.numLocals := by
      rw [List.length_append, length_paramNames, length_localNames, hnp, hnl]
    have hlen : (f.paramNames ++ f.localNames).length ≤ 2 ^ 31 := by
      have := hu.length_le hlookup
      rw [List.length_append, hplen, hllen, ← hlens]
      exact this
    obtain ⟨hperm₁, hperm₂⟩ := hloops hlen
    rw [List.length_append] at hlen
    have hpn : f'.paramNames = Naming.fill (generateName "$p") f.paramNames 0 := by
      have hflen : (Naming.fill (generateName "$p") f.paramNames 0).length = f.numParams := by
        rw [length_fill, hplen]
      rw [Func.paramNames, hnp, ← hflen, makeTypeBindingReverseMapping_eq hperm₁ (by rw [length_fill]; omega)]
      rfl
    have hln : f'.localNames = Naming.fill (generateName "$l") f.localNames 0 := by
      have hflen : (Naming.fill (generateName "$l") f.localNames 0).length = f.numLocals := by
        rw [length_fill, hllen]
      rw [Func.localNames, hnl, ← hflen, makeTypeBindingReverseMapping_eq hperm₂ (by rw [length_fill]; omega)]
      rfl
    refine ⟨by rw [List.length_append]; exact hlen, hfresh.mp ?_⟩
    rw [fill_localGen hplen, ← hpn, ← hln]
    exact hu.2.1
  · rintro ⟨hlen, hfree⟩
    obtain ⟨hperm₁, hperm₂⟩ := hloops hlen
    refine namesUnique_of_perm (by simp [hplen, hnp]) (by simp [hllen, hnl]) ?_ hperm₁ hperm₂ ?_ ?_
    · simpa using hlen
    · rw [← fill_localGen hplen]
      exact hfresh.mpr hfree
    · intro s hs
      rcases List.mem_append.mp hs with hs | hs
      · exact hasName_fill (fun _ => generateName_ne_nil) hpne s hs
      · exact hasName_fill (fun _ => generateName_ne_nil) hlne s hs

end functions

/-! ## Modules -/

namespace Module

variable (m : Module)

/-- In each namespace the table binds the names the entities carry, and no name twice. -/
def NamesConsistent : Prop :=
  Binds m.funcBindings (m.funcs.map (·.name)) ∧ Binds m.globalBindings (m.globals.map (·.name)) ∧
    Binds m.tableBindings (m.tables.map (·.name)) ∧
    Binds m.memoryBindings (m.memories.map (·.name)) ∧
    Binds m.funcTypeBindings (m.funcTypes.map (·.name)) ∧ ∀ f ∈ m.funcs, f.NamesConsistent

instance : Decidable m.NamesConsistent := inferInstanceAs (Decidable (_ ∧ _ ∧ _ ∧ _ ∧ _ ∧ _))

/-- In each namespace every entity has a name of its own, and a lookup finds it by that name. -/
def NamesUnique : Prop :=
  Unique (m.funcs.map (·.name)) m.funcBindings.find ∧
    Unique (m.globals.map (·.name)) m.globalBindings.find ∧
    Unique (m.tables.map (·.name)) m.tableBindings.find ∧
    Unique (m.memories.map (·.name)) m.memoryBindings.find ∧
    Unique (m.funcTypes.map (·.name)) m.funcTypeBindings.find ∧ ∀ f ∈ m.funcs, f.NamesUnique

/-- In no namespace does an entity carry the name that another one without a name is given. -/
def Nameable : Prop :=
  Text.Nameable (generateName "$f") (m.funcs.map (·.name)) ∧
    Text.Nameable (generateName "$g") (m.globals.map (·.name)) ∧
    Text.Nameable (generateName "$T") (m.tables.map (·.name)) ∧
    Text.Nameable (generateName "$M") (m.memories.map (·.name)) ∧
    Text.Nameable (generateName "$t") (m.funcTypes.map (·.name)) ∧ ∀ f ∈ m.funcs, f.Nameable

end Module

theorem namesEntity_global : NamesEntity GenerateNames.visitGlobal (·.name) "$g" := by
  intro i a h a' h' hv
  obtain ⟨rfl, rfl⟩ := Prod.mk.inj (Option.some.inj hv)
  rfl

theorem namesEntity_funcType : NamesEntity GenerateNames.visitFuncType (·.name) "$t" := by
  intro i a h a' h' hv
  obtain ⟨rfl, rfl⟩ := Prod.mk.inj (Option.some.inj hv)
  rfl

theorem namesEntity_table : NamesEntity GenerateNames.visitTable (·.name) "$T" := by
  intro i a h a' h' hv
  obtain ⟨rfl, rfl⟩ := Prod.mk.inj (Option.some.inj hv)
  rfl

theorem namesEntity_memory : NamesEntity GenerateNames.visitMemory (·.name) "$M" := by
  intro i a h a' h' hv
  obtain ⟨rfl, rfl⟩ := Prod.mk.inj (Option.some.inj hv)
  rfl

theorem namesEntity_func : NamesEntity GenerateNames.visitFunc (·.name) "$f" := by
  intro i a h a' h' hv
  simp only [GenerateNames.visitFunc, Option.bind_eq_bind, Option.bind_eq_some_iff, Prod.exists] at hv
  obtain ⟨pnames, -, ps, pb, -, lnames, -, ls, lb, -, hv⟩ := hv
  split at hv
  · obtain ⟨rfl, rfl⟩ := Prod.mk.inj (Option.some.inj hv)
    rfl
  · cases hv

theorem forall_iff_of_forall₂ {α β : Type} {R : α → β → Prop} {P : β → Prop} {Q : α → Prop}
    {as : List α} {bs : List β} (hr : List.Forall₂ R as bs)
    (hiff : ∀ a ∈ as, ∀ b, R a b → (P b ↔ Q a)) : (∀ b ∈ bs, P b) ↔ ∀ a ∈ as, Q a := by
  induction hr with
  | nil => simp
  | cons hab _ ih =>
    simp only [List.forall_mem_cons]
    rw [hiff _ List.mem_cons_self _ hab, ih fun a ha => hiff a (List.mem_cons_of_mem _ ha)]

/-- `wasm_generate_names` leaves the entities of every namespace, parameters and locals taken
together, with names of their own that lookups find, exactly when no entity carries a name that
the pass gives to another one of its namespace. -/
theorem generateNames_unique_iff (m : Module) (hm : m.NamesConsistent) :
    (∃ m', generateNames m = some m' ∧ m'.NamesUnique) ↔ m.Nameable := by
  obtain ⟨hfb, hgb, htb, hmb, htyb, hfuncs⟩ := hm
  obtain ⟨gs, gb, hg⟩ := forEachIndex_total GenerateNames.visitGlobal m.globals
    (fun a _ i h => ⟨_, rfl⟩) 0 m.globalBindings
  obtain ⟨tys, tyb, hty⟩ := forEachIndex_total GenerateNames.visitFuncType m.funcTypes
    (fun a _ i h => ⟨_, rfl⟩) 0 m.funcTypeBindings
  obtain ⟨fs, fb, hf⟩ := forEachIndex_total GenerateNames.visitFunc m.funcs
    (fun f hf i h => by
      obtain ⟨f', -, -, hv, -⟩ := visitFunc_cases (hfuncs f hf) i h
      exact ⟨_, hv⟩) 0 m.funcBindings
  obtain ⟨ts, tb, ht⟩ := forEachIndex_total GenerateNames.visitTable m.tables
    (fun a _ i h => ⟨_, rfl⟩) 0 m.tableBindings
  obtain ⟨ms, mb, hmem⟩ := forEachIndex_total GenerateNames.visitMemory m.memories
    (fun a _ i h => ⟨_, rfl⟩) 0 m.memoryBindings
  have hrun : generateNames m = some { m with
      globals := gs, globalBindings := gb, funcTypes := tys, funcTypeBindings := tyb
      funcs := fs, funcBindings := fb, tables := ts, tableBindings := tb
      memories := ms, memoryBindings := mb } := by
    simp [generateNames, hg, hty, hf, ht, hmem]
  have heach : (∀ f' ∈ fs, f'.NamesUnique) ↔ ∀ f ∈ m.funcs, f.Nameable := by
    refine forall_iff_of_forall₂ (forEachIndex_forall₂ hf) fun f hmem f' hvisit => ?_
    obtain ⟨i, h, h', hv⟩ := hvisit
    exact visitFunc_unique_iff (hfuncs f hmem) hv
  rw [hrun]
  simp only [Option.some.injEq, exists_eq_left', Module.NamesUnique, Module.Nameable,
    unique_iff_nameable namesEntity_func hfb hf, unique_iff_nameable namesEntity_global hgb hg,
    unique_iff_nameable namesEntity_table htb ht, unique_iff_nameable namesEntity_memory hmb hmem,
    unique_iff_nameable namesEntity_funcType htyb hty, heach]

/-- A function whose parameter and local have no name, beside one that has. -/
def partlyNamed : Module where
  funcs := [{ name := some (cstr "$main")
              decl := { sig := { paramTypes := [.i32], resultTypes := [] } }
              localTypes := [.i64] }, {}]
  funcBindings := ({} : BindingHash).insert (cstr "$main") 0

theorem generateNames_unique_iff_partlyNamed :
    partlyNamed.NamesConsistent ∧
      ((∃ m', generateNames partlyNamed = some m' ∧ m'.NamesUnique) ↔ partlyNamed.Nameable) := by
  have hconsistent : partlyNamed.NamesConsistent := by decide +kernel
  exact ⟨hconsistent, generateNames_unique_iff partlyNamed hconsistent⟩

/-- Two functions, the first of them named like the second will be. -/
def takenName : Module where
  funcs := [{ name := some (cstr "$f1") }, {}]
  funcBindings := ({} : BindingHash).insert (cstr "$f1") 0

theorem generateNames_takenName :
    takenName.NamesConsistent ∧
      ¬ ∃ m', generateNames takenName = some m' ∧ m'.NamesUnique := by
  refine ⟨by decide +kernel, ?_⟩
  rintro ⟨m', hrun, hunique⟩
  have hnames : (generateNames takenName).map (fun m => m.funcs.map (·.name)) =
      some [some (cstr "$f1"), some (cstr "$f1")] := by decide +kernel
  rw [hrun, Option.map_some, Option.some.injEq] at hnames
  have hnodup := hunique.1.2.1
  rw [hnames] at hnodup
  simp at hnodup

end Text

end SexprWasm
