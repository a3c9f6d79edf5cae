import Mathlib.Data.List.Nodup
import Mathlib.Data.List.Pairwise
import Mathlib.Data.List.Permutation

/-!
# Naming what has no name

A list of entities, some of which carry a name, and a fresh name for
each index. `fill` gives every entity without a name the one of its
index. `fill_nodup_iff` says when that keeps the names apart: exactly
when no fresh name that is used is the name of another entity.

`bound` lists the names with their indices, which is what a table from
names to indices holds.
-/

namespace SexprWasm

namespace Naming

variable {ν : Type} {names : List (Option ν)} {gen : Nat → ν}

/-- The names of the list, each with its index from `i` on. -/
def bound (names : List (Option ν)) (i : Nat) : List (ν × Int) :=
  (names.zipIdx i).filterMap fun (s, k) => s.map fun n => (n, (k : Int))

/-- Every entity named, the index counted from `i` on. -/
def fill (gen : Nat → ν) (names : List (Option ν)) (i : Nat) : List (Option ν) :=
  (names.zipIdx i).map fun (s, k) => some (s.getD (gen k))

/-- What `fill` adds. -/
def fresh (gen : Nat → ν) (names : List (Option ν)) (i : Nat) : List (ν × Int) :=
  (names.zipIdx i).filterMap fun (s, k) => if s.isNone then some (gen k, (k : Int)) else none

@[simp] theorem fill_cons (s : Option ν) (i : Nat) :
    fill gen (s :: names) i = some (s.getD (gen i)) :: fill gen names (i + 1) := by
  simp [fill, List.zipIdx_cons]

@[simp] theorem fresh_cons_none (i : Nat) :
    fresh gen (none :: names) i = (gen i, (i : Int)) :: fresh gen names (i + 1) := by
  simp [fresh, List.zipIdx_cons]

@[simp] theorem fresh_cons_some (n : ν) (i : Nat) :
    fresh gen (some n :: names) i = fresh gen names (i + 1) := by
  simp [fresh, List.zipIdx_cons]

@[simp] theorem bound_cons_none (i : Nat) :
    bound (none :: names) i = bound names (i + 1) := by
  simp [bound, List.zipIdx_cons]

@[simp] theorem bound_cons_some (n : ν) (i : Nat) :
    bound (some n :: names) i = (n, (i : Int)) :: bound names (i + 1) := by
  simp [bound, List.zipIdx_cons]

@[simp] theorem length_fill (i : Nat) : (fill gen names i).length = names.length := by
  simp [fill]

theorem getElem?_fill (i k : Nat) :
    (fill gen names i)[k]? = names[k]?.map fun s => some (s.getD (gen (i + k))) := by
  simp [fill, List.getElem?_zipIdx, Function.comp_def]

theorem mem_bound {n : ν} {i : Nat} {j : Int} :
    (n, j) ∈ bound names i ↔ ∃ k : Nat, names[k]? = some (some n) ∧ j = ((i + k : Nat) : Int) := by
  simp only [bound, List.mem_filterMap, List.mk_mem_zipIdx_iff_le_and_getElem?_sub, Prod.exists,
    Option.map_eq_some_iff, Prod.mk.injEq]
  constructor
  · rintro ⟨s, k, ⟨hle, hs⟩, n', rfl, rfl, rfl⟩
    exact ⟨k - i, hs, by omega⟩
  · rintro ⟨k, hk, rfl⟩
    exact ⟨some n, i + k, ⟨by omega, by simpa using hk⟩, n, rfl, rfl, rfl⟩

/-- The named entities and the fresh names together are all entities with their names. -/
theorem fresh_append_bound (gen : Nat → ν) (names : List (Option ν)) (i : Nat) :
    (fresh gen names i ++ bound names i).Perm (bound (fill gen names i) i) := by
  induction names generalizing i with
  | nil => exact .refl _
  | cons s names ih =>
    have hih := ih (i + 1)
    cases s with
    | none => simpa using hih.cons (gen i, (i : Int))
    | some n => simpa using List.perm_middle.trans (hih.cons _)

/-- The names of the list are apart. -/
def Apart (names : List (Option ν)) : Prop :=
  ∀ (j k : Nat) (n : ν), names[j]? = some (some n) → names[k]? = some (some n) → j = k

theorem apart_iff : Apart names ↔ (names.filterMap id).Nodup := by
  rw [List.Nodup, List.pairwise_filterMap, List.pairwise_iff_getElem]
  constructor
  · intro hap j k hj hk hjk n hn n' hn' e
    subst e
    have := hap j k n (by simp_all) (by simp_all)
    omega
  · intro hpw j k n hj hk
    obtain ⟨hjlt, hj⟩ := List.getElem?_eq_some_iff.mp hj
    obtain ⟨hklt, hk⟩ := List.getElem?_eq_some_iff.mp hk
    rcases Nat.lt_trichotomy j k with hlt | heq | hlt
    · exact absurd rfl (hpw j k hjlt hklt hlt n (by simp [hj]) n (by simp [hk]))
    · exact heq
    · exact absurd rfl (hpw k j hklt hjlt hlt n (by simp [hk]) n (by simp [hj]))

/-- Filling in keeps the names apart exactly when no fresh name is taken. -/
theorem fill_nodup_iff (gen : Nat → ν) (hap : Apart names)
    (hgen : ∀ j k : Nat, names[j]? = some none → names[k]? = some none → gen j = gen k → j = k) :
    (fill gen names 0).Nodup ↔ ∀ k : Nat, names[k]? = some none → some (gen k) ∉ names := by
  rw [List.nodup_iff_getElem?_ne_getElem?]
  constructor
  · intro hne k hk hmem
    obtain ⟨j, hj⟩ := List.mem_iff_getElem?.mp hmem
    have hjfill : (fill gen names 0)[j]? = some (some (gen k)) := by
      rw [getElem?_fill, hj]
      rfl
    have hkfill : (fill gen names 0)[k]? = some (some (gen k)) := by
      rw [getElem?_fill, hk]
      simp
    have hjk : j ≠ k := by
      rintro rfl
      rw [hj] at hk
      cases hk
    have hlt : ∀ x, (fill gen names 0)[x]? = some (some (gen k)) → x < (fill gen names 0).length :=
      fun x hx => (List.getElem?_eq_some_iff.mp hx).1
    rcases Nat.lt_or_gt_of_ne hjk with hlt' | hlt'
    · exact hne j k hlt' (hlt k hkfill) (hjfill.trans hkfill.symm)
    · exact hne k j hlt' (hlt j hjfill) (hkfill.trans hjfill.symm)
  · intro hfree j k hjk hk heq
    rw [length_fill] at hk
    rw [getElem?_fill, getElem?_fill, Nat.zero_add, Nat.zero_add,
      List.getElem?_eq_getElem (by omega : j < names.length), List.getElem?_eq_getElem hk] at heq
    have hj' : names[j]? = some names[j] := List.getElem?_eq_getElem (by omega)
    have hk' : names[k]? = some names[k] := List.getElem?_eq_getElem hk
    simp only [Option.map_some, Option.some.injEq] at heq
    -- either both names are old, or a fresh one is the name of the other entity
    cases hnj : names[j] with
    | none =>
      rw [hnj] at hj' heq
      cases hnk : names[k] with
      | none =>
        rw [hnk] at hk' heq
        have := hgen j k hj' hk' heq
        omega
      | some n =>
        rw [hnk] at hk' heq
        have hgn : gen j = n := heq
        exact hfree j hj' (hgn ▸ List.mem_of_getElem? hk')
    | some n =>
      rw [hnj] at hj' heq
      cases hnk : names[k] with
      | none =>
        rw [hnk] at hk' heq
        have hng : n = gen k := heq
        exact hfree k hk' (hng ▸ List.mem_of_getElem? hj')
      | some n' =>
        rw [hnk] at hk' heq
        obtain rfl : n = n' := heq
        have := hap j k n hj' hk'
        omega

theorem names_bound (i : Nat) : (bound names i).map Prod.fst = names.filterMap id := by
  induction names generalizing i with
  | nil => rfl
  | cons s names ih =>
    have hih := ih (i + 1)
    cases s <;> simpa using hih

theorem nodup_bound_indices (i : Nat) : ((bound names i).map Prod.snd).Nodup := by
  induction names generalizing i with
  | nil => exact List.nodup_nil
  | cons s names ih =>
    cases s with
    | none => simpa using ih (i + 1)
    | some n =>
      rw [bound_cons_some, List.map_cons, List.nodup_cons]
      refine ⟨fun hmem => ?_, ih (i + 1)⟩
      obtain ⟨⟨n', j⟩, hb, hj⟩ := List.mem_map.mp hmem
      obtain ⟨k, -, rfl⟩ := mem_bound.mp hb
      have hik : ((i + 1 + k : Nat) : Int) = i := hj
      omega

theorem fill_append (gen : Nat → ν) (names' : List (Option ν)) :
    fill gen (names ++ names') 0 =
      fill gen names 0 ++ fill (fun k => gen (names.length + k)) names' 0 := by
  refine List.ext_getElem? fun k => ?_
  rw [getElem?_fill]
  by_cases hk : k < names.length
  · rw [List.getElem?_append_left hk, List.getElem?_append_left (by simpa using hk), getElem?_fill]
  · rw [List.getElem?_append_right (by omega), List.getElem?_append_right (by simpa using hk),
      getElem?_fill, length_fill]
    have hkk : names.length + (0 + (k - names.length)) = 0 + k := by omega
    rw [hkk]

theorem fill_congr {gen' : Nat → ν} {i : Nat}
    (h : ∀ k < names.length, gen (i + k) = gen' (i + k)) : fill gen names i = fill gen' names i := by
  refine List.ext_getElem? fun k => ?_
  rw [getElem?_fill, getElem?_fill]
  by_cases hk : k < names.length
  · rw [h k hk]
  · rw [List.getElem?_eq_none (by omega)]
    rfl

end Naming

end SexprWasm
