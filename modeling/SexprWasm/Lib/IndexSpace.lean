import Mathlib.Data.List.Basic

/-!
# Index spaces over a shared store

A loader gives the indexes of a module a meaning in a store that other
modules share. The mapping has an entry for each import, which can be
anywhere in the store, and after these an entry for each item of the
module itself, which the loader has appended to the store when it read
how many there are. `IndexSpace` says this of a store and a mapping;
what is below the module's own items is what was there before, and
the loader's updates keep it.
-/

namespace SexprWasm

variable {α : Type} {old store : List α} {mapping : List Nat} {imports own : Nat}

structure IndexSpace (old store : List α) (mapping : List Nat) (imports own : Nat) : Prop where
  below : old <+: store
  room : old.length + own ≤ store.length
  length : mapping.length = imports + own
  ownItems : ∀ i, i < own → mapping[imports + i]? = some (store.length - own + i)

namespace IndexSpace

theorem initial (old : List α) : IndexSpace old old [] 0 0 where
  below := List.prefix_rfl
  room := Nat.le_refl _
  length := rfl
  ownItems i hi := absurd hi (Nat.not_lt_zero i)

/-- An own index is translated to an own item, and only an own index is. -/
theorem translate (h : IndexSpace old store mapping imports own) {i k : Nat}
    (hk : mapping[imports + i]? = some k) : i < own ∧ k = store.length - own + i := by
  have hi : imports + i < mapping.length := (List.getElem?_eq_some_iff.mp hk).1
  have hlt : i < own := by
    rw [h.length] at hi
    omega
  have hown := h.ownItems i hlt
  rw [hk] at hown
  exact ⟨hlt, Option.some.inj hown⟩

theorem translate_above (h : IndexSpace old store mapping imports own) {i k : Nat}
    (hk : mapping[imports + i]? = some k) : old.length ≤ k ∧ k < store.length := by
  obtain ⟨hi, rfl⟩ := h.translate hk
  have hroom := h.room
  omega

theorem set (h : IndexSpace old store mapping imports own) {k : Nat} (hk : old.length ≤ k)
    (a : α) : IndexSpace old (store.set k a) mapping imports own where
  below := by
    obtain ⟨rest, rfl⟩ := h.below
    rw [List.set_append_right _ _ hk]
    exact List.prefix_append ..
  room := by simpa using h.room
  length := h.length
  ownItems := by simpa using h.ownItems

/-- Before the own items are there, an import adds to the mapping, and maybe to the store. -/
theorem appendImport (h : IndexSpace old store mapping imports 0) (new : List α) (k : Nat) :
    IndexSpace old (store ++ new) (mapping ++ [k]) (imports + 1) 0 where
  below := h.below.trans (List.prefix_append ..)
  room := by
    have := h.room
    simp only [List.length_append]
    omega
  length := by simp [h.length]
  ownItems i hi := absurd hi (Nat.not_lt_zero i)

theorem appendOwn (h : IndexSpace old store mapping imports 0) (count : Nat) (a : α) :
    IndexSpace old (store ++ List.replicate count a)
      (mapping ++ (List.range count).map (store.length + ·)) imports count where
  below := h.below.trans (List.prefix_append ..)
  room := by
    have := h.room
    simp only [List.length_append, List.length_replicate]
    omega
  length := by simp [h.length]
  ownItems i hi := by
    have hlen : mapping.length = imports := h.length
    simp [hlen, hi]

theorem take_below (h : IndexSpace old store mapping imports own) :
    store.take old.length = old := by
  obtain ⟨rest, rfl⟩ := h.below
  simp

end IndexSpace

end SexprWasm
