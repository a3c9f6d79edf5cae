import Mathlib.Data.List.Nodup
import Mathlib.Data.List.Basic

/-!
# Linked lists in an array of cells

Cells are numbered and point at one another through `next`, and in a
doubly linked list through `prev` as well. `Seg next a l b` says that
the pointer `a` leads through exactly the cells `l` and arrives at the
pointer `b`; a whole list arrives at the null pointer. `Back prev a l`
says that each cell of `l` points back at the one before it, the first
at `a`.

An edit writes a few pointers. The append lemmas cut a list where the
edit is made, and `congr` carries the parts the edit leaves alone over
to the new pointers.
-/

namespace SexprWasm

namespace Links

variable {next next' prev prev' : Nat → Option Nat} {a b : Option Nat} {p q : Nat} {l l' : List Nat}

/-- From `a`, `next` runs through `l` and arrives at `b`. -/
def Seg (next : Nat → Option Nat) : Option Nat → List Nat → Option Nat → Prop
  | a, [], b => a = b
  | a, p :: l, b => a = some p ∧ Seg next (next p) l b

/-- The predecessors of `l` under `prev`, `a` before the first. -/
def Back (prev : Nat → Option Nat) : Option Nat → List Nat → Prop
  | _, [] => True
  | a, p :: l => prev p = a ∧ Back prev (some p) l

@[simp] theorem seg_nil : Seg next a [] b ↔ a = b := Iff.rfl

@[simp] theorem seg_cons : Seg next a (p :: l) b ↔ a = some p ∧ Seg next (next p) l b := Iff.rfl

@[simp] theorem back_nil : Back prev a [] := trivial

@[simp] theorem back_cons : Back prev a (p :: l) ↔ prev p = a ∧ Back prev (some p) l := Iff.rfl

theorem Seg.head?_eq (h : Seg next a l none) : l.head? = a := by
  cases l with
  | nil => exact h.symm
  | cons p l => exact h.1.symm

theorem Seg.congr (h : Seg next a l b) (heq : ∀ p ∈ l, next' p = next p) : Seg next' a l b := by
  induction l generalizing a with
  | nil => exact h
  | cons p l ih =>
    obtain ⟨ha, hl⟩ := h
    have hp : next' p = next p := heq p List.mem_cons_self
    have hrest : Seg next' (next p) l b := ih hl fun q hq => heq q (List.mem_cons_of_mem _ hq)
    exact ⟨ha, hp ▸ hrest⟩

theorem Back.congr (h : Back prev a l) (heq : ∀ p ∈ l, prev' p = prev p) : Back prev' a l := by
  induction l generalizing a with
  | nil => exact h
  | cons p l ih =>
    obtain ⟨ha, hl⟩ := h
    have hp : prev' p = a := (heq p List.mem_cons_self).trans ha
    exact ⟨hp, ih hl fun q hq => heq q (List.mem_cons_of_mem _ hq)⟩

theorem seg_append_cons :
    Seg next a (l ++ p :: l') b ↔ Seg next a l (some p) ∧ Seg next (next p) l' b := by
  induction l generalizing a with
  | nil => simp
  | cons q l ih => simp [ih, and_assoc]

theorem seg_append_singleton :
    Seg next a (l ++ [p]) b ↔ Seg next a l (some p) ∧ next p = b :=
  seg_append_cons

/-- A last cell is linked to one more. -/
theorem Seg.extend {q : Nat} (h : Seg next a (l ++ [p]) none) (hnodup : (l ++ [p]).Nodup)
    (hq : q ∉ l ++ [p]) (hend : next q = none) :
    Seg (Function.update next p (some q)) a (l ++ [p] ++ [q]) none := by
  rw [List.append_assoc, List.singleton_append, seg_append_cons]
  rw [seg_append_singleton] at h
  have hp : p ∉ l := by
    rw [List.nodup_append] at hnodup
    exact fun hp => hnodup.2.2 p hp p (List.mem_singleton_self p) rfl
  have hqp : q ≠ p := by
    rintro rfl
    exact hq (by simp)
  refine ⟨h.1.congr fun c hc => Function.update_of_ne (fun heq : c = p => hp (heq ▸ hc)) _ _, ?_⟩
  simp [hqp, hend]

/-- The cell a list arrives from, `a` if it is empty. -/
def lastOr (a : Option Nat) : List Nat → Option Nat
  | [] => a
  | p :: l => lastOr (some p) l

@[simp] theorem lastOr_append_singleton : lastOr a (l ++ [p]) = some p := by
  induction l generalizing a with
  | nil => rfl
  | cons q l ih => exact ih

theorem back_append :
    Back prev a (l ++ l') ↔ Back prev a l ∧ Back prev (lastOr a l) l' := by
  induction l generalizing a with
  | nil => simp [lastOr]
  | cons q l ih => simp [ih, lastOr, and_assoc]

/-- Two lists that leave from one pointer and both end are the same list. -/
theorem Seg.unique (h : Seg next a l none) (h' : Seg next a l' none) : l = l' := by
  induction l generalizing a l' with
  | nil =>
    cases l' with
    | nil => rfl
    | cons p l' =>
      have ha : a = none := h
      have ha' : a = some p := h'.1
      rw [ha] at ha'
      cases ha'
  | cons p l ih =>
    cases l' with
    | nil =>
      have ha : a = some p := h.1
      have ha' : a = none := h'
      rw [ha] at ha'
      cases ha'
    | cons p' l' =>
      obtain ⟨ha, hl⟩ := h
      obtain ⟨ha', hl'⟩ := h'
      obtain rfl : p = p' := by simpa [ha] using ha'
      rw [ih hl hl']

end Links

end SexprWasm
