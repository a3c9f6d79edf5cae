import Mathlib.Data.List.Basic
import Mathlib.Data.List.Infix
import Mathlib.Algebra.Order.Ring.Nat
import Mathlib.Tactic.Ring
import Mathlib.Tactic.Linarith

/-!
# Numerals, most significant digit first

`value b ds` is what the digits `ds` denote in base `b`. A digit may be
`b` or more. `NeverDrops M b ds` is about reading the digits modulo `M`:
no digit makes the number that has been read smaller.
-/

namespace SexprWasm

namespace Digits

/-- The number that digits denote. -/
def value (b : Nat) (ds : List Nat) : Nat := ds.foldl (fun v d => v * b + d) 0

variable {b M d : Nat} {ds ds' : List Nat}

@[simp] theorem value_nil : value b [] = 0 := rfl

@[simp] theorem value_concat : value b (ds ++ [d]) = value b ds * b + d := by
  simp [value, List.foldl_append]

theorem value_append : ∀ {ds' : List Nat},
    value b (ds ++ ds') = value b ds * b ^ ds'.length + value b ds' := by
  intro ds'
  induction ds' using List.reverseRecOn with
  | nil => simp
  | append_singleton ds' d ih =>
    rw [← List.append_assoc, value_concat, ih, value_concat, List.length_append,
      List.length_singleton, pow_succ]
    ring

theorem value_cons : value b (d :: ds) = d * b ^ ds.length + value b ds := by
  rw [← List.singleton_append, value_append]
  simp [value]

theorem value_lt (hds : ∀ d ∈ ds, d < b) : value b ds < b ^ ds.length := by
  induction ds using List.reverseRecOn with
  | nil => simp
  | append_singleton ds d ih =>
    have hd : d < b := hds d (by simp)
    have hinit : value b ds + 1 ≤ b ^ ds.length := ih fun d' hd' => hds d' (by simp [hd'])
    rw [value_concat, List.length_append, List.length_singleton, pow_succ]
    nlinarith

/-- A longer numeral denotes no less. -/
theorem value_le_of_prefix (hb : 0 < b) (h : ds <+: ds') : value b ds ≤ value b ds' := by
  obtain ⟨rest, rfl⟩ := h
  rw [value_append]
  have hpow : 0 < b ^ rest.length := Nat.pow_pos hb
  nlinarith

/-- No prefix of the digits is smaller, modulo `M`, than the prefix one digit shorter. -/
def NeverDrops (M b : Nat) (ds : List Nat) : Prop :=
  ∀ p d, p ++ [d] <+: ds → value b p % M ≤ value b (p ++ [d]) % M

theorem neverDrops_of_lt (hb : 0 < b) (h : value b ds < M) : NeverDrops M b ds := by
  intro p d hp
  have hle := value_le_of_prefix hb hp
  have hle' := value_le_of_prefix hb (List.prefix_append p [d])
  rw [Nat.mod_eq_of_lt (by omega), Nat.mod_eq_of_lt (by omega)]
  exact hle'

/-- Digits of at most `D` whose number is small modulo `M`, and never dropped, denote that
number: it has not gone past `M` on the way. -/
theorem value_lt_of_neverDrops {D : Nat} (hD : ∀ d ∈ ds, d ≤ D) (hnever : NeverDrops M b ds)
    (hsmall : value b ds % M * b + D < M) : value b ds < M := by
  induction ds using List.reverseRecOn with
  | nil =>
    rw [value_nil]
    omega
  | append_singleton ds d ih =>
    have hle := hnever ds d List.prefix_rfl
    have hmul := Nat.mul_le_mul_right b hle
    have hlt := ih (fun d' hd' => hD d' (by simp [hd']))
      (fun p e hp => hnever p e (hp.trans (List.prefix_append _ _))) (by omega)
    rw [Nat.mod_eq_of_lt hlt] at hmul
    have hd := hD d (by simp)
    rw [value_concat]
    omega

end Digits

end SexprWasm
