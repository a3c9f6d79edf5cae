import Mathlib.Data.Nat.Bitwise
import Mathlib.Data.List.Basic

/-!
# Ranges of addresses

A range is an address and a length. Two ranges are *apart* if no address
is in both. `read` is what a memory holds in a range; a write that is
apart from the range, or a copy to a range apart from it, does not change
it.
-/

namespace SexprWasm

namespace Ranges

variable {α : Type} {mem mem' : Nat → α} {a b m n m' n' : Nat}

/-- No address is both in the `m` addresses from `a` on and in the `n` from `b` on. -/
def Apart (a m b n : Nat) : Prop := ∀ x, ¬(a ≤ x ∧ x < a + m ∧ b ≤ x ∧ x < b + n)

theorem Apart.symm (h : Apart a m b n) : Apart b n a m := fun x hx =>
  h x ⟨hx.2.2.1, hx.2.2.2, hx.1, hx.2.1⟩

theorem apart_of_le (h : a + m ≤ b) : Apart a m b n := by
  intro x hx
  omega

theorem apart_of_ge (h : b + n ≤ a) : Apart a m b n := (apart_of_le h).symm

/-- Ranges inside two ranges that are apart. -/
theorem Apart.mono {a' b' : Nat} (h : Apart a m b n) (ha : a ≤ a' ∧ a' + m' ≤ a + m)
    (hb : b ≤ b' ∧ b' + n' ≤ b + n) : Apart a' m' b' n' := by
  intro x hx
  apply h x
  omega

theorem Apart.ne (h : Apart a m b n) (hm : 0 < m) (hn : 0 < n) : a ≠ b := by
  rintro rfl
  exact h a ⟨le_rfl, by omega, le_rfl, by omega⟩

/-- The `n` values from `a` on. -/
def read (mem : Nat → α) (a n : Nat) : List α := (List.range n).map fun k => mem (a + k)

@[simp] theorem length_read : (read mem a n).length = n := by simp [read]

theorem getElem?_read {k : Nat} (hk : k < n) : (read mem a n)[k]? = some (mem (a + k)) := by
  simp [read, hk]

theorem read_congr (h : ∀ x, a ≤ x → x < a + n → mem' x = mem x) : read mem' a n = read mem a n := by
  apply List.map_congr_left
  intro k hk
  rw [List.mem_range] at hk
  exact h (a + k) (by omega) (by omega)

theorem read_add : read mem a (m + n) = read mem a m ++ read mem (a + m) n := by
  simp [read, List.range_add, Function.comp_def, Nat.add_assoc]

theorem take_read : (read mem a n).take m = read mem a (min m n) := by
  rw [read, ← List.map_take, List.take_range, read]

/-- `n` values are copied from `b` to `a`, as they were before the copy. -/
def copy (mem : Nat → α) (a b n : Nat) : Nat → α :=
  fun x => if a ≤ x ∧ x < a + n then mem (b + (x - a)) else mem x

theorem read_copy_of_apart (h : Apart a m b n) (src : Nat) :
    read (copy mem b src n) a m = read mem a m := by
  apply read_congr
  intro x hax hxm
  have hx : ¬(b ≤ x ∧ x < b + n) := fun hb => h x ⟨hax, hxm, hb⟩
  simp [copy, hx]

theorem read_copy (hm : m ≤ n) : read (copy mem a b n) a m = read mem b m := by
  apply List.map_congr_left
  intro k hk
  rw [List.mem_range] at hk
  simp [copy]
  omega

theorem read_update_of_apart (h : Apart a m b 1) (v : α) :
    read (Function.update mem b v) a m = read mem a m := by
  apply read_congr
  intro x hax hxm
  have hx : x ≠ b := fun hb => h x ⟨hax, hxm, by omega, by omega⟩
  simp [hx]

theorem read_update_self {k : Nat} (v : α) :
    read (Function.update mem (a + k) v) a n = (read mem a n).set k v := by
  apply List.ext_getElem (by simp)
  intro j hj hj'
  simp only [read, List.getElem_map, List.getElem_range, List.getElem_set, Function.update_apply]
  simp [eq_comm]

/-! ## Rounding down to a power of two -/

/-- Clearing the bits of `2 ^ k - 1` rounds down to a multiple of `2 ^ k`. -/
theorem ldiff_two_pow_sub_one (x k : Nat) : Nat.ldiff x (2 ^ k - 1) = x / 2 ^ k * 2 ^ k := by
  apply Nat.eq_of_testBit_eq
  intro i
  rw [Nat.testBit_ldiff, Nat.testBit_two_pow_sub_one, Nat.mul_comm, Nat.testBit_two_pow_mul]
  by_cases hi : i < k
  · simp [hi]
  · have hge : k ≤ i := by omega
    simp [hi, hge, Nat.testBit_div_two_pow]

end Ranges

end SexprWasm
