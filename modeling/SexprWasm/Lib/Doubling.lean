import Mathlib.Algebra.Order.Ring.Nat
import Mathlib.Order.Nat
import Mathlib.Data.Nat.Find
import Mathlib.Tactic.Ring

/-!
# Doubling up to a request

`double M d` is the loop `while (c < d) c *= 2` in arithmetic modulo
`M`. It stops if and only if some doubling of `c`, modulo `M`, is `d` or
more; below `M` that is the first doubling that reaches `d`.
-/

namespace SexprWasm

namespace Doubling

/-- The loop; `none` while it goes on after `fuel` turns. -/
def double (M d : Nat) : Nat → Nat → Option Nat
  | 0, _ => none
  | fuel + 1, c => if c < d then double M d fuel (c * 2 % M) else some c

/-- The numbers that the loop doubles. -/
def doubled (M d : Nat) : Nat → Nat → List Nat
  | 0, _ => []
  | fuel + 1, c => if c < d then c :: doubled M d fuel (c * 2 % M) else []

/-- The doubling after `k` turns is the first one of `d` or more. -/
structure First (f : Nat → Nat) (d k : Nat) : Prop where
  reached : d ≤ f k
  before : ∀ j < k, f j < d

theorem exists_first {f : Nat → Nat} {d : Nat} (h : ∃ k, d ≤ f k) : ∃ k, First f d k :=
  ⟨Nat.find h, Nat.find_spec h, fun _ hj => Nat.not_le.mp (Nat.find_min h hj)⟩

theorem First.eq {f : Nat → Nat} {d k k' : Nat} (h : First f d k) (h' : First f d k') : k = k' := by
  rcases Nat.lt_trichotomy k k' with hlt | heq | hlt
  · exact absurd (h'.before k hlt) (Nat.not_lt.mpr h.reached)
  · exact heq
  · exact absurd (h.before k' hlt) (Nat.not_lt.mpr h'.reached)

variable {M d c k fuel r : Nat}

/-- After `k` turns in arithmetic modulo `M`. -/
def wrapped (M c k : Nat) : Nat := c * 2 ^ k % M

theorem wrapped_zero (hc : c < M) : wrapped M c 0 = c := by
  rw [wrapped, pow_zero, mul_one, Nat.mod_eq_of_lt hc]

theorem wrapped_mod : wrapped M (c % M) = wrapped M c := funext fun k => Nat.mod_mul_mod ..

theorem wrapped_succ : wrapped M (c * 2 % M) k = wrapped M c (k + 1) := by
  rw [wrapped_mod, wrapped, wrapped, pow_succ]
  ring_nf

theorem wrapped_of_lt (h : c * 2 ^ k < M) : wrapped M c k = c * 2 ^ k := Nat.mod_eq_of_lt h

theorem first_succ_iff (hc : c < M) :
    First (wrapped M c) d (k + 1) ↔ c < d ∧ First (wrapped M (c * 2 % M)) d k := by
  constructor
  · intro h
    refine ⟨wrapped_zero hc ▸ h.before 0 (Nat.succ_pos k), ?_, fun j hj => ?_⟩
    · exact wrapped_succ ▸ h.reached
    · exact wrapped_succ ▸ h.before (j + 1) (Nat.succ_lt_succ hj)
  · rintro ⟨hlt, hreached, hbefore⟩
    refine ⟨wrapped_succ ▸ hreached, fun j hj => ?_⟩
    cases j with
    | zero => exact (wrapped_zero hc).symm ▸ hlt
    | succ j => exact wrapped_succ ▸ hbefore j (Nat.lt_of_succ_lt_succ hj)

theorem double_eq_some (hc : c < M) :
    double M d fuel c = some r ↔
      ∃ k < fuel, First (wrapped M c) d k ∧ r = wrapped M c k := by
  induction fuel generalizing c with
  | zero => simp [double]
  | succ fuel ih =>
    have hnext : c * 2 % M < M := Nat.mod_lt _ (Nat.zero_lt_of_lt hc)
    rw [double]
    split_ifs with hlt
    · rw [ih hnext]
      constructor
      · rintro ⟨k, hk, hfirst, rfl⟩
        exact ⟨k + 1, Nat.succ_lt_succ hk, (first_succ_iff hc).mpr ⟨hlt, hfirst⟩, wrapped_succ⟩
      · rintro ⟨k, hk, hfirst, rfl⟩
        cases k with
        | zero => exact absurd (wrapped_zero hc ▸ hfirst.reached) (Nat.not_le.mpr hlt)
        | succ k =>
          exact ⟨k, Nat.lt_of_succ_lt_succ hk, ((first_succ_iff hc).mp hfirst).2,
            wrapped_succ.symm⟩
    · constructor
      · intro h
        cases h
        refine ⟨0, Nat.succ_pos fuel, ⟨?_, fun j hj => absurd hj (Nat.not_lt_zero j)⟩, ?_⟩
        · exact (wrapped_zero hc).symm ▸ Nat.not_lt.mp hlt
        · exact (wrapped_zero hc).symm
      · rintro ⟨k, -, hfirst, rfl⟩
        cases k with
        | zero => rw [wrapped_zero hc]
        | succ k => exact absurd ((first_succ_iff hc).mp hfirst).1 hlt

theorem double_mod_eq_some (hM : 0 < M) :
    double M d fuel (c % M) = some r ↔
      ∃ k < fuel, First (wrapped M c) d k ∧ r = wrapped M c k := by
  rw [double_eq_some (Nat.mod_lt c hM), wrapped_mod]

theorem exists_double_iff (hM : 0 < M) :
    (∃ fuel r, double M d fuel (c % M) = some r) ↔ ∃ k, d ≤ wrapped M c k := by
  constructor
  · rintro ⟨fuel, r, h⟩
    obtain ⟨k, -, hfirst, -⟩ := (double_mod_eq_some hM).mp h
    exact ⟨k, hfirst.reached⟩
  · intro h
    obtain ⟨k, hfirst⟩ := exists_first h
    exact ⟨k + 1, _, (double_mod_eq_some hM).mpr ⟨k, Nat.lt_succ_self k, hfirst, rfl⟩⟩

theorem mem_doubled (hc : c < M) {x : Nat} :
    x ∈ doubled M d fuel c ↔
      ∃ j < fuel, x = wrapped M c j ∧ ∀ i ≤ j, wrapped M c i < d := by
  induction fuel generalizing c with
  | zero => simp [doubled]
  | succ fuel ih =>
    have hnext : c * 2 % M < M := Nat.mod_lt _ (Nat.zero_lt_of_lt hc)
    rw [doubled]
    split_ifs with hlt
    · rw [List.mem_cons, ih hnext]
      constructor
      · rintro (rfl | ⟨j, hj, rfl, hbefore⟩)
        · refine ⟨0, Nat.succ_pos fuel, (wrapped_zero hc).symm, fun i hi => ?_⟩
          rw [Nat.le_zero.mp hi, wrapped_zero hc]
          exact hlt
        · refine ⟨j + 1, Nat.succ_lt_succ hj, wrapped_succ, fun i hi => ?_⟩
          cases i with
          | zero => exact (wrapped_zero hc).symm ▸ hlt
          | succ i => exact wrapped_succ ▸ hbefore i (Nat.le_of_succ_le_succ hi)
      · rintro ⟨j, hj, rfl, hbefore⟩
        cases j with
        | zero => exact .inl (wrapped_zero hc)
        | succ j =>
          refine .inr ⟨j, Nat.lt_of_succ_lt_succ hj, wrapped_succ.symm, fun i hi => ?_⟩
          exact wrapped_succ ▸ hbefore (i + 1) (Nat.succ_le_succ hi)
    · simp only [List.not_mem_nil, false_iff, not_exists, not_and]
      intro j _ _ hbefore
      exact hlt (wrapped_zero hc ▸ hbefore 0 (Nat.zero_le j))

theorem pow_mul_le {j : Nat} (hj : j ≤ k) : c * 2 ^ j ≤ c * 2 ^ k :=
  Nat.mul_le_mul_left c (Nat.pow_le_pow_right (by decide) hj)

/-- As long as no doubling has passed `M`, the first one that reaches `d` is the first one modulo
`M`. -/
theorem first_wrapped_iff (hlt : c * 2 ^ k < M) :
    First (wrapped M c) d k ↔ First (c * 2 ^ ·) d k := by
  have heq : ∀ j ≤ k, wrapped M c j = c * 2 ^ j := fun j hj =>
    wrapped_of_lt ((pow_mul_le hj).trans_lt hlt)
  constructor
  · rintro ⟨hreached, hbefore⟩
    exact ⟨heq k le_rfl ▸ hreached, fun j hj => heq j hj.le ▸ hbefore j hj⟩
  · rintro ⟨hreached, hbefore⟩
    exact ⟨(heq k le_rfl).symm ▸ hreached, fun j hj => (heq j hj.le).symm ▸ hbefore j hj⟩

theorem lt_of_before (hc : c < M) (hbefore : ∀ j < k, wrapped M c j * 2 < M) : c * 2 ^ k < M := by
  induction k with
  | zero => simpa using hc
  | succ k ih =>
    have hlt := hbefore k (Nat.lt_succ_self k)
    rw [wrapped_of_lt (ih fun j hj => hbefore j (hj.trans (Nat.lt_succ_self k)))] at hlt
    rwa [pow_succ, ← Nat.mul_assoc]

/-- The numbers that the loop doubles on its way can be doubled if and only if the one that it
stops at has not passed `M`. -/
theorem doubled_exact_iff (hc : c < M) (h : First (wrapped M c) d k) :
    (∀ fuel, ∀ n ∈ doubled M d fuel c, n * 2 < M) ↔ c * 2 ^ k < M := by
  constructor
  · intro hexact
    refine lt_of_before hc fun j hj => hexact (j + 1) _ ?_
    refine (mem_doubled hc).mpr ⟨j, Nat.lt_succ_self j, rfl, fun i hi => ?_⟩
    exact h.before i (hi.trans_lt hj)
  · intro hlt fuel n hn
    obtain ⟨j, -, rfl, hbefore⟩ := (mem_doubled hc).mp hn
    have hj : j < k := by
      by_contra hle
      exact absurd h.reached (Nat.not_le.mpr (hbefore k (Nat.not_lt.mp hle)))
    calc wrapped M c j * 2 ≤ c * 2 ^ j * 2 := Nat.mul_le_mul_right 2 (Nat.mod_le _ _)
      _ = c * 2 ^ (j + 1) := by rw [pow_succ, Nat.mul_assoc]
      _ ≤ c * 2 ^ k := pow_mul_le hj
      _ < M := hlt

end Doubling

end SexprWasm
