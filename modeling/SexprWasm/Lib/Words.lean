import Mathlib.Data.Nat.Bitwise
import Mathlib.Tactic.Ring

/-!
# Integers modulo a power of two

The functions on numbers of `N` bits that a machine's integer
instructions compute, by their arithmetic: a word is a natural below
`2 ^ N`, and `signed` is the number it stands for in two's complement.
Next to each function stands what it is on bit vectors.
-/

namespace SexprWasm

namespace Words

variable {N : ℕ} {i j k : ℕ} {x y : BitVec N}

/-- The number a word stands for in two's complement. -/
def signed (N i : ℕ) : ℤ := if 2 * i < 2 ^ N then i else i - 2 ^ N

/-- The word of an integer. -/
def wrap (N : ℕ) (x : ℤ) : ℕ := (x % 2 ^ N).toNat

theorem toInt_eq : x.toInt = signed N x.toNat := by
  rw [BitVec.toInt_eq_toNat_cond, signed]
  push_cast
  rfl

theorem toNat_ofInt (x : ℤ) : (BitVec.ofInt N x).toNat = wrap N x := by
  rw [BitVec.toNat_ofInt, wrap]
  push_cast
  rfl

theorem wrap_lt (x : ℤ) : wrap N x < 2 ^ N := by
  have hpos : (0 : ℤ) < 2 ^ N := Int.pow_pos (by decide)
  have hlt := Int.emod_lt_of_pos x hpos
  have hcast : ((2 ^ N : ℕ) : ℤ) = 2 ^ N := by push_cast; rfl
  rw [wrap, Int.toNat_lt' (Nat.two_pow_pos N), hcast]
  exact hlt

/-! ## Arithmetic -/

def add (N i j : ℕ) : ℕ := (i + j) % 2 ^ N

def sub (N i j : ℕ) : ℕ := wrap N (i - j)

def mul (N i j : ℕ) : ℕ := i * j % 2 ^ N

theorem toNat_add : (x + y).toNat = add N x.toNat y.toNat := BitVec.toNat_add x y

theorem toNat_sub : (x - y).toNat = sub N x.toNat y.toNat := by
  rw [sub, ← toNat_ofInt]
  congr 1
  apply BitVec.eq_of_toInt_eq
  rw [BitVec.toInt_sub, BitVec.toInt_ofInt, BitVec.toInt_eq_toNat_bmod x,
    BitVec.toInt_eq_toNat_bmod y, Int.bmod_sub_bmod, Int.sub_bmod_bmod]

theorem toNat_mul : (x * y).toNat = mul N x.toNat y.toNat := BitVec.toNat_mul x y

/-- The quotient of the numbers the words stand for, without its fraction. -/
def divS (N i j : ℕ) : ℕ := wrap N ((signed N i).tdiv (signed N j))

/-- The remainder has the sign of the dividend. -/
def remS (N i j : ℕ) : ℕ := wrap N ((signed N i).tmod (signed N j))

theorem toNat_sdiv : (x.sdiv y).toNat = divS N x.toNat y.toNat := by
  rw [divS, ← toInt_eq, ← toInt_eq, ← toNat_ofInt]
  congr 1
  apply BitVec.eq_of_toInt_eq
  rw [BitVec.toInt_sdiv, BitVec.toInt_ofInt]

theorem toNat_srem : (x.srem y).toNat = remS N x.toNat y.toNat := by
  rw [remS, ← toInt_eq, ← toInt_eq, ← toNat_ofInt, ← BitVec.toInt_srem, BitVec.ofInt_toInt]

/-- The one quotient that is too large for a word. -/
theorem tdiv_eq_iff (hN : 0 < N) :
    (signed N x.toNat).tdiv (signed N y.toNat) = 2 ^ (N - 1) ↔
      x = BitVec.intMin N ∧ y = BitVec.allOnes N := by
  rw [← toInt_eq, ← toInt_eq]
  constructor
  · intro h
    by_contra hne
    have hfits : x ≠ BitVec.intMin N ∨ y ≠ -1#N := by
      rw [not_and_or] at hne
      rwa [BitVec.neg_one_eq_allOnes]
    have hlt := BitVec.two_mul_toInt_lt (x := x.sdiv y)
    rw [BitVec.toInt_sdiv_of_ne_or_ne _ _ hfits, h, ← pow_succ', Nat.sub_add_cancel hN] at hlt
    exact lt_irrefl _ hlt
  · rintro ⟨rfl, rfl⟩
    rw [BitVec.toInt_intMin_of_pos hN, BitVec.toInt_allOnes, if_pos hN]
    simp

/-- The remainder there is 0. -/
theorem remS_intMin (hN : 0 < N) : remS N (BitVec.intMin N).toNat (BitVec.allOnes N).toNat = 0 := by
  rw [remS, ← toInt_eq, ← toInt_eq, BitVec.toInt_allOnes, if_pos hN]
  simp [wrap]

/-! ## Shifts and rotations -/

def shl (N i k : ℕ) : ℕ := i * 2 ^ k % 2 ^ N

def shrU (i k : ℕ) : ℕ := i / 2 ^ k

def shrS (N i k : ℕ) : ℕ := wrap N (signed N i / 2 ^ k)

/-- The bits that leave on the left come back on the right. -/
def rotl (N i k : ℕ) : ℕ := i * 2 ^ k % 2 ^ N + i * 2 ^ k / 2 ^ N

/-- The bits that leave on the right come back on the left. -/
def rotr (N i k : ℕ) : ℕ := i / 2 ^ k + i % 2 ^ k * 2 ^ (N - k)

theorem toNat_shiftLeft : (x <<< k).toNat = shl N x.toNat k := by
  rw [BitVec.toNat_shiftLeft, Nat.shiftLeft_eq, shl]

theorem toNat_ushiftRight : (x >>> k).toNat = shrU x.toNat k := by
  rw [BitVec.toNat_ushiftRight, Nat.shiftRight_eq_div_pow, shrU]

theorem toNat_sshiftRight : (x.sshiftRight k).toNat = shrS N x.toNat k := by
  have hdiv : x.toInt / 2 ^ k = (x.sshiftRight k).toInt := by
    rw [BitVec.toInt_sshiftRight, Int.shiftRight_eq_div_pow]
    push_cast
    rfl
  rw [shrS, ← toInt_eq, ← toNat_ofInt, hdiv, BitVec.ofInt_toInt]

theorem toNat_rotl (hk : k ≤ N) :
    (x <<< k ||| x >>> (N - k)).toNat = rotl N x.toNat k := by
  have hsplit : 2 ^ N = 2 ^ k * 2 ^ (N - k) := by rw [← pow_add, Nat.add_sub_cancel' hk]
  have hlow : x.toNat / 2 ^ (N - k) < 2 ^ k := by
    rw [Nat.div_lt_iff_lt_mul (Nat.two_pow_pos _), ← hsplit]
    exact x.isLt
  have hhigh : x.toNat * 2 ^ k % 2 ^ N = 2 ^ k * (x.toNat % 2 ^ (N - k)) := by
    rw [hsplit, Nat.mul_comm, Nat.mul_mod_mul_left]
  have hout : x.toNat * 2 ^ k / 2 ^ N = x.toNat / 2 ^ (N - k) := by
    rw [hsplit, Nat.mul_comm, Nat.mul_div_mul_left _ _ (Nat.two_pow_pos _)]
  rw [BitVec.toNat_or, toNat_shiftLeft, toNat_ushiftRight, shl, shrU, rotl, hhigh, hout,
    Nat.two_pow_add_eq_or_of_lt hlow]

theorem toNat_rotr (hk : k ≤ N) :
    (x >>> k ||| x <<< (N - k)).toNat = rotr N x.toNat k := by
  have hsplit : 2 ^ N = 2 ^ (N - k) * 2 ^ k := by rw [← pow_add, Nat.sub_add_cancel hk]
  have hlow : x.toNat / 2 ^ k < 2 ^ (N - k) := by
    rw [Nat.div_lt_iff_lt_mul (Nat.two_pow_pos _), ← hsplit]
    exact x.isLt
  have hhigh : x.toNat * 2 ^ (N - k) % 2 ^ N = 2 ^ (N - k) * (x.toNat % 2 ^ k) := by
    rw [hsplit, Nat.mul_comm, Nat.mul_mod_mul_left]
  rw [BitVec.toNat_or, toNat_shiftLeft, toNat_ushiftRight, shl, shrU, rotr, hhigh, Nat.or_comm,
    ← Nat.two_pow_add_eq_or_of_lt hlow, Nat.add_comm, Nat.mul_comm]

/-! ## Counting bits -/

/-- The number of zeros before the highest one. -/
def clz (N i : ℕ) : ℕ := ((List.range N).find? fun k => i.testBit (N - 1 - k)).getD N

/-- The number of zeros after the lowest one. -/
def ctz (N i : ℕ) : ℕ := ((List.range N).find? fun k => i.testBit k).getD N

def popcnt (N i : ℕ) : ℕ := (List.range N).countP fun k => i.testBit k

theorem clz_zero (N : ℕ) : clz N 0 = N := by
  have hfind : (List.range N).find? (fun k => (0 : ℕ).testBit (N - 1 - k)) = none :=
    List.find?_eq_none.mpr (by simp)
  rw [clz, hfind, Option.getD_none]

theorem ctz_zero (N : ℕ) : ctz N 0 = N := by
  have hfind : (List.range N).find? (fun k => (0 : ℕ).testBit k) = none :=
    List.find?_eq_none.mpr (by simp)
  rw [ctz, hfind, Option.getD_none]

theorem toNat_clz (hx : x ≠ 0) : x.clz.toNat = clz N x.toNat := by
  have hlt : x.clz.toNat < N := by
    have h := BitVec.clz_lt_iff_ne_zero.mpr hx
    simpa [BitVec.lt_def, Nat.mod_eq_of_lt Nat.lt_two_pow_self] using h
  have hfind : (List.range N).find? (fun k => x.toNat.testBit (N - 1 - k)) = some x.clz.toNat := by
    rw [List.find?_range_eq_some]
    refine ⟨BitVec.getLsbD_true_clz_of_ne_zero (by omega) hx, List.mem_range.mpr hlt, fun j hj => ?_⟩
    have hpow : x.toNat < 2 ^ (N - 1 - j) :=
      lt_of_lt_of_le BitVec.toNat_lt_two_pow_sub_clz (Nat.pow_le_pow_right two_pos (by omega))
    rw [Nat.testBit_lt_two_pow hpow, Bool.not_false]
  rw [clz, hfind, Option.getD_some]

theorem toNat_ctz (hx : x ≠ 0) : x.ctz.toNat = ctz N x.toNat := by
  have hlt : x.ctz.toNat < N := by
    have h := BitVec.ctz_lt_iff_ne_zero.mpr hx
    simpa [BitVec.lt_def, Nat.mod_eq_of_lt Nat.lt_two_pow_self] using h
  have hfind : (List.range N).find? (fun k => x.toNat.testBit k) = some x.ctz.toNat := by
    rw [List.find?_range_eq_some]
    refine ⟨BitVec.getLsbD_true_ctz_of_ne_zero hx, List.mem_range.mpr hlt, fun j hj => ?_⟩
    have hbit : x.toNat.testBit j = false := BitVec.getLsbD_false_of_lt_ctz hj
    rw [hbit, Bool.not_false]
  rw [ctz, hfind, Option.getD_some]

theorem cpopNatRec_eq (n : ℕ) : x.cpopNatRec n 0 = popcnt n x.toNat := by
  induction n with
  | zero => rfl
  | succ n ih =>
    have hbit : x.getLsbD n = x.toNat.testBit n := rfl
    rw [BitVec.cpopNatRec_succ, BitVec.cpopNatRec_eq, ih, popcnt, popcnt, List.range_succ,
      List.countP_append, List.countP_singleton, hbit]
    cases x.toNat.testBit n <;> simp

theorem toNat_cpop : x.cpop.toNat = popcnt N x.toNat := by
  rw [BitVec.toNat_cpop, cpopNatRec_eq]

end Words

end SexprWasm
