import SexprWasm.Common

/-!
# LEB128 integers, reading

`wasm_read_u32_leb128`, `wasm_read_i32_leb128` and the body of
`in_i64_leb128`. A function takes the bytes from the current position to
the end of the range (`p` up to `end`) and returns the value with the
number of bytes read; `none` is the return value 0. Signed values are
returned as the bits the C functions store (`uint32_t`, `uint64_t`).
-/

namespace SexprWasm

/-- `p + i < end && (p[i] & 0x80) == 0`: the encoding may end at byte `i`. -/
def lebEndsAt (p : List UInt8) (i : Nat) : Bool :=
  match p[i]? with
  | some b => b.toNat < 0x80
  | none => false

/-- `BYTE_AT(type, i, shift)` without the shift. -/
def lebPayload (p : List UInt8) (i : Nat) : Nat :=
  match p[i]? with
  | some b => b.toNat % 0x80
  | none => 0

/-- `LEB128_n`: the payloads of the first `n` bytes, least significant first. -/
def lebValue (p : List UInt8) : Nat → Nat
  | 0 => 0
  | n + 1 => lebValue p n + lebPayload p n * 2 ^ (7 * n)

/-- `SIGN_EXTEND(type, value, bits - 1)` for a `width`-bit type. -/
def signExtend (width bits value : Nat) : Nat :=
  if value < 2 ^ (bits - 1) then value else value + (2 ^ width - 2 ^ bits)

/-- The two's complement reading of a `width`-bit value. -/
def toSigned (width value : Nat) : Int :=
  if value < 2 ^ (width - 1) then value else value - 2 ^ width

def wasmReadU32Leb128 (p : List UInt8) : Option (Nat × Nat) :=
  if lebEndsAt p 0 then some (lebValue p 1, 1)
  else if lebEndsAt p 1 then some (lebValue p 2, 2)
  else if lebEndsAt p 2 then some (lebValue p 3, 3)
  else if lebEndsAt p 3 then some (lebValue p 4, 4)
  else if lebEndsAt p 4 then
    -- the top bits set represent values > 32 bits
    if lebPayload p 4 / 0x10 ≠ 0 then none else some (lebValue p 5, 5)
  else none

def wasmReadI32Leb128 (p : List UInt8) : Option (Nat × Nat) :=
  if lebEndsAt p 0 then some (signExtend 32 7 (lebValue p 1), 1)
  else if lebEndsAt p 1 then some (signExtend 32 14 (lebValue p 2), 2)
  else if lebEndsAt p 2 then some (signExtend 32 21 (lebValue p 3), 3)
  else if lebEndsAt p 3 then some (signExtend 32 28 (lebValue p 4), 4)
  else if lebEndsAt p 4 then
    -- the top bits should be a sign-extension of the sign bit (bit 3)
    if lebPayload p 4 / 0x10 ≠ (if lebPayload p 4 / 0x8 % 2 = 1 then 0x7 else 0) then none
    else some (lebValue p 5 % maxU32, 5)
  else none

def wasmReadI64Leb128 (p : List UInt8) : Option (Nat × Nat) :=
  if lebEndsAt p 0 then some (signExtend 64 7 (lebValue p 1), 1)
  else if lebEndsAt p 1 then some (signExtend 64 14 (lebValue p 2), 2)
  else if lebEndsAt p 2 then some (signExtend 64 21 (lebValue p 3), 3)
  else if lebEndsAt p 3 then some (signExtend 64 28 (lebValue p 4), 4)
  else if lebEndsAt p 4 then some (signExtend 64 35 (lebValue p 5), 5)
  else if lebEndsAt p 5 then some (signExtend 64 42 (lebValue p 6), 6)
  else if lebEndsAt p 6 then some (signExtend 64 49 (lebValue p 7), 7)
  else if lebEndsAt p 7 then some (signExtend 64 56 (lebValue p 8), 8)
  else if lebEndsAt p 8 then some (signExtend 64 63 (lebValue p 9), 9)
  else if lebEndsAt p 9 then
    -- the top bits should be a sign-extension of the sign bit (bit 0)
    if lebPayload p 9 / 2 ≠ (if lebPayload p 9 % 2 = 1 then 0x3f else 0) then none
    else some (lebValue p 10 % maxU64, 10)
  else none

/-! ## Ranges -/

theorem lebPayload_lt (p : List UInt8) (i : Nat) : lebPayload p i < 0x80 := by
  unfold lebPayload
  split <;> omega

theorem lebValue_lt (p : List UInt8) : ∀ n, lebValue p n < 2 ^ (7 * n)
  | 0 => by simp [lebValue]
  | n + 1 => by
      have ih := lebValue_lt p n
      have hp := lebPayload_lt p n
      have hpow : 2 ^ (7 * (n + 1)) = 0x80 * 2 ^ (7 * n) := by
        rw [Nat.mul_add, Nat.pow_add, Nat.mul_comm]
      calc lebValue p (n + 1) = lebValue p n + lebPayload p n * 2 ^ (7 * n) := rfl
        _ < (lebPayload p n + 1) * 2 ^ (7 * n) := by rw [Nat.add_mul, Nat.one_mul]; omega
        _ ≤ 0x80 * 2 ^ (7 * n) := Nat.mul_le_mul_right _ hp
        _ = 2 ^ (7 * (n + 1)) := hpow.symm

theorem wasmReadU32Leb128_lt {p : List UInt8} {value bytesRead : Nat}
    (h : wasmReadU32Leb128 p = some (value, bytesRead)) : value < maxU32 := by
  have hb : ∀ n, n ≤ 4 → lebValue p n < maxU32 := fun n hn =>
    Nat.lt_of_lt_of_le (lebValue_lt p n) (Nat.pow_le_pow_right (by decide) (by omega))
  unfold wasmReadU32Leb128 at h
  split_ifs at h with h0 h1 h2 h3 h4 htop
  · cases h; exact hb 1 (by decide)
  · cases h; exact hb 2 (by decide)
  · cases h; exact hb 3 (by decide)
  · cases h; exact hb 4 (by decide)
  · cases h
    have hlow := lebValue_lt p 4
    have htop' : lebPayload p 4 < 0x10 := by omega
    simp only [lebValue, maxU32] at hlow ⊢
    omega

theorem lt_of_lebEndsAt {p : List UInt8} {i : Nat} (h : lebEndsAt p i = true) : i < p.length := by
  unfold lebEndsAt at h
  split at h
  · rename_i b hb
    exact (List.getElem?_eq_some_iff.mp hb).1
  · cases h

/-- A reader that says how many of the bytes it was given it has read, at least one. -/
def LebReader (read : List UInt8 → Option (Nat × Nat)) : Prop :=
  ∀ p value bytesRead, read p = some (value, bytesRead) → 0 < bytesRead ∧ bytesRead ≤ p.length

theorem lebReader_branch {p : List UInt8} {i v value bytesRead : Nat} {rest : Option (Nat × Nat)}
    (h : (if lebEndsAt p i then some (v, i + 1) else rest) = some (value, bytesRead))
    (hrest : rest = some (value, bytesRead) → 0 < bytesRead ∧ bytesRead ≤ p.length) :
    0 < bytesRead ∧ bytesRead ≤ p.length := by
  by_cases hend : lebEndsAt p i = true
  · rw [if_pos hend] at h
    cases h
    exact ⟨Nat.succ_pos i, lt_of_lebEndsAt hend⟩
  · rw [if_neg hend] at h
    exact hrest h

/-- The last byte an encoding may have, with the check on its top bits. -/
theorem lebReader_last {p : List UInt8} {i v value bytesRead : Nat} {c : Prop} [Decidable c]
    (h : (if lebEndsAt p i then if c then none else some (v, i + 1) else none) =
      some (value, bytesRead)) :
    0 < bytesRead ∧ bytesRead ≤ p.length := by
  by_cases hend : lebEndsAt p i = true
  · rw [if_pos hend] at h
    split at h
    · cases h
    · cases h
      exact ⟨Nat.succ_pos i, lt_of_lebEndsAt hend⟩
  · rw [if_neg hend] at h
    cases h

theorem lebReader_u32 : LebReader wasmReadU32Leb128 := by
  intro p value bytesRead h
  unfold wasmReadU32Leb128 at h
  iterate 4 refine lebReader_branch h fun h => ?_
  exact lebReader_last h

theorem lebReader_i32 : LebReader wasmReadI32Leb128 := by
  intro p value bytesRead h
  unfold wasmReadI32Leb128 at h
  iterate 4 refine lebReader_branch h fun h => ?_
  exact lebReader_last h

theorem lebReader_i64 : LebReader wasmReadI64Leb128 := by
  intro p value bytesRead h
  unfold wasmReadI64Leb128 at h
  iterate 9 refine lebReader_branch h fun h => ?_
  exact lebReader_last h

end SexprWasm
