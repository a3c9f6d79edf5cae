import SexprWasm.BinaryWriter.Leb128
import Mathlib.Data.Nat.Digits.Defs

/-!
# LEB128 integers, both ways

An encoding is a list of bytes of which all but the last have their high
bit set; its value is the number with the bytes' low seven bits as
digits, read in two's complement for a signed type. The readers accept
the encodings that are short enough and whose last byte has nothing in
the bits the type has no use for (`wasmReadU32Leb128_iff` and its two
siblings), and read back what the writers write.
-/

namespace SexprWasm

/-! ## Encodings and their values -/

/-- The bytes are one encoding: the last ends it and no other does. -/
inductive LebEncoding : List UInt8 → Prop
  | last {b : UInt8} (h : b.toNat < 0x80) : LebEncoding [b]
  | more {b : UInt8} {bytes : List UInt8} (h : 0x80 ≤ b.toNat) (rest : LebEncoding bytes) :
      LebEncoding (b :: bytes)

/-- The number the bytes are an unsigned encoding of. -/
def lebUnsigned (bytes : List UInt8) : Nat := Nat.ofDigits 0x80 (bytes.map (·.toNat % 0x80))

/-- The number the bytes are a signed encoding of. -/
def lebSigned (bytes : List UInt8) : Int := toSigned (7 * bytes.length) (lebUnsigned bytes)

def lastByte (bytes : List UInt8) : Nat := (bytes.getLastD 0).toNat

/-- An encoding for an unsigned type: in the longest ones the last byte has `used` bits, and the
bits above are zero. -/
structure UnsignedEncoding (room used : Nat) (bytes : List UInt8) : Prop where
  encoding : LebEncoding bytes
  length_le : bytes.length ≤ room
  unused : bytes.length = room → lastByte bytes / 2 ^ used = 0

/-- An encoding for a signed type: the bits above the last byte's `used` are copies of its
sign bit. -/
structure SignedEncoding (room used : Nat) (bytes : List UInt8) : Prop where
  encoding : LebEncoding bytes
  length_le : bytes.length ≤ room
  unused : bytes.length = room → lastByte bytes / 2 ^ used =
    if lastByte bytes / 2 ^ (used - 1) % 2 = 1 then 2 ^ (7 - used) - 1 else 0

theorem LebEncoding.ne_nil {bytes : List UInt8} (h : LebEncoding bytes) : bytes ≠ [] := by
  cases h <;> exact List.cons_ne_nil _ _

@[simp] theorem lebUnsigned_cons (b : UInt8) (bytes : List UInt8) :
    lebUnsigned (b :: bytes) = b.toNat % 0x80 + 0x80 * lebUnsigned bytes := rfl

theorem lebUnsigned_lt : ∀ bytes : List UInt8, lebUnsigned bytes < 2 ^ (7 * bytes.length)
  | [] => by decide
  | b :: bytes => by
      have ih := lebUnsigned_lt bytes
      rw [lebUnsigned_cons, List.length_cons, Nat.mul_succ, Nat.add_comm, Nat.pow_add]
      have hb : b.toNat % 0x80 < 0x80 := Nat.mod_lt _ (by decide)
      omega

theorem lebUnsigned_append (bytes bytes' : List UInt8) :
    lebUnsigned (bytes ++ bytes') =
      lebUnsigned bytes + lebUnsigned bytes' * 2 ^ (7 * bytes.length) := by
  rw [lebUnsigned, List.map_append, Nat.ofDigits_append, List.length_map, Nat.pow_mul, Nat.mul_comm]
  rfl

/-- The first digit of a signed encoding that goes on does not touch its sign. -/
theorem lebSigned_cons (b : UInt8) {bytes : List UInt8} (hne : bytes ≠ []) :
    lebSigned (b :: bytes) = (b.toNat % 0x80 : Nat) + 0x80 * lebSigned bytes := by
  obtain ⟨n, hn⟩ : ∃ n, bytes.length = n + 1 := ⟨bytes.length - 1, by
    have := List.length_pos_of_ne_nil hne
    omega⟩
  have hlow : 2 ^ (7 * (n + 1) + 6) = 0x80 * 2 ^ (7 * (n + 1) - 1) := by
    rw [show 7 * (n + 1) + 6 = 7 + (7 * (n + 1) - 1) by omega, Nat.pow_add]
  have hhigh : 2 ^ (7 * (n + 1) + 7) = 0x80 * 2 ^ (7 * (n + 1)) := by
    rw [Nat.add_comm, Nat.pow_add]
  have hb : b.toNat % 0x80 < 0x80 := Nat.mod_lt _ (by decide)
  rw [lebSigned, lebSigned, List.length_cons, hn, toSigned, toSigned, lebUnsigned_cons]
  rw [show 7 * (n + 1 + 1) - 1 = 7 * (n + 1) + 6 by omega, hlow,
    show 7 * (n + 1 + 1) = 7 * (n + 1) + 7 by omega]
  have hhigh' : (2 : Int) ^ (7 * (n + 1) + 7) = 0x80 * 2 ^ (7 * (n + 1)) := by exact_mod_cast hhigh
  rw [hhigh']
  split <;> split <;> push_cast <;> omega

/-! ## What the readers look for -/

theorem lebEndsAt_cons_zero (b : UInt8) (p : List UInt8) :
    lebEndsAt (b :: p) 0 = decide (b.toNat < 0x80) := rfl

theorem lebEndsAt_cons_succ (b : UInt8) (p : List UInt8) (i : Nat) :
    lebEndsAt (b :: p) (i + 1) = lebEndsAt p i := rfl

theorem LebEncoding.lebEndsAt {bytes : List UInt8} (h : LebEncoding bytes) (rest : List UInt8) :
    SexprWasm.lebEndsAt (bytes ++ rest) (bytes.length - 1) = true ∧
      ∀ i < bytes.length - 1, SexprWasm.lebEndsAt (bytes ++ rest) i = false := by
  induction h with
  | last hb => exact ⟨decide_eq_true hb, fun i hi => absurd hi (Nat.not_lt_zero i)⟩
  | @more b bytes hb hrest ih =>
    obtain ⟨n, hn⟩ : ∃ n, bytes.length = n + 1 := ⟨bytes.length - 1, by
      have := List.length_pos_of_ne_nil hrest.ne_nil
      omega⟩
    rw [hn] at ih
    rw [List.length_cons, hn, List.cons_append]
    refine ⟨ih.1, fun i hi => ?_⟩
    cases i with
    | zero => exact decide_eq_false (Nat.not_lt.mpr hb)
    | succ i => exact ih.2 i (by omega)

/-- Where the readers stop, the bytes read are an encoding. -/
theorem encoding_of_lebEndsAt : ∀ {p : List UInt8} {i : Nat}, lebEndsAt p i = true →
    (∀ j < i, lebEndsAt p j = false) → LebEncoding (p.take (i + 1))
  | [], i, hend, _ => by cases hend
  | b :: p, 0, hend, _ => .last (of_decide_eq_true hend)
  | b :: p, i + 1, hend, hmore => by
      have hb : 0x80 ≤ b.toNat := Nat.not_lt.mp (of_decide_eq_false (hmore 0 (Nat.succ_pos i)))
      exact .more hb (encoding_of_lebEndsAt hend fun j hj => hmore (j + 1) (Nat.succ_lt_succ hj))

/-- The position of the first byte below `room` that ends an encoding. -/
def firstEnd (p : List UInt8) (room : Nat) : Option Nat := (List.range room).find? (lebEndsAt p)

theorem firstEnd_eq_some {p : List UInt8} {room i : Nat} :
    firstEnd p room = some i ↔
      ∃ bytes rest, p = bytes ++ rest ∧ LebEncoding bytes ∧ bytes.length = i + 1 ∧ i < room := by
  rw [firstEnd, List.find?_range_eq_some]
  constructor
  · rintro ⟨hend, hi, hmore⟩
    have hlt := lt_of_lebEndsAt hend
    refine ⟨p.take (i + 1), p.drop (i + 1), (List.take_append_drop _ _).symm, ?_, ?_,
      List.mem_range.mp hi⟩
    · exact encoding_of_lebEndsAt hend fun j hj => by simpa using hmore j hj
    · rw [List.length_take]
      omega
  · rintro ⟨bytes, rest, rfl, hbytes, hlen, hi⟩
    have hends := hbytes.lebEndsAt rest
    rw [hlen, Nat.add_sub_cancel] at hends
    exact ⟨hends.1, List.mem_range.mpr hi, fun j hj => by simp [hends.2 j hj]⟩

theorem lebValue_append (bytes rest : List UInt8) : ∀ n ≤ bytes.length,
    lebValue (bytes ++ rest) n = lebUnsigned (bytes.take n)
  | 0, _ => rfl
  | n + 1, hn => by
      have ih := lebValue_append bytes rest n (by omega)
      have hpayload : lebPayload (bytes ++ rest) n = lebUnsigned [bytes[n]] := by
        rw [lebPayload, List.getElem?_append_left hn, List.getElem?_eq_getElem hn]
        simp [lebUnsigned]
      rw [lebValue, ih, List.take_add_one, List.getElem?_eq_getElem hn, lebUnsigned_append,
        hpayload, Option.toList_some, List.length_take, Nat.min_eq_left (by omega)]

theorem lebPayload_append {bytes : List UInt8} (h : LebEncoding bytes) (rest : List UInt8) :
    lebPayload (bytes ++ rest) (bytes.length - 1) = lastByte bytes := by
  induction h with
  | last hb => exact Nat.mod_eq_of_lt hb
  | @more b bytes hb hrest ih =>
    obtain ⟨c, bytes, rfl⟩ := List.exists_cons_of_ne_nil hrest.ne_nil
    exact ih

/-! ## What the readers accept -/

/-- The three readers: the bytes up to the first that ends an encoding, of at most `room`; in the
longest encodings there is a condition on the last byte. -/
def readLeb (room : Nat) (unusedOk : Nat → Bool) (value : Nat → Nat → Nat) (p : List UInt8) :
    Option (Nat × Nat) :=
  (firstEnd p room).bind fun i =>
    if i + 1 = room ∧ unusedOk (lebPayload p i) = false then none
    else some (value (i + 1) (lebValue p (i + 1)), i + 1)

theorem readLeb_iff {room : Nat} {unusedOk : Nat → Bool} {value : Nat → Nat → Nat} {p : List UInt8}
    {v n : Nat} :
    readLeb room unusedOk value p = some (v, n) ↔
      ∃ bytes rest, p = bytes ++ rest ∧ bytes.length = n ∧ LebEncoding bytes ∧ n ≤ room ∧
        (n = room → unusedOk (lastByte bytes) = true) ∧ v = value n (lebUnsigned bytes) := by
  rw [readLeb, Option.bind_eq_some_iff]
  constructor
  · rintro ⟨i, hi, hvalue⟩
    obtain ⟨bytes, rest, rfl, hbytes, hlen, hlt⟩ := firstEnd_eq_some.mp hi
    have hlast := lebPayload_append hbytes rest
    rw [hlen, Nat.add_sub_cancel] at hlast
    rw [hlast, lebValue_append bytes rest (i + 1) (by omega), ← hlen, List.take_length] at hvalue
    split at hvalue
    · cases hvalue
    · rename_i hok
      cases hvalue
      refine ⟨bytes, rest, rfl, rfl, hbytes, by omega, fun hroom => ?_, rfl⟩
      by_contra hne
      exact hok ⟨hroom, Bool.not_eq_true _ ▸ hne⟩
  · rintro ⟨bytes, rest, rfl, rfl, hbytes, hle, hok, rfl⟩
    have hpos := List.length_pos_of_ne_nil hbytes.ne_nil
    refine ⟨bytes.length - 1, firstEnd_eq_some.mpr ⟨bytes, rest, rfl, hbytes, by omega, by omega⟩, ?_⟩
    rw [Nat.sub_add_cancel hpos, lebPayload_append hbytes,
      lebValue_append bytes rest _ (Nat.le_refl _), List.take_length, if_neg]
    rintro ⟨hroom, hbad⟩
    rw [hok hroom] at hbad
    cases hbad

theorem find?_cons_bind {α β : Type} (q : α → Bool) (a : α) (as : List α) (f : α → Option β) :
    ((a :: as).find? q).bind f = if q a then f a else (as.find? q).bind f := by
  rw [List.find?_cons]
  cases q a <;> rfl

theorem wasmReadU32Leb128_eq (p : List UInt8) :
    wasmReadU32Leb128 p = readLeb 5 (fun last => last / 0x10 = 0) (fun _ value => value) p := by
  simp only [wasmReadU32Leb128, readLeb, firstEnd, show List.range 5 = [0, 1, 2, 3, 4] from rfl,
    find?_cons_bind]
  simp

/-- The bits above the `used` of the last byte are copies of the sign bit. -/
def signBitsOk (used last : Nat) : Bool :=
  last / 2 ^ used = if last / 2 ^ (used - 1) % 2 = 1 then 2 ^ (7 - used) - 1 else 0

theorem wasmReadI32Leb128_eq (p : List UInt8) :
    wasmReadI32Leb128 p = readLeb 5 (signBitsOk 4)
      (fun n value => if n = 5 then value % maxU32 else signExtend 32 (7 * n) value) p := by
  simp only [wasmReadI32Leb128, readLeb, firstEnd, show List.range 5 = [0, 1, 2, 3, 4] from rfl,
    find?_cons_bind]
  simp [signBitsOk]

theorem wasmReadI64Leb128_eq (p : List UInt8) :
    wasmReadI64Leb128 p = readLeb 10 (signBitsOk 1)
      (fun n value => if n = 10 then value % maxU64 else signExtend 64 (7 * n) value) p := by
  simp only [wasmReadI64Leb128, readLeb, firstEnd,
    show List.range 10 = [0, 1, 2, 3, 4, 5, 6, 7, 8, 9] from rfl, find?_cons_bind]
  simp [signBitsOk]

theorem wasmReadU32Leb128_iff {p : List UInt8} {value n : Nat} :
    wasmReadU32Leb128 p = some (value, n) ↔
      ∃ bytes rest, p = bytes ++ rest ∧ bytes.length = n ∧ UnsignedEncoding 5 4 bytes ∧
        value = lebUnsigned bytes := by
  rw [wasmReadU32Leb128_eq, readLeb_iff]
  constructor
  · rintro ⟨bytes, rest, rfl, rfl, hbytes, hle, hok, rfl⟩
    exact ⟨bytes, rest, rfl, rfl, ⟨hbytes, hle, fun hroom => of_decide_eq_true (hok hroom)⟩, rfl⟩
  · rintro ⟨bytes, rest, rfl, rfl, ⟨hbytes, hle, hok⟩, rfl⟩
    exact ⟨bytes, rest, rfl, rfl, hbytes, hle, fun hroom => decide_eq_true (hok hroom), rfl⟩

theorem toSigned_injective {width v v' : Nat} (hv : v < 2 ^ width) (hv' : v' < 2 ^ width)
    (h : toSigned width v = toSigned width v') : v = v' := by
  have hcast : ((2 ^ width : Nat) : Int) = 2 ^ width := by push_cast; rfl
  unfold toSigned at h
  rw [← hcast] at h
  split at h <;> split at h <;> omega

/-- Every value of a signed type has its bits. -/
theorem exists_bits (width : Nat) {value : Int} (hle : -2 ^ (width - 1) ≤ value)
    (hlt : value < 2 ^ (width - 1)) (hwidth : 0 < width) :
    ∃ bits, bits < 2 ^ width ∧ toSigned width bits = value := by
  have hdouble : 2 ^ (width - 1) * 2 = 2 ^ width := Nat.two_pow_pred_mul_two hwidth
  have hcast : ∀ n : Nat, ((2 ^ n : Nat) : Int) = 2 ^ n := fun n => by push_cast; rfl
  rw [← hcast] at hle hlt
  by_cases hneg : 0 ≤ value
  · refine ⟨value.toNat, by omega, ?_⟩
    rw [toSigned, if_pos (by omega)]
    omega
  · refine ⟨(value + (2 ^ width : Nat)).toNat, by omega, ?_⟩
    rw [toSigned, if_neg (by omega), ← hcast]
    omega

/-- Sign extension from `bits` bits keeps the value. -/
theorem toSigned_signExtend {width bits v : Nat} (hbits : 0 < bits) (hlt : bits < width)
    (hv : v < 2 ^ bits) :
    signExtend width bits v < 2 ^ width ∧ toSigned width (signExtend width bits v) = toSigned bits v := by
  have hhalf : 2 ^ (bits - 1) * 2 = 2 ^ bits := Nat.two_pow_pred_mul_two hbits
  have hle : 2 ^ bits ≤ 2 ^ (width - 1) := Nat.pow_le_pow_right (by decide) (by omega)
  have hwidth : 2 ^ (width - 1) * 2 = 2 ^ width := Nat.two_pow_pred_mul_two (by omega)
  have hcast : ∀ n : Nat, ((2 ^ n : Nat) : Int) = 2 ^ n := fun n => by push_cast; rfl
  unfold signExtend toSigned
  rw [← hcast, ← hcast]
  by_cases hneg : v < 2 ^ (bits - 1)
  · simp only [if_pos hneg, if_pos (show v < 2 ^ (width - 1) by omega), and_true]
    omega
  · simp only [if_neg hneg, if_neg (show ¬ v + (2 ^ width - 2 ^ bits) < 2 ^ (width - 1) by omega)]
    omega

theorem LebEncoding.lastByte_lt {bytes : List UInt8} (h : LebEncoding bytes) : lastByte bytes < 0x80 := by
  induction h with
  | last hb => exact hb
  | @more b bytes hb hrest ih =>
    obtain ⟨c, bytes, rfl⟩ := List.exists_cons_of_ne_nil hrest.ne_nil
    exact ih

/-- The last byte holds the topmost digit. -/
theorem LebEncoding.lastByte_eq {bytes : List UInt8} (h : LebEncoding bytes) :
    lastByte bytes = lebUnsigned bytes / 2 ^ (7 * (bytes.length - 1)) := by
  have hlast := h.lastByte_lt
  obtain ⟨init, b, rfl⟩ := List.eq_nil_or_concat bytes |>.resolve_left h.ne_nil
  have hb : lastByte (init.concat b) = b.toNat := by simp [lastByte]
  rw [hb] at hlast ⊢
  rw [List.concat_eq_append, lebUnsigned_append, List.length_append, List.length_singleton,
    Nat.add_sub_cancel, Nat.add_mul_div_right _ _ (Nat.two_pow_pos _),
    Nat.div_eq_of_lt (lebUnsigned_lt init), Nat.zero_add]
  exact (Nat.mod_eq_of_lt hlast).symm

/-- What a signed reader returns for an encoding has the encoding's value. -/
theorem signedReader_iff {width room used : Nat} {value : Nat → Nat → Nat} {p : List UInt8} {v n : Nat}
    (hvalue : ∀ bytes, SignedEncoding room used bytes →
      value bytes.length (lebUnsigned bytes) < 2 ^ width ∧
        toSigned width (value bytes.length (lebUnsigned bytes)) = lebSigned bytes) :
    readLeb room (signBitsOk used) value p = some (v, n) ↔
      ∃ bytes rest, p = bytes ++ rest ∧ bytes.length = n ∧ SignedEncoding room used bytes ∧
        v < 2 ^ width ∧ toSigned width v = lebSigned bytes := by
  rw [readLeb_iff]
  constructor
  · rintro ⟨bytes, rest, rfl, rfl, hbytes, hle, hok, rfl⟩
    have henc : SignedEncoding room used bytes :=
      ⟨hbytes, hle, fun hroom => of_decide_eq_true (hok hroom)⟩
    exact ⟨bytes, rest, rfl, rfl, henc, hvalue bytes henc⟩
  · rintro ⟨bytes, rest, rfl, rfl, henc, hlt, hv⟩
    obtain ⟨hlt', hv'⟩ := hvalue bytes henc
    exact ⟨bytes, rest, rfl, rfl, henc.encoding, henc.length_le,
      fun hroom => decide_eq_true (henc.unused hroom), toSigned_injective hlt hlt' (hv.trans hv'.symm)⟩

theorem wasmReadI32Leb128_iff {p : List UInt8} {bits n : Nat} :
    wasmReadI32Leb128 p = some (bits, n) ↔
      ∃ bytes rest, p = bytes ++ rest ∧ bytes.length = n ∧ SignedEncoding 5 4 bytes ∧
        bits < 2 ^ 32 ∧ toSigned 32 bits = lebSigned bytes := by
  rw [wasmReadI32Leb128_eq]
  refine signedReader_iff fun bytes henc => ?_
  have hpos := List.length_pos_of_ne_nil henc.encoding.ne_nil
  have hlt := lebUnsigned_lt bytes
  split
  · rename_i hroom
    have hok := henc.unused hroom
    rw [henc.encoding.lastByte_eq, hroom] at hok
    rw [hroom] at hlt
    rw [lebSigned, hroom]
    simp only [toSigned, maxU32] at hok hlt ⊢
    norm_num at hok hlt ⊢
    split at hok <;> omega
  · have hle := henc.length_le
    exact toSigned_signExtend (by omega) (by omega) hlt

theorem wasmReadI64Leb128_iff {p : List UInt8} {bits n : Nat} :
    wasmReadI64Leb128 p = some (bits, n) ↔
      ∃ bytes rest, p = bytes ++ rest ∧ bytes.length = n ∧ SignedEncoding 10 1 bytes ∧
        bits < 2 ^ 64 ∧ toSigned 64 bits = lebSigned bytes := by
  rw [wasmReadI64Leb128_eq]
  refine signedReader_iff fun bytes henc => ?_
  have hpos := List.length_pos_of_ne_nil henc.encoding.ne_nil
  have hlt := lebUnsigned_lt bytes
  split
  · rename_i hroom
    have hok := henc.unused hroom
    rw [henc.encoding.lastByte_eq, hroom] at hok
    rw [hroom] at hlt
    rw [lebSigned, hroom]
    simp only [toSigned, maxU64] at hok hlt ⊢
    norm_num at hok hlt ⊢
    split at hok <;> omega
  · have hle := henc.length_le
    exact toSigned_signExtend (by omega) (by omega) hlt

/-! ## What the writers write -/

theorem toNat_lowByte {b : Nat} (h : b < 0x80) :
    (UInt8.ofNat b).toNat = b ∧ (UInt8.ofNat (b + 0x80)).toNat = b + 0x80 := by
  rw [UInt8.toNat_ofNat', UInt8.toNat_ofNat']
  omega

theorem leb128LoopUntil_unsigned : ∀ (room : Nat) (value : Int), 0 ≤ value →
    value < 0x80 * 0x80 ^ room →
    ∃ bytes, leb128LoopUntil (fun value _ => value = 0) (room + 1) value = some bytes ∧
      LebEncoding bytes ∧ bytes.length ≤ room + 1 ∧ (lebUnsigned bytes : Int) = value := by
  have hstop : ∀ (room : Nat) (value : Int), 0 ≤ value → value / 0x80 = 0 →
      ∃ bytes, leb128LoopUntil (fun value _ => value = 0) (room + 1) value = some bytes ∧
        LebEncoding bytes ∧ bytes.length ≤ room + 1 ∧ (lebUnsigned bytes : Int) = value := by
    intro room value hnonneg hdone
    obtain ⟨hlow, -⟩ := toNat_lowByte (b := (value % 0x80).toNat) (by omega)
    refine ⟨[UInt8.ofNat (value % 0x80).toNat], ?_, .last (by omega), by simp, ?_⟩
    · rw [leb128LoopUntil, if_pos (decide_eq_true hdone)]
    · rw [lebUnsigned_cons, hlow]
      simp only [lebUnsigned, List.map_nil, Nat.ofDigits_nil]
      omega
  intro room
  induction room with
  | zero =>
    intro value hnonneg hlt
    exact hstop 0 value hnonneg (by omega)
  | succ room ih =>
    intro value hnonneg hlt
    by_cases hdone : value / 0x80 = 0
    · exact hstop (room + 1) value hnonneg hdone
    · obtain ⟨-, hhigh⟩ := toNat_lowByte (b := (value % 0x80).toNat) (by omega)
      have hpow : (0x80 : Int) ^ (room + 1) = 0x80 * 0x80 ^ room := pow_succ' _ _
      obtain ⟨bytes, hbytes, henc, hlen, hvalue⟩ := ih (value / 0x80) (by omega) (by omega)
      refine ⟨UInt8.ofNat ((value % 0x80).toNat + 0x80) :: bytes, ?_, .more (by omega) henc,
        Nat.succ_le_succ hlen, ?_⟩
      · rw [leb128LoopUntil, if_neg (by simpa using hdone), hbytes]
        rfl
      · rw [lebUnsigned_cons, hhigh]
        push_cast
        omega

/-- The loop of a signed writer, for values of one sign. -/
theorem leb128LoopUntil_signed {endCond : Int → Nat → Bool} {S : Int → Prop}
    (hsign : ∀ value, S value → S (value / 0x80))
    (hend : ∀ value, S value →
      (endCond (value / 0x80) (value % 0x80).toNat = true ↔ -0x40 ≤ value ∧ value < 0x40)) :
    ∀ (room : Nat) (value : Int), S value → -0x40 * 0x80 ^ room ≤ value →
      value < 0x40 * 0x80 ^ room →
      ∃ bytes, leb128LoopUntil endCond (room + 1) value = some bytes ∧
        LebEncoding bytes ∧ bytes.length ≤ room + 1 ∧ lebSigned bytes = value := by
  have hstop : ∀ (room : Nat) (value : Int), S value → -0x40 ≤ value → value < 0x40 →
      ∃ bytes, leb128LoopUntil endCond (room + 1) value = some bytes ∧
        LebEncoding bytes ∧ bytes.length ≤ room + 1 ∧ lebSigned bytes = value := by
    intro room value hs hle hlt
    obtain ⟨hlow, -⟩ := toNat_lowByte (b := (value % 0x80).toNat) (by omega)
    refine ⟨[UInt8.ofNat (value % 0x80).toNat], ?_, .last (by omega), by simp, ?_⟩
    · rw [leb128LoopUntil, if_pos ((hend value hs).mpr ⟨hle, hlt⟩)]
    · rw [lebSigned, lebUnsigned_cons, hlow]
      simp only [lebUnsigned, List.map_nil, Nat.ofDigits_nil, toSigned, List.length_singleton]
      norm_num
      split <;> omega
  intro room
  induction room with
  | zero =>
    intro value hs hle hlt
    exact hstop 0 value hs (by omega) (by omega)
  | succ room ih =>
    intro value hs hle hlt
    by_cases hdone : -0x40 ≤ value ∧ value < 0x40
    · exact hstop (room + 1) value hs hdone.1 hdone.2
    · obtain ⟨-, hhigh⟩ := toNat_lowByte (b := (value % 0x80).toNat) (by omega)
      have hpow : (0x80 : Int) ^ (room + 1) = 0x80 * 0x80 ^ room := pow_succ' _ _
      obtain ⟨bytes, hbytes, henc, hlen, hvalue⟩ :=
        ih (value / 0x80) (hsign value hs) (by omega) (by omega)
      refine ⟨UInt8.ofNat ((value % 0x80).toNat + 0x80) :: bytes, ?_, .more (by omega) henc,
        Nat.succ_le_succ hlen, ?_⟩
      · rw [leb128LoopUntil, if_neg (mt (hend value hs).mp hdone), hbytes]
        rfl
      · rw [lebSigned_cons _ henc.ne_nil, hhigh, hvalue]
        push_cast
        omega

theorem writeSignedLeb128_spec (room : Nat) (value : Int) (hle : -0x40 * 0x80 ^ room ≤ value)
    (hlt : value < 0x40 * 0x80 ^ room) :
    ∃ bytes, writeSignedLeb128 (room + 1) value = some bytes ∧
      LebEncoding bytes ∧ bytes.length ≤ room + 1 ∧ lebSigned bytes = value := by
  unfold writeSignedLeb128
  split
  · rename_i hneg
    refine leb128LoopUntil_signed (S := (· < 0)) (fun value h => by omega) (fun value h => ?_)
      room value hneg hle hlt
    simp only [byteIsNegative, Bool.and_eq_true, decide_eq_true_eq]
    omega
  · rename_i hnonneg
    refine leb128LoopUntil_signed (S := (0 ≤ ·)) (fun value h => by omega) (fun value h => ?_)
      room value (by omega) hle hlt
    simp only [byteIsNegative, Bool.and_eq_true, decide_eq_true_eq, Bool.not_eq_true',
      decide_eq_false_iff_not]
    omega

theorem wasmWriteU32Leb128_spec (value : UInt32) :
    ∃ bytes, wasmWriteU32Leb128 value.toNat = some bytes ∧ UnsignedEncoding 5 4 bytes ∧
      lebUnsigned bytes = value.toNat := by
  have hlt : value.toNat < 2 ^ 32 := value.toNat_lt
  obtain ⟨bytes, hbytes, henc, hlen, hvalue⟩ :=
    leb128LoopUntil_unsigned 4 value.toNat (by omega) (by omega)
  refine ⟨bytes, hbytes, ⟨henc, hlen, fun hroom => ?_⟩, by omega⟩
  rw [henc.lastByte_eq, hroom]
  omega

theorem wasmWriteFixedU32Leb128_spec (value : UInt32) :
    UnsignedEncoding 5 4 (wasmWriteFixedU32Leb128 value.toNat) ∧
      lebUnsigned (wasmWriteFixedU32Leb128 value.toNat) = value.toNat := by
  have hlt : value.toNat < 2 ^ 32 := value.toNat_lt
  have hdigit : ∀ n, (UInt8.ofNat (n % 0x80 + 0x80)).toNat = n % 0x80 + 0x80 := fun n =>
    (toNat_lowByte (Nat.mod_lt n (by decide))).2
  have hlast : (UInt8.ofNat (value.toNat / 2 ^ 28 % 0x10)).toNat = value.toNat / 2 ^ 28 % 0x10 :=
    (toNat_lowByte (by omega)).1
  have hmore : ∀ n bytes, LebEncoding bytes →
      LebEncoding (UInt8.ofNat (n % 0x80 + 0x80) :: bytes) := fun n bytes h =>
    .more (by rw [hdigit]; omega) h
  refine ⟨⟨hmore _ _ (hmore _ _ (hmore _ _ (hmore _ _ (.last ?_)))), Nat.le_refl _, fun _ => ?_⟩, ?_⟩
  · rw [hlast]
    omega
  · show (UInt8.ofNat (value.toNat / 2 ^ 28 % 0x10)).toNat / 2 ^ 4 = 0
    rw [hlast]
    omega
  · simp only [wasmWriteFixedU32Leb128, lebUnsigned_cons, hdigit, hlast]
    simp only [lebUnsigned, List.map_nil, Nat.ofDigits_nil]
    omega

theorem wasmWriteI32Leb128_spec (value : Int32) :
    ∃ bytes, wasmWriteI32Leb128 value.toInt = some bytes ∧ SignedEncoding 5 4 bytes ∧
      lebSigned bytes = value.toInt := by
  have hle := value.le_toInt
  have hlt := value.toInt_lt
  obtain ⟨bytes, hbytes, henc, hlen, hvalue⟩ :=
    writeSignedLeb128_spec 4 value.toInt (by omega) (by omega)
  refine ⟨bytes, hbytes, ⟨henc, hlen, fun hroom => ?_⟩, hvalue⟩
  have hdigits := lebUnsigned_lt bytes
  rw [lebSigned, hroom] at hvalue
  rw [hroom] at hdigits
  rw [henc.lastByte_eq, hroom]
  simp only [toSigned] at hvalue
  norm_num at hvalue hdigits ⊢
  split at hvalue <;> split <;> omega

theorem writeI64Leb128_spec (value : Int64) :
    ∃ bytes, writeI64Leb128 value.toInt = some bytes ∧ SignedEncoding 10 1 bytes ∧
      lebSigned bytes = value.toInt := by
  have hle := value.le_toInt
  have hlt := value.toInt_lt
  obtain ⟨bytes, hbytes, henc, hlen, hvalue⟩ :=
    writeSignedLeb128_spec 9 value.toInt (by omega) (by omega)
  refine ⟨bytes, hbytes, ⟨henc, hlen, fun hroom => ?_⟩, hvalue⟩
  have hdigits := lebUnsigned_lt bytes
  rw [lebSigned, hroom] at hvalue
  rw [hroom] at hdigits
  rw [henc.lastByte_eq, hroom]
  simp only [toSigned] at hvalue
  norm_num at hvalue hdigits ⊢
  split at hvalue <;> split <;> omega

/-! ## The bytes the readers look at

The readers once more, on a memory: `byte i` is what `p[i]` gives, `none` where it must not be read,
and `len` is `end - p`. -/

section readers

variable (byte : Nat → Option UInt8) (len : Nat)

/-- `p + i < end && (p[i] & 0x80) == 0`. -/
def endsAtIn (i : Nat) : Option Bool :=
  if i < len then (byte i).map fun b => b.toNat < 0x80 else some false

def payloadIn (i : Nat) : Option Nat := (byte i).map (·.toNat % 0x80)

/-- `LEB128_n`. -/
def valueIn : Nat → Option Nat
  | 0 => some 0
  | n + 1 => do return (← valueIn n) + (← payloadIn byte n) * 2 ^ (7 * n)

def readU32LebIn : Option (Option (Nat × Nat)) := do
  if ← endsAtIn byte len 0 then return some (← valueIn byte 1, 1)
  else if ← endsAtIn byte len 1 then return some (← valueIn byte 2, 2)
  else if ← endsAtIn byte len 2 then return some (← valueIn byte 3, 3)
  else if ← endsAtIn byte len 3 then return some (← valueIn byte 4, 4)
  else if ← endsAtIn byte len 4 then
    if (← payloadIn byte 4) / 0x10 ≠ 0 then return none
    else return some (← valueIn byte 5, 5)
  else return none

def readI32LebIn : Option (Option (Nat × Nat)) := do
  if ← endsAtIn byte len 0 then return some (signExtend 32 7 (← valueIn byte 1), 1)
  else if ← endsAtIn byte len 1 then return some (signExtend 32 14 (← valueIn byte 2), 2)
  else if ← endsAtIn byte len 2 then return some (signExtend 32 21 (← valueIn byte 3), 3)
  else if ← endsAtIn byte len 3 then return some (signExtend 32 28 (← valueIn byte 4), 4)
  else if ← endsAtIn byte len 4 then
    let top ← payloadIn byte 4
    if top / 0x10 ≠ (if top / 0x8 % 2 = 1 then 0x7 else 0) then return none
    else return some ((← valueIn byte 5) % maxU32, 5)
  else return none

def readI64LebIn : Option (Option (Nat × Nat)) := do
  if ← endsAtIn byte len 0 then return some (signExtend 64 7 (← valueIn byte 1), 1)
  else if ← endsAtIn byte len 1 then return some (signExtend 64 14 (← valueIn byte 2), 2)
  else if ← endsAtIn byte len 2 then return some (signExtend 64 21 (← valueIn byte 3), 3)
  else if ← endsAtIn byte len 3 then return some (signExtend 64 28 (← valueIn byte 4), 4)
  else if ← endsAtIn byte len 4 then return some (signExtend 64 35 (← valueIn byte 5), 5)
  else if ← endsAtIn byte len 5 then return some (signExtend 64 42 (← valueIn byte 6), 6)
  else if ← endsAtIn byte len 6 then return some (signExtend 64 49 (← valueIn byte 7), 7)
  else if ← endsAtIn byte len 7 then return some (signExtend 64 56 (← valueIn byte 8), 8)
  else if ← endsAtIn byte len 8 then return some (signExtend 64 63 (← valueIn byte 9), 9)
  else if ← endsAtIn byte len 9 then
    let top ← payloadIn byte 9
    if top / 2 ≠ (if top % 2 = 1 then 0x3f else 0) then return none
    else return some ((← valueIn byte 10) % maxU64, 10)
  else return none

end readers

/-- A memory that holds `p`, and anything or nothing beyond it. -/
def memory (p : List UInt8) (beyond : Nat → Option UInt8) (i : Nat) : Option UInt8 :=
  if i < p.length then p[i]? else beyond i

section memory

variable {p : List UInt8} {beyond : Nat → Option UInt8} {i : Nat}

theorem endsAtIn_memory : endsAtIn (memory p beyond) p.length i = some (lebEndsAt p i) := by
  unfold endsAtIn memory lebEndsAt
  by_cases hi : i < p.length
  · simp [hi]
  · simp [hi]

theorem payloadIn_memory (hi : i < p.length) :
    payloadIn (memory p beyond) i = some (lebPayload p i) := by
  simp [payloadIn, memory, lebPayload, hi]

theorem valueIn_memory : ∀ {n : Nat}, n ≤ p.length →
    valueIn (memory p beyond) n = some (lebValue p n)
  | 0, _ => rfl
  | n + 1, hn => by
      rw [valueIn, valueIn_memory (Nat.le_of_succ_le hn), payloadIn_memory hn]
      rfl

theorem branchIn (f : Nat → Nat) {rest : Option (Option (Nat × Nat))} {rest' : Option (Nat × Nat)}
    (h : rest = some rest') :
    (do
      if ← endsAtIn (memory p beyond) p.length i then
        return some (f (← valueIn (memory p beyond) (i + 1)), i + 1)
      else rest) =
      some (if lebEndsAt p i then some (f (lebValue p (i + 1)), i + 1) else rest') := by
  rw [endsAtIn_memory, Option.bind_eq_bind, Option.bind_some]
  split
  · rename_i hend
    rw [valueIn_memory (lt_of_lebEndsAt hend)]
    rfl
  · exact h

theorem lastBranchIn (f : Nat → Nat) (bad : Nat → Prop) [DecidablePred bad] :
    (do
      if ← endsAtIn (memory p beyond) p.length i then
        let top ← payloadIn (memory p beyond) i
        if bad top then return none
        else return some (f (← valueIn (memory p beyond) (i + 1)), i + 1)
      else return none : Option (Option (Nat × Nat))) =
      some (if lebEndsAt p i then
        if bad (lebPayload p i) then none else some (f (lebValue p (i + 1)), i + 1) else none) := by
  rw [endsAtIn_memory, Option.bind_eq_bind, Option.bind_some]
  split
  · rename_i hend
    rw [payloadIn_memory (lt_of_lebEndsAt hend), valueIn_memory (lt_of_lebEndsAt hend)]
    simp only [Option.bind_eq_bind, Option.bind_some]
    split <;> rfl
  · rfl

theorem readU32LebIn_memory :
    readU32LebIn (memory p beyond) p.length = some (wasmReadU32Leb128 p) := by
  unfold readU32LebIn wasmReadU32Leb128
  iterate 4 refine branchIn (fun value => value) ?_
  exact lastBranchIn (fun value => value) (· / 0x10 ≠ 0)

theorem readI32LebIn_memory :
    readI32LebIn (memory p beyond) p.length = some (wasmReadI32Leb128 p) := by
  unfold readI32LebIn wasmReadI32Leb128
  refine branchIn (signExtend 32 7) ?_
  refine branchIn (signExtend 32 14) ?_
  refine branchIn (signExtend 32 21) ?_
  refine branchIn (signExtend 32 28) ?_
  exact lastBranchIn (· % maxU32) fun top => top / 0x10 ≠ if top / 0x8 % 2 = 1 then 0x7 else 0

theorem readI64LebIn_memory :
    readI64LebIn (memory p beyond) p.length = some (wasmReadI64Leb128 p) := by
  unfold readI64LebIn wasmReadI64Leb128
  refine branchIn (signExtend 64 7) ?_
  refine branchIn (signExtend 64 14) ?_
  refine branchIn (signExtend 64 21) ?_
  refine branchIn (signExtend 64 28) ?_
  refine branchIn (signExtend 64 35) ?_
  refine branchIn (signExtend 64 42) ?_
  refine branchIn (signExtend 64 49) ?_
  refine branchIn (signExtend 64 56) ?_
  refine branchIn (signExtend 64 63) ?_
  exact lastBranchIn (· % maxU64) fun top => top / 2 ≠ if top % 2 = 1 then 0x3f else 0

end memory

/-- The readers read back what the writers write, whatever follows; and on any bytes they accept
the encodings of their type and no others, return the exact value, and look at no byte beyond. -/
theorem leb128_codec (suffix p : List UInt8) (beyond : Nat → Option UInt8) :
    (∀ value : UInt32, ∃ bytes, wasmWriteU32Leb128 value.toNat = some bytes ∧
      wasmReadU32Leb128 (bytes ++ suffix) = some (value.toNat, bytes.length)) ∧
    (∀ value : UInt32, wasmReadU32Leb128 (wasmWriteFixedU32Leb128 value.toNat ++ suffix) =
      some (value.toNat, (wasmWriteFixedU32Leb128 value.toNat).length)) ∧
    (∀ value : Int32, ∃ bytes bits, wasmWriteI32Leb128 value.toInt = some bytes ∧
      wasmReadI32Leb128 (bytes ++ suffix) = some (bits, bytes.length) ∧
      bits < 2 ^ 32 ∧ toSigned 32 bits = value.toInt) ∧
    (∀ value : Int64, ∃ bytes bits, writeI64Leb128 value.toInt = some bytes ∧
      wasmReadI64Leb128 (bytes ++ suffix) = some (bits, bytes.length) ∧
      bits < 2 ^ 64 ∧ toSigned 64 bits = value.toInt) ∧
    (∀ value n, wasmReadU32Leb128 p = some (value, n) ↔
      ∃ bytes rest, p = bytes ++ rest ∧ bytes.length = n ∧ UnsignedEncoding 5 4 bytes ∧
        value = lebUnsigned bytes) ∧
    (∀ bits n, wasmReadI32Leb128 p = some (bits, n) ↔
      ∃ bytes rest, p = bytes ++ rest ∧ bytes.length = n ∧ SignedEncoding 5 4 bytes ∧
        bits < 2 ^ 32 ∧ toSigned 32 bits = lebSigned bytes) ∧
    (∀ bits n, wasmReadI64Leb128 p = some (bits, n) ↔
      ∃ bytes rest, p = bytes ++ rest ∧ bytes.length = n ∧ SignedEncoding 10 1 bytes ∧
        bits < 2 ^ 64 ∧ toSigned 64 bits = lebSigned bytes) ∧
    readU32LebIn (memory p beyond) p.length = some (wasmReadU32Leb128 p) ∧
    readI32LebIn (memory p beyond) p.length = some (wasmReadI32Leb128 p) ∧
    readI64LebIn (memory p beyond) p.length = some (wasmReadI64Leb128 p) := by
  refine ⟨fun value => ?_, fun value => ?_, fun value => ?_, fun value => ?_,
    fun _ _ => wasmReadU32Leb128_iff, fun _ _ => wasmReadI32Leb128_iff,
    fun _ _ => wasmReadI64Leb128_iff, readU32LebIn_memory, readI32LebIn_memory, readI64LebIn_memory⟩
  · obtain ⟨bytes, hwrite, henc, hvalue⟩ := wasmWriteU32Leb128_spec value
    exact ⟨bytes, hwrite, wasmReadU32Leb128_iff.mpr ⟨bytes, suffix, rfl, rfl, henc, hvalue.symm⟩⟩
  · obtain ⟨henc, hvalue⟩ := wasmWriteFixedU32Leb128_spec value
    exact wasmReadU32Leb128_iff.mpr ⟨_, suffix, rfl, rfl, henc, hvalue.symm⟩
  · obtain ⟨bytes, hwrite, henc, hvalue⟩ := wasmWriteI32Leb128_spec value
    obtain ⟨bits, hbits, hsigned⟩ := exists_bits 32 value.le_toInt value.toInt_lt (by decide)
    exact ⟨bytes, bits, hwrite, wasmReadI32Leb128_iff.mpr
      ⟨bytes, suffix, rfl, rfl, henc, hbits, hsigned.trans hvalue.symm⟩, hbits, hsigned⟩
  · obtain ⟨bytes, hwrite, henc, hvalue⟩ := writeI64Leb128_spec value
    obtain ⟨bits, hbits, hsigned⟩ := exists_bits 64 value.le_toInt value.toInt_lt (by decide)
    exact ⟨bytes, bits, hwrite, wasmReadI64Leb128_iff.mpr
      ⟨bytes, suffix, rfl, rfl, henc, hbits, hsigned.trans hvalue.symm⟩, hbits, hsigned⟩

end SexprWasm
