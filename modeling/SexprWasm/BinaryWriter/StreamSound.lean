import SexprWasm.BinaryWriter.Stream
import SexprWasm.Leb128Sound

/-!
# What is written to the stream

`Writes m bs`: at the end of what has been written, `m` writes `bs` and
changes nothing before it. The rules follow the text of a writer; the
one for a length that is filled in later says that the length of exactly
the bytes in between stands before them, whatever lengths were filled in
among those.
-/

namespace SexprWasm

namespace BinaryWriter

open WasmStream

/-! ## Integers -/

/-- The LEB128 bytes of an `uint32_t`. -/
def u32Leb (value : Int) : List UInt8 := (SexprWasm.wasmWriteU32Leb128 (value % maxU32)).getD []

/-- The LEB128 bytes of an `int32_t`. -/
def i32Leb (value : Int) : List UInt8 := (SexprWasm.wasmWriteI32Leb128 (cInt value)).getD []

/-- The LEB128 bytes of an `int64_t`. -/
def i64Leb (value : Int) : List UInt8 := (SexprWasm.writeI64Leb128 (value.bmod maxU64)).getD []

theorem u32Leb_spec (value : Int) :
    SexprWasm.wasmWriteU32Leb128 (value % maxU32) = some (u32Leb value) ∧
      UnsignedEncoding 5 4 (u32Leb value) ∧ (lebUnsigned (u32Leb value) : Int) = value % maxU32 := by
  have hnonneg : 0 ≤ value % maxU32 := Int.emod_nonneg _ (by decide)
  have hlt : value % maxU32 < 2 ^ 32 := Int.emod_lt_of_pos _ (by decide)
  obtain ⟨bytes, hwrite, henc, hvalue⟩ :=
    wasmWriteU32Leb128_spec (UInt32.ofNat (value % maxU32).toNat)
  have hnat : (UInt32.ofNat (value % maxU32).toNat).toNat = (value % maxU32).toNat :=
    UInt32.toNat_ofNat_of_lt' (by simp only [UInt32.size]; omega)
  rw [hnat] at hwrite hvalue
  rw [Int.toNat_of_nonneg hnonneg] at hwrite
  have hbytes : u32Leb value = bytes := by rw [u32Leb, hwrite, Option.getD_some]
  rw [hbytes]
  exact ⟨hwrite, henc, by omega⟩

theorem i32Leb_spec (value : Int) :
    SexprWasm.wasmWriteI32Leb128 (cInt value) = some (i32Leb value) ∧
      SignedEncoding 5 4 (i32Leb value) ∧ lebSigned (i32Leb value) = cInt value := by
  obtain ⟨bytes, hwrite, henc, hvalue⟩ := wasmWriteI32Leb128_spec (Int32.ofInt value)
  have hint : (Int32.ofInt value).toInt = cInt value := Int32.toInt_ofInt
  rw [hint] at hwrite hvalue
  have hbytes : i32Leb value = bytes := by rw [i32Leb, hwrite, Option.getD_some]
  rw [hbytes]
  exact ⟨hwrite, henc, hvalue⟩

theorem i64Leb_spec (value : Int) :
    SexprWasm.writeI64Leb128 (value.bmod maxU64) = some (i64Leb value) ∧
      SignedEncoding 10 1 (i64Leb value) ∧ lebSigned (i64Leb value) = value.bmod maxU64 := by
  obtain ⟨bytes, hwrite, henc, hvalue⟩ := writeI64Leb128_spec (Int64.ofInt value)
  have hint : (Int64.ofInt value).toInt = value.bmod maxU64 := Int64.toInt_ofInt
  rw [hint] at hwrite hvalue
  have hbytes : i64Leb value = bytes := by rw [i64Leb, hwrite, Option.getD_some]
  rw [hbytes]
  exact ⟨hwrite, henc, hvalue⟩

theorem u32Leb_ne_nil (value : Int) : u32Leb value ≠ [] := (u32Leb_spec value).2.1.encoding.ne_nil

theorem length_u32Leb_pos (value : Int) : 0 < (u32Leb value).length :=
  List.length_pos_iff.mpr (u32Leb_ne_nil value)

theorem length_leb128LoopUntil : ∀ (room value : Nat) (bytes : List UInt8),
    leb128LoopUntil (fun value _ => value = 0) room value = some bytes →
      bytes.length = countU32Leb128 room value
  | room + 1, value, bytes, h => by
      have hdiv : ((value : Int) / 0x80) = ((value / 0x80 : Nat) : Int) := rfl
      rw [leb128LoopUntil, hdiv] at h
      rw [countU32Leb128]
      by_cases hdone : value / 0x80 = 0
      · rw [if_pos (decide_eq_true (by rw [hdone]; rfl))] at h
        cases h
        rw [if_pos hdone]
        rfl
      · rw [if_neg (mt of_decide_eq_true (by omega)), Option.map_eq_some_iff] at h
        obtain ⟨bytes', hbytes, rfl⟩ := h
        rw [if_neg hdone, List.length_cons, length_leb128LoopUntil room (value / 0x80) bytes' hbytes]

theorem length_u32Leb {value : Nat} (h : value < maxU32) :
    (u32Leb value).length = sizeU32Leb128 value := by
  have hmod : ((value : Int) % maxU32) = value := Int.emod_eq_of_lt (by omega) (by omega)
  have hspec := (u32Leb_spec value).1
  rw [hmod] at hspec
  exact length_leb128LoopUntil 5 value _ hspec

theorem sizeU32Leb128_pos (value : Nat) : 0 < sizeU32Leb128 value := by
  rw [sizeU32Leb128, maxU32Leb128Bytes, countU32Leb128]
  split <;> omega

theorem length_u32Leb_le (value : Int) : (u32Leb value).length ≤ 5 := (u32Leb_spec value).2.1.length_le

/-! ## Running a writer -/

@[simp] theorem bind_run {α β : Type} (m : WriteM α) (f : α → WriteM β) (c : Context) :
    (m >>= f) c = (m c).bind fun p => f p.1 p.2 := rfl

@[simp] theorem get_run (c : Context) : (get : WriteM Context) c = some (c, c) := rfl

@[simp] theorem modify_run (f : Context → Context) (c : Context) :
    (modify f : WriteM Unit) c = some ((), f c) := rfl

@[simp] theorem pure_run {α : Type} (a : α) (c : Context) : (pure a : WriteM α) c = some (a, c) := rfl

@[simp] theorem assert_run {b : Bool} (h : b = true) (c : Context) :
    assert b c = some ((), c) := by
  rw [assert, if_pos h]

@[simp] theorem orAbort_run {α : Type} (a : α) (c : Context) :
    orAbort (some a) c = some (a, c) := rfl

/-- The context where `w` has been written; `stale` is what the buffer holds behind it. -/
def Context.put (c : Context) (w stale : List UInt8) : Context :=
  { c with buf := w ++ stale, offset := w.length }

@[simp] theorem Context.put_buf (c : Context) (w stale : List UInt8) :
    (c.put w stale).buf = w ++ stale := rfl

@[simp] theorem Context.put_offset (c : Context) (w stale : List UInt8) :
    (c.put w stale).offset = w.length := rfl

theorem wasmWriteData_run (src : List UInt8) (c : Context) (w stale : List UInt8) :
    wasmWriteData src (c.put w stale) = some ((), c.put (w ++ src) (stale.drop src.length)) := by
  simp only [wasmWriteData, wasmWriteDataAt, bind_run, get_run, modify_run, Option.bind_some,
    Context.put_buf, Context.put_offset]
  rw [Buffer.writeAt_front, ← List.append_assoc, Context.put, ← List.length_append]
  rfl

@[simp] theorem Context.put_lastSectionOffset (c : Context) (w stale : List UInt8) :
    (c.put w stale).lastSectionOffset = c.lastSectionOffset := rfl

@[simp] theorem Context.put_lastSectionLebSizeGuess (c : Context) (w stale : List UInt8) :
    (c.put w stale).lastSectionLebSizeGuess = c.lastSectionLebSizeGuess := rfl

/-- `m` writes `bs` at the end of what has been written. -/
def Writes (m : WriteM Unit) (bs : List UInt8) : Prop :=
  ∀ (c : Context) (w stale : List UInt8), w.length + bs.length < maxU32 →
    m (c.put w stale) = some ((), c.put (w ++ bs) (stale.drop bs.length))

namespace Writes

variable {m m' : WriteM Unit} {bs bs' : List UInt8}

theorem pure : Writes (Pure.pure ()) [] := by
  intro c w stale _
  rw [pure_run, List.append_nil, List.length_nil, List.drop_zero]

theorem bind (h : Writes m bs) (h' : Writes m' bs') : Writes (m >>= fun _ => m') (bs ++ bs') := by
  intro c w stale hlt
  rw [List.length_append] at hlt
  rw [bind_run, h c w stale (by omega), Option.bind_some,
    h' c (w ++ bs) _ (by rw [List.length_append]; omega), List.drop_drop, List.append_assoc,
    List.length_append]

theorem of_eq (h : Writes m bs) (hbs : bs = bs') : Writes m bs' := hbs ▸ h

theorem assert {b : Bool} (h : b = true) : Writes (assert b) [] := by
  intro c w stale _
  rw [assert_run h, List.append_nil, List.length_nil, List.drop_zero]

theorem orAbort {α : Type} {a : α} {f : α → WriteM Unit} (h : Writes (f a) bs) :
    Writes (BinaryWriter.orAbort (some a) >>= f) bs := h

theorem forM {α : Type} {f : α → WriteM Unit} {g : α → List UInt8} : ∀ {xs : List α},
    (∀ x ∈ xs, Writes (f x) (g x)) → Writes (xs.forM f) (xs.flatMap g)
  | [], _ => pure
  | x :: xs, h => by
      rw [List.flatMap_cons]
      exact bind (h x List.mem_cons_self) (forM fun y hy => h y (List.mem_cons_of_mem _ hy))

theorem data (src : List UInt8) : Writes (wasmWriteData src) src :=
  fun c w stale _ => wasmWriteData_run src c w stale

theorem u8 {value : Nat} (h : value ≤ 0xff) : Writes (wasmWriteU8 value) [UInt8.ofNat value] :=
  (assert (decide_eq_true h)).bind (data _)

theorem u32Leb (value : Int) : Writes (WasmStream.writeU32Leb128 value) (BinaryWriter.u32Leb value) := by
  intro c w stale hlt
  have hoffset : u32 w.length = w.length := u32_of_lt (by omega)
  simp only [WasmStream.writeU32Leb128, wasmWriteU32Leb128At, wasmWriteDataAt, bind_run, get_run,
    modify_run, pure_run, Option.bind_some, (u32Leb_spec value).1, orAbort_run, Context.put_buf,
    Context.put_offset, hoffset]
  rw [Buffer.writeAt_front, ← List.append_assoc, Context.put, ← List.length_append]
  rfl

theorem i32Leb (value : Int) : Writes (WasmStream.writeI32Leb128 value) (BinaryWriter.i32Leb value) := by
  rw [WasmStream.writeI32Leb128, (i32Leb_spec value).1]
  exact orAbort (data _)

theorem i64Leb (value : Int) : Writes (WasmStream.writeI64Leb128 value) (BinaryWriter.i64Leb value) := by
  rw [WasmStream.writeI64Leb128, (i64Leb_spec value).1]
  exact orAbort (data _)

theorem str (s : List UInt8) : Writes (wasmWriteStr s) (BinaryWriter.u32Leb s.length ++ s) :=
  bind (u32Leb _) (data _)

theorem opcode (op : WasmOpcode) : Writes (wasmWriteOpcode op) [UInt8.ofNat op.code] :=
  u8 (Nat.le_of_lt (Nat.lt_trans op.code_lt (by decide)))

end Writes

/-! ## Lengths that are filled in later -/

section Lengths

variable (options : WriteBinaryOptions)

/-- What stands for a length: its shortest encoding, or the one of five bytes. -/
def lengthLeb (length : Nat) : List UInt8 :=
  if options.canonicalizeLebs then u32Leb length else wasmWriteFixedU32Leb128 length

/-- The bytes with their length before them. -/
def sized (bs : List UInt8) : List UInt8 := lengthLeb options bs.length ++ bs

/-- The room that is left for a length. -/
def lebSpace (lebSizeGuess : Nat) : List UInt8 :=
  List.replicate (if options.canonicalizeLebs then lebSizeGuess else maxU32Leb128Bytes) 0

theorem sizeBetween_of_add {start lebSize size : Nat} (h : size < maxU32) :
    sizeBetween (start + (lebSize + size)) start lebSize = size := by
  have hdiff : ((start + (lebSize + size) : Nat) : Int) - start - lebSize = size := by omega
  rw [sizeBetween, hdiff, Int.emod_eq_of_lt (by omega) (by omega), Int.toNat_natCast]

theorem length_lebSpace (lebSizeGuess : Nat) : (lebSpace options lebSizeGuess).length =
    if options.canonicalizeLebs then lebSizeGuess else maxU32Leb128Bytes :=
  List.length_replicate

variable {c : Context} {w stale payload : List UInt8} {lebSizeGuess : Nat}

theorem writeU32Leb128Space_run (hguess : lebSizeGuess ≤ maxU32Leb128Bytes)
    (hlt : w.length < maxU32) :
    writeU32Leb128Space options lebSizeGuess (c.put w stale) =
      some (w.length, c.put (w ++ lebSpace options lebSizeGuess)
        (stale.drop (lebSpace options lebSizeGuess).length)) := by
  have hrun := wasmWriteData_run (lebSpace options lebSizeGuess) c w stale
  simp only [writeU32Leb128Space, bind_run, get_run, pure_run, Option.bind_some,
    assert_run (decide_eq_true hguess), Context.put_offset, u32_of_lt hlt]
  rw [← lebSpace, hrun, Option.bind_some]

theorem wasmWriteU32Leb128At_run {offset : Nat} (hoffset : offset < maxU32) (value : Int) :
    wasmWriteU32Leb128At offset value c =
      some ((u32Leb value).length, { c with buf := Buffer.writeAt 0 c.buf offset (u32Leb value) }) := by
  simp only [wasmWriteU32Leb128At, wasmWriteDataAt, bind_run, modify_run, pure_run,
    Option.bind_some, (u32Leb_spec value).1, orAbort_run, u32_of_lt hoffset]

/-- What stands behind the room, once the payload has been moved to make way for the length. -/
theorem drop_moved {space : List UInt8} {k : Nat} (hk : space.length ≤ k) :
    (Buffer.writeAt 0 (space ++ (payload ++ stale)) k payload).drop k =
      payload ++ stale.drop (k - space.length) := by
  have hdrop : (space ++ (payload ++ stale)).drop (k + payload.length) =
      stale.drop (k - space.length) := by
    rw [← List.append_assoc, List.drop_append, List.drop_eq_nil_of_le (by
      rw [List.length_append]
      omega), List.nil_append, List.length_append]
    congr 1
    omega
  rw [Buffer.drop_writeAt, hdrop]

/-- The length is written where its room was, and the payload behind it. -/
theorem writeFixupU32Leb128Size_run (hguess : lebSizeGuess ≤ sizeU32Leb128 payload.length)
    (hlt : w.length + (sized options payload).length < maxU32) :
    writeFixupU32Leb128Size options w.length lebSizeGuess
        (c.put (w ++ (lebSpace options lebSizeGuess ++ payload)) stale) =
      some ((), c.put (w ++ sized options payload)
        (stale.drop ((lengthLeb options payload.length).length -
          (lebSpace options lebSizeGuess).length))) := by
  have hspace := length_lebSpace options lebSizeGuess
  generalize lebSpace options lebSizeGuess = space at hspace ⊢
  have hw : w.length < maxU32 := by omega
  have hpayload : payload.length < maxU32 := by
    rw [sized, List.length_append] at hlt
    omega
  have hbuf : w ++ (space ++ payload) ++ stale = w ++ (space ++ (payload ++ stale)) := by
    simp only [List.append_assoc]
  have hend : (w ++ (space ++ payload)).length = w.length + (space.length + payload.length) := by
    simp only [List.length_append]
  unfold writeFixupU32Leb128Size
  simp only [bind_run, get_run, Option.bind_some, Context.put_offset, hend]
  cases hcanon : options.canonicalizeLebs with
  | false =>
    rw [hcanon, if_neg (by decide)] at hspace
    have hfixed : (wasmWriteFixedU32Leb128 payload.length).length = space.length := by
      rw [hspace]
      rfl
    rw [if_neg (by decide), ← hspace, sizeBetween_of_add hpayload, wasmWriteFixedU32Leb128At,
      wasmWriteDataAt, modify_run, u32_of_lt hw, Context.put_buf, hbuf, Buffer.writeAt_front, hfixed,
      List.drop_left, lengthLeb, if_neg (by simp [hcanon]), hfixed, Nat.sub_self, List.drop_zero,
      sized, lengthLeb, if_neg (by simp [hcanon])]
    simp [Context.put, hfixed]
  | true =>
    rw [hcanon, if_pos rfl] at hspace
    subst hspace
    have hleb : lengthLeb options payload.length = u32Leb payload.length := by
      rw [lengthLeb, if_pos hcanon]
    have hk := length_u32Leb hpayload
    rw [sized, hleb, List.length_append] at hlt
    rw [sized, hleb, if_pos rfl, sizeBetween_of_add hpayload]
    generalize sizeU32Leb128 payload.length = k at hguess hk ⊢
    have hoffset : (((k : Int) - space.length) % maxU32).toNat = k - space.length := by
      rw [Int.emod_eq_of_lt (by omega) (by omega)]
      omega
    by_cases hsame : k = space.length
    · rw [if_neg (by simpa using hsame)]
      simp only [Option.bind_some, bind_run, wasmWriteU32Leb128At_run hw, modify_run,
        Context.put_buf, hbuf, Buffer.writeAt_front, hk, hsame, List.drop_left]
      simp [Context.put, hk, hsame, hend]
    · rw [if_pos hsame]
      have hmoved : Buffer.window (w ++ (space ++ (payload ++ stale))) (w.length + space.length)
          payload.length = payload := by
        rw [← List.length_append, ← List.append_assoc, Buffer.window_front, List.take_left]
      simp only [wasmMoveData, Option.bind_some, bind_run, wasmWriteU32Leb128At_run hw,
        modify_run, hoffset, Context.put_buf, hbuf, u32_of_lt (show w.length + k < maxU32 by omega),
        u32_of_lt (show w.length + space.length < maxU32 by omega), hmoved, Buffer.writeAt_behind,
        Buffer.writeAt_front, hk, drop_moved hguess]
      simp only [Context.put, List.length_append, hk, List.append_assoc]
      congr 3
      omega

/-- A length stands for exactly the bytes that `m` writes. -/
theorem Writes.sized {m : WriteM Unit} (h : Writes m payload) :
    Writes (do
      let offset ← writeU32Leb128Space options 1
      m
      writeFixupU32Leb128Size options offset 1) (sized options payload) := by
  intro c w stale hlt
  have hspace := length_lebSpace options 1
  have hle : (lebSpace options 1).length ≤ (lengthLeb options payload.length).length := by
    rw [hspace, lengthLeb]
    split
    · exact length_u32Leb_pos _
    · exact Nat.le_refl 5
  have hsized : (BinaryWriter.sized options payload).length =
      (lengthLeb options payload.length).length + payload.length := List.length_append
  have hguess : 1 ≤ sizeU32Leb128 payload.length := sizeU32Leb128_pos _
  rw [bind_run, writeU32Leb128Space_run options (by decide) (by omega), Option.bind_some, bind_run,
    h c _ _ (by rw [List.length_append]; omega), Option.bind_some, List.append_assoc,
    writeFixupU32Leb128Size_run options hguess hlt, List.drop_drop, List.drop_drop, hsized,
    show (lebSpace options 1).length + (payload.length +
        ((lengthLeb options payload.length).length - (lebSpace options 1).length)) =
      (lengthLeb options payload.length).length + payload.length by omega]

theorem beginKnownSection_run {sectionCode : Nat} (hcode : sectionCode ≤ 0xff)
    (hclosed : c.lastSectionLebSizeGuess = 0) (hlt : w.length + 1 < maxU32) :
    beginKnownSection options sectionCode 1 (c.put w stale) =
      some ((), { c with
        lastSectionLebSizeGuess := 1
        lastSectionOffset := w.length + 1 }.put (w ++ [UInt8.ofNat sectionCode] ++ lebSpace options 1)
          (stale.drop (1 + (lebSpace options 1).length))) := by
  have hu8 := Writes.u8 hcode c w stale hlt
  have hroom : (w ++ [UInt8.ofNat sectionCode]).length < maxU32 := by simpa using hlt
  have hone : 1 ≤ maxU32Leb128Bytes := by decide
  have hspace := @writeU32Leb128Space_run options { c with lastSectionLebSizeGuess := 1 }
    (w ++ [UInt8.ofNat sectionCode]) (stale.drop 1) 1 hone hroom
  rw [List.length_append, List.length_singleton, List.drop_drop] at hspace
  have hassert : decide ((c.put w stale).lastSectionLebSizeGuess = 0) = true :=
    decide_eq_true hclosed
  simp only [beginKnownSection, bind_run, get_run, modify_run, Option.bind_some,
    assert_run hassert, hu8]
  exact congrArg (fun r : Option (Nat × Context) => r.bind _) hspace

theorem endSection_run (hopen : c.lastSectionLebSizeGuess ≠ 0) :
    endSection options c = (writeFixupU32Leb128Size options c.lastSectionOffset
      c.lastSectionLebSizeGuess c).bind fun p =>
        some ((), { p.2 with lastSectionLebSizeGuess := 0 }) := by
  rw [endSection, bind_run, get_run, Option.bind_some, bind_run,
    assert_run (decide_eq_true hopen), Option.bind_some]
  rfl

/-- Writers of whole sections, which begin and end with none open. -/
def WritesSections (m : WriteM Unit) (bs : List UInt8) : Prop :=
  ∀ (c : Context) (w stale : List UInt8), c.lastSectionLebSizeGuess = 0 →
    w.length + bs.length < maxU32 → ∃ offset, m (c.put w stale) =
      some ((), { c with lastSectionOffset := offset }.put (w ++ bs) (stale.drop bs.length))

theorem Writes.sections {m : WriteM Unit} {bs : List UInt8} (h : Writes m bs) :
    WritesSections m bs := fun c w stale _ hlt => ⟨c.lastSectionOffset, h c w stale hlt⟩

namespace WritesSections

variable {m m' : WriteM Unit} {bs bs' : List UInt8}

theorem bind (h : WritesSections m bs) (h' : WritesSections m' bs') :
    WritesSections (m >>= fun _ => m') (bs ++ bs') := by
  intro c w stale hclosed hlt
  rw [List.length_append] at hlt
  obtain ⟨offset, hm⟩ := h c w stale hclosed (by omega)
  obtain ⟨offset', hm'⟩ := h' { c with lastSectionOffset := offset } (w ++ bs)
    (stale.drop bs.length) hclosed (by rw [List.length_append]; omega)
  refine ⟨offset', ?_⟩
  rw [bind_run, hm, Option.bind_some, hm', List.drop_drop, List.append_assoc, List.length_append]

/-- A section is its code and the payload with its length. -/
theorem known {sectionCode : Nat} (hcode : sectionCode ≤ 0xff) (h : Writes m bs) :
    WritesSections (do
      beginKnownSection options sectionCode 1
      m
      endSection options) (UInt8.ofNat sectionCode :: sized options bs) := by
  intro c w stale hclosed hlt
  have hsized : (sized options bs).length = (lengthLeb options bs.length).length + bs.length :=
    List.length_append
  have hspace := length_lebSpace options 1
  have hle : (lebSpace options 1).length ≤ (lengthLeb options bs.length).length := by
    rw [hspace, lengthLeb]
    split
    · exact length_u32Leb_pos _
    · exact Nat.le_refl 5
  have hguess : 1 ≤ sizeU32Leb128 bs.length := sizeU32Leb128_pos _
  rw [List.length_cons] at hlt
  refine ⟨w.length + 1, ?_⟩
  rw [bind_run, beginKnownSection_run options hcode hclosed (by omega), Option.bind_some, bind_run,
    h _ _ _ (by simp only [List.length_append, List.length_singleton]; omega), Option.bind_some]
  have hroom : (w ++ [UInt8.ofNat sectionCode]).length + (sized options bs).length < maxU32 := by
    rw [List.length_append, List.length_singleton]
    omega
  have hfixup := @writeFixupU32Leb128Size_run options
    { c with lastSectionLebSizeGuess := 1, lastSectionOffset := w.length + 1 }
    (w ++ [UInt8.ofNat sectionCode]) ((stale.drop (1 + (lebSpace options 1).length)).drop bs.length)
    bs 1 hguess hroom
  rw [List.length_append, List.length_singleton, ← List.append_assoc] at hfixup
  rw [endSection_run options Nat.one_ne_zero, Context.put_lastSectionOffset,
    Context.put_lastSectionLebSizeGuess, hfixup, Option.bind_some, List.drop_drop, List.drop_drop,
    List.length_cons, hsized, show 1 + (lebSpace options 1).length + (bs.length +
        ((lengthLeb options bs.length).length - (lebSpace options 1).length)) =
      (lengthLeb options bs.length).length + bs.length + 1 by omega, List.append_assoc]
  simp only [Context.put, hclosed, List.singleton_append]

theorem nil : WritesSections (pure ()) [] := Writes.pure.sections

theorem forM {α : Type} {f : α → WriteM Unit} {g : α → List UInt8} : ∀ {xs : List α},
    (∀ x ∈ xs, WritesSections (f x) (g x)) → WritesSections (xs.forM f) (xs.flatMap g)
  | [], _ => nil
  | x :: xs, h => by
      rw [List.flatMap_cons]
      exact bind (h x List.mem_cons_self) (forM fun y hy => h y (List.mem_cons_of_mem _ hy))

/-- A custom section has its name before the payload. -/
theorem custom (name : List UInt8) (h : Writes m bs) :
    WritesSections (do
      beginCustomSection options name 1
      m
      endSection options) (0 :: sized options (u32Leb name.length ++ name ++ bs)) := by
  have hknown := known options (Nat.zero_le 0xff) ((Writes.str name).bind h)
  rw [show UInt8.ofNat 0 = 0 from rfl] at hknown
  simpa only [beginCustomSection, bind_assoc] using hknown

end WritesSections

/-! ## Any nesting -/

theorem lengthLeb_spec {length : Nat} (h : length < maxU32) :
    LebEncoding (lengthLeb options length) ∧ lebUnsigned (lengthLeb options length) = length := by
  rw [lengthLeb]
  split
  · obtain ⟨-, henc, hvalue⟩ := u32Leb_spec length
    rw [Int.emod_eq_of_lt (by omega) (by omega)] at hvalue
    exact ⟨henc.encoding, by omega⟩
  · obtain ⟨henc, hvalue⟩ := wasmWriteFixedU32Leb128_spec (UInt32.ofNat length)
    rw [UInt32.toNat_ofNat_of_lt' h] at henc hvalue
    exact ⟨henc.encoding, hvalue⟩

/-- Writes one after the other, some of them between the room for their length and the fixup. -/
inductive Payload
  | nil
  | data (bytes : List UInt8) (rest : Payload)
  | sized (payload rest : Payload)

/-- A section with its code, or a custom one with its name. -/
inductive Section
  | known (sectionCode : UInt8) (payload : Payload)
  | custom (name : List UInt8) (payload : Payload)

def Payload.write : Payload → WriteM Unit
  | nil => pure ()
  | data bytes rest => do
    wasmWriteData bytes
    rest.write
  | sized payload rest => do
    let offset ← writeU32Leb128Space options 1
    payload.write
    writeFixupU32Leb128Size options offset 1
    rest.write

/-- The bytes of the payload, each length standing for exactly what it is the length of. -/
def Payload.encode : Payload → List UInt8
  | nil => []
  | data bytes rest => bytes ++ rest.encode
  | sized payload rest => BinaryWriter.sized options payload.encode ++ rest.encode

def Section.write : Section → WriteM Unit
  | known sectionCode payload => do
    beginKnownSection options sectionCode.toNat 1
    payload.write options
    endSection options
  | custom name payload => do
    beginCustomSection options name 1
    payload.write options
    endSection options

def Section.encode : Section → List UInt8
  | known sectionCode payload => sectionCode :: BinaryWriter.sized options (payload.encode options)
  | custom name payload =>
    0 :: BinaryWriter.sized options (u32Leb name.length ++ name ++ payload.encode options)

theorem Payload.writes : ∀ p : Payload, Writes (p.write options) (p.encode options)
  | nil => .pure
  | data bytes rest => (Writes.data bytes).bind rest.writes
  | sized payload rest => by
      have hsized := Writes.sized options payload.writes
      have h := hsized.bind (rest.writes)
      rw [write, encode]
      simpa only [bind_assoc] using h

theorem Section.writes : ∀ s : Section, WritesSections (s.write options) (s.encode options)
  | known sectionCode payload => by
      have h := WritesSections.known options (Nat.le_of_lt_succ sectionCode.toNat_lt)
        (payload.writes options)
      rwa [UInt8.ofNat_toNat] at h
  | custom name payload => .custom options name (payload.writes options)

/-- Behind what the buffer holds, which stays as it is, each length is an encoding of the number
of bytes it stands before. -/
theorem lengths_filled (options : WriteBinaryOptions) (sections : List Section) (c : Context)
    (hend : c.offset = c.buf.length) (hclosed : c.lastSectionLebSizeGuess = 0)
    (hlt : (c.buf ++ sections.flatMap (Section.encode options)).length < maxU32) :
    (∃ c', sections.forM (Section.write options) c = some ((), c') ∧
      c'.buf = c.buf ++ sections.flatMap (Section.encode options) ∧ c'.offset = c'.buf.length) ∧
    ∀ length < maxU32, LebEncoding (lengthLeb options length) ∧
      lebUnsigned (lengthLeb options length) = length := by
  refine ⟨?_, fun length hlength => lengthLeb_spec options hlength⟩
  rw [List.length_append] at hlt
  have hput : c.put c.buf [] = c := by simp [Context.put, ← hend]
  obtain ⟨offset, hrun⟩ := (WritesSections.forM fun s _ => s.writes options) c c.buf [] hclosed hlt
  rw [hput] at hrun
  exact ⟨_, hrun, by simp, by simp⟩

/-- A function body inside the code section. -/
theorem lengths_filled_body : ∃ c', [Section.known 10 (.data [1] (.sized (.data [0, 0x0b] .nil) .nil))].forM
    (Section.write {}) {} = some ((), c') ∧ c'.buf = [10, 4, 1, 2, 0, 0x0b] := by
  obtain ⟨⟨c', hrun, hbuf, -⟩, -⟩ := lengths_filled {}
    [.known 10 (.data [1] (.sized (.data [0, 0x0b] .nil) .nil))] {} rfl rfl (by decide)
  exact ⟨c', hrun, hbuf.trans (by decide)⟩

/-- 4 GiB are given the length 0. -/
theorem write_maxU32 (hlength : payload.length = maxU32) :
    Payload.write { canonicalizeLebs := false } (.sized (.data payload .nil) .nil) {} =
      some ((), ({} : Context).put (wasmWriteFixedU32Leb128 0 ++ payload) []) := by
  have hspace := @writeU32Leb128Space_run { canonicalizeLebs := false } {} [] [] 1 (by decide)
    (by decide)
  have hdata := wasmWriteData_run payload {} (List.replicate 5 0) []
  have hsize : sizeBetween (5 + maxU32) 0 maxU32Leb128Bytes = 0 := by decide
  have hfixup : writeFixupU32Leb128Size { canonicalizeLebs := false } 0 1
      (({} : Context).put (List.replicate 5 0 ++ payload) []) =
        some ((), ({} : Context).put (wasmWriteFixedU32Leb128 0 ++ payload) []) := by
    have hback : Buffer.writeAt 0 (List.replicate 5 0 ++ payload) 0 (wasmWriteFixedU32Leb128 0) =
        wasmWriteFixedU32Leb128 0 ++ payload :=
      (Buffer.writeAt_front 0 [] _ _).trans (by rw [List.nil_append]; rfl)
    simp only [writeFixupU32Leb128Size, bind_run, get_run, Option.bind_some, Context.put_offset,
      List.length_append, List.length_replicate, hlength, hsize]
    rw [if_neg (by decide), wasmWriteFixedU32Leb128At, wasmWriteDataAt, modify_run,
      Context.put_buf, List.append_nil, u32_of_lt (by decide), hback]
    simp [Context.put, hlength, wasmWriteFixedU32Leb128]
  have hstart : ({} : Context) = ({} : Context).put [] [] := rfl
  have hroom : ({} : Context).put ([] ++ lebSpace { canonicalizeLebs := false } 1) (List.drop
      (lebSpace { canonicalizeLebs := false } 1).length []) = ({} : Context).put (List.replicate 5 0) [] :=
    rfl
  rw [List.drop_nil] at hdata
  conv_lhs => rw [hstart]
  simp only [Payload.write, bind_run, hspace, hroom, hdata, Option.bind_some, pure_run,
    List.length_nil, hfixup]

/-- A length that does not fit an `uint32_t` is not the number of bytes it stands before. -/
theorem lengths_filled_fourGiB : ¬∀ (options : WriteBinaryOptions) (payload : List UInt8),
    ∃ c' leb, Payload.write options (.sized (.data payload .nil) .nil) {} = some ((), c') ∧
      LebEncoding leb ∧ lebUnsigned leb = payload.length ∧ c'.buf = leb ++ payload := by
  intro h
  have hlength : (List.replicate maxU32 (0 : UInt8)).length = maxU32 := List.length_replicate
  obtain ⟨c', leb, hrun, -, hvalue, hbuf⟩ :=
    h { canonicalizeLebs := false } (List.replicate maxU32 0)
  generalize List.replicate maxU32 (0 : UInt8) = payload at hlength hrun hvalue hbuf
  rw [write_maxU32 hlength] at hrun
  cases hrun
  obtain rfl : wasmWriteFixedU32Leb128 0 = leb := by
    rw [Context.put_buf, List.append_nil] at hbuf
    exact List.append_cancel_right hbuf
  rw [hlength] at hvalue
  revert hvalue
  decide

end Lengths

end BinaryWriter

end SexprWasm
