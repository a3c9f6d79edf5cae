import Mathlib.Data.List.Basic
import Mathlib.Tactic.Ring

/-!
# Buffers that are written in place

A buffer grows at its end and may be patched anywhere. `window` reads a
range; a write shows in the window it fills (`window_writeAt_self`) and
in no window apart from it (`window_writeAt_of_apart`). Numbers are
stored with the low byte first.
-/

namespace SexprWasm

namespace Buffer

variable {α : Type}

/-- Write `data` at `offset`; a gap before it is filled with `fill`. -/
def writeAt (fill : α) (buf : List α) (offset : Nat) (data : List α) : List α :=
  buf.take offset ++ List.replicate (offset - buf.length) fill ++ data ++
    buf.drop (offset + data.length)

def window (buf : List α) (offset size : Nat) : List α := (buf.drop offset).take size

theorem length_writeAt (fill : α) (buf : List α) (offset : Nat) (data : List α) :
    (writeAt fill buf offset data).length = max buf.length (offset + data.length) := by
  simp only [writeAt, List.length_append, List.length_take, List.length_replicate,
    List.length_drop]
  omega

theorem writeAt_length (fill : α) (buf data : List α) :
    writeAt fill buf buf.length data = buf ++ data := by
  simp [writeAt, List.drop_eq_nil_of_le]

/-- A write replaces the part of the buffer that it fills. -/
theorem writeAt_append {fill : α} {front part back data : List α} {offset : Nat}
    (hoffset : offset = front.length) (hlength : data.length = part.length) :
    writeAt fill (front ++ (part ++ back)) offset data = front ++ (data ++ back) := by
  subst hoffset
  rw [writeAt, List.take_left, List.length_append, Nat.sub_eq_zero_of_le (by omega),
    List.replicate_zero, List.append_nil, hlength, ← List.drop_drop, List.drop_left,
    List.drop_left, List.append_assoc]

/-- A write at the end of `front` goes over what stands behind it. -/
theorem writeAt_front (fill : α) (front back data : List α) :
    writeAt fill (front ++ back) front.length data = front ++ (data ++ back.drop data.length) := by
  have hdrop : (front ++ back).drop (front.length + data.length) = back.drop data.length := by
    rw [← List.drop_drop, List.drop_left]
  rw [writeAt, List.take_left, List.length_append, Nat.sub_eq_zero_of_le (by omega), hdrop]
  simp

theorem writeAt_behind (fill : α) (front back data : List α) (offset : Nat) :
    writeAt fill (front ++ back) (front.length + offset) data =
      front ++ writeAt fill back offset data := by
  simp only [writeAt, List.length_append, List.append_assoc, List.take_length_add_append,
    List.drop_length_add_append, Nat.add_assoc, Nat.add_sub_add_left]

theorem drop_writeAt (fill : α) (buf : List α) (offset : Nat) (data : List α) :
    (writeAt fill buf offset data).drop offset = data ++ buf.drop (offset + data.length) := by
  have hlen : (buf.take offset ++ List.replicate (offset - buf.length) fill).length = offset := by
    simp only [List.length_append, List.length_take, List.length_replicate]
    omega
  rw [writeAt, List.append_assoc, List.drop_left' hlen]

theorem window_front (front back : List α) (size : Nat) :
    window (front ++ back) front.length size = back.take size := by
  rw [window, List.drop_left]

theorem writeAt_nil {fill : α} {buf : List α} {offset : Nat} (h : offset ≤ buf.length) :
    writeAt fill buf offset [] = buf := by
  simp [writeAt, Nat.sub_eq_zero_of_le h]

theorem getElem?_writeAt_of_lt {fill : α} {buf : List α} {offset i : Nat} {data : List α}
    (h : offset ≤ buf.length) (hi : i < offset) :
    (writeAt fill buf offset data)[i]? = buf[i]? := by
  have hlen : (buf.take offset).length = offset := by
    rw [List.length_take]
    omega
  rw [writeAt, Nat.sub_eq_zero_of_le h, List.replicate_zero, List.append_nil, List.append_assoc,
    List.getElem?_append_left (by omega), List.getElem?_take, if_pos hi]

theorem getElem?_writeAt_inside {fill : α} {buf : List α} {offset i : Nat} {data : List α}
    (h : offset ≤ buf.length) (hi : i < data.length) :
    (writeAt fill buf offset data)[offset + i]? = data[i]? := by
  have hlen : (buf.take offset).length = offset := by
    rw [List.length_take]
    omega
  rw [writeAt, Nat.sub_eq_zero_of_le h, List.replicate_zero, List.append_nil, List.append_assoc,
    List.getElem?_append_right (by omega), hlen, Nat.add_sub_cancel_left,
    List.getElem?_append_left hi]

theorem getElem?_writeAt_of_le {fill : α} {buf : List α} {offset i : Nat} {data : List α}
    (h : offset ≤ buf.length) (hi : offset + data.length ≤ i) :
    (writeAt fill buf offset data)[i]? = buf[i]? := by
  have hlen : (buf.take offset).length = offset := by
    rw [List.length_take]
    omega
  rw [writeAt, Nat.sub_eq_zero_of_le h, List.replicate_zero, List.append_nil, List.append_assoc,
    List.getElem?_append_right (by omega), hlen, List.getElem?_append_right (by omega),
    List.getElem?_drop]
  congr 1
  omega

theorem getElem?_window {buf : List α} {offset size i : Nat} (hi : i < size) :
    (window buf offset size)[i]? = buf[offset + i]? := by
  rw [window, List.getElem?_take, if_pos hi, List.getElem?_drop]

/-- Writing what is there changes nothing. -/
theorem writeAt_window {fill : α} {buf : List α} {offset size : Nat}
    (h : offset + size ≤ buf.length) :
    writeAt fill buf offset (window buf offset size) = buf := by
  have hlen : (window buf offset size).length = size := by
    simp only [window, List.length_take, List.length_drop]
    omega
  rw [writeAt, hlen, Nat.sub_eq_zero_of_le (by omega), List.replicate_zero, List.append_nil,
    window, List.append_assoc, ← List.drop_drop, List.take_append_drop, List.take_append_drop]

/-- A write leaves a prefix it does not reach into. -/
theorem prefix_writeAt {fill : α} {before buf data : List α} {offset : Nat}
    (h : before <+: buf) (hoff : before.length ≤ offset) :
    before <+: writeAt fill buf offset data := by
  have htake : before <+: buf.take offset := List.prefix_take_iff.mpr ⟨h, hoff⟩
  rw [writeAt, List.append_assoc, List.append_assoc]
  exact htake.trans (List.prefix_append ..)

theorem length_window_le (buf : List α) (offset size : Nat) :
    (window buf offset size).length ≤ size := by
  simp only [window, List.length_take]
  omega

/-- Windows are equal if the buffers agree on them. -/
theorem window_congr {buf buf' : List α} {offset size : Nat}
    (h : ∀ i, i < size → buf[offset + i]? = buf'[offset + i]?) :
    window buf offset size = window buf' offset size := by
  apply List.ext_getElem?
  intro i
  by_cases hi : i < size
  · rw [getElem?_window hi, getElem?_window hi, h i hi]
  · have h₁ := length_window_le buf offset size
    have h₂ := length_window_le buf' offset size
    rw [List.getElem?_eq_none (by omega), List.getElem?_eq_none (by omega)]

theorem window_writeAt_self {fill : α} {buf : List α} {offset : Nat} {data : List α}
    (h : offset ≤ buf.length) :
    window (writeAt fill buf offset data) offset data.length = data := by
  apply List.ext_getElem?
  intro i
  by_cases hi : i < data.length
  · rw [getElem?_window hi, getElem?_writeAt_inside h hi]
  · have h₁ := length_window_le (writeAt fill buf offset data) offset data.length
    rw [List.getElem?_eq_none (by omega), List.getElem?_eq_none (by omega)]

theorem window_writeAt_of_apart {fill : α} {buf : List α} {offset o size : Nat} {data : List α}
    (h : offset ≤ buf.length) (happart : o + size ≤ offset ∨ offset + data.length ≤ o) :
    window (writeAt fill buf offset data) o size = window buf o size := by
  apply window_congr
  intro i hi
  rcases happart with hbefore | hafter
  · exact getElem?_writeAt_of_lt h (by omega)
  · exact getElem?_writeAt_of_le h (by omega)

/-- A window in two parts. -/
theorem window_add (buf : List α) (offset size rest : Nat) :
    window buf offset (size + rest) = window buf offset size ++ window buf (offset + size) rest := by
  rw [window, window, window, List.take_add, List.drop_drop]

theorem take_window {buf : List α} {offset size n : Nat} (h : n ≤ size) :
    (window buf offset size).take n = window buf offset n := by
  rw [window, window, List.take_take, Nat.min_eq_left h]

theorem drop_window (buf : List α) (offset size rest : Nat) :
    (window buf offset (size + rest)).drop size = window buf (offset + size) rest := by
  rw [window, window, List.drop_take, Nat.add_sub_cancel_left, List.drop_drop]

/-! ## Numbers -/

/-- The low `size` bytes of `n`, lowest first. -/
def leBytes : Nat → Nat → List UInt8
  | 0, _ => []
  | size + 1, n => UInt8.ofNat n :: leBytes size (n / 256)

def ofLeBytes : List UInt8 → Nat
  | [] => 0
  | b :: bs => b.toNat + 256 * ofLeBytes bs

@[simp] theorem length_leBytes : ∀ size n : Nat, (leBytes size n).length = size
  | 0, _ => rfl
  | size + 1, n => by rw [leBytes, List.length_cons, length_leBytes]

theorem ofLeBytes_leBytes : ∀ size n : Nat, ofLeBytes (leBytes size n) = n % 256 ^ size
  | 0, n => by simp [leBytes, ofLeBytes, Nat.mod_one]
  | size + 1, n => by
      have hbyte : (UInt8.ofNat n).toNat = n % 256 := by simp
      rw [leBytes, ofLeBytes, ofLeBytes_leBytes size, hbyte, Nat.pow_succ', Nat.mod_mul]

theorem take_leBytes : ∀ {size n : Nat} (v : Nat), n ≤ size →
    (leBytes size v).take n = leBytes n v
  | _, 0, _, _ => by rw [List.take_zero, leBytes]
  | size + 1, n + 1, v, h => by
      rw [leBytes, leBytes, List.take_succ_cons, take_leBytes (v / 256) (Nat.le_of_succ_le_succ h)]

theorem ofLeBytes_append : ∀ bs cs : List UInt8,
    ofLeBytes (bs ++ cs) = ofLeBytes bs + 256 ^ bs.length * ofLeBytes cs
  | [], cs => by simp [ofLeBytes]
  | b :: bs, cs => by
      rw [List.cons_append, ofLeBytes, ofLeBytes, ofLeBytes_append bs, List.length_cons,
        Nat.pow_succ']
      ring

theorem ofLeBytes_lt : ∀ bs : List UInt8, ofLeBytes bs < 256 ^ bs.length
  | [] => Nat.one_pos
  | b :: bs => by
      have hb := b.toNat_lt
      have hlt := ofLeBytes_lt bs
      rw [ofLeBytes, List.length_cons, Nat.pow_succ']
      omega

theorem leBytes_injective {size n n' : Nat} (hn : n < 256 ^ size) (hn' : n' < 256 ^ size)
    (h : leBytes size n = leBytes size n') : n = n' := by
  have hmod := congrArg ofLeBytes h
  rwa [ofLeBytes_leBytes, ofLeBytes_leBytes, Nat.mod_eq_of_lt hn, Nat.mod_eq_of_lt hn'] at hmod

end Buffer

end SexprWasm
