import SexprWasm.Allocator.Growth

/-!
# When vectors and output buffers grow

The loops of `ensureCapacity` and `ensureOutputBufferCapacity` double
modulo `2 ^ w`. Where the result is multiplied by an element size of 2 or
more, or every doubling has to be exact, no doubling may wrap around on
the way to it, and the growth is right exactly then.
-/

namespace SexprWasm

namespace Allocator

namespace Growth

open Doubling

variable {realloc : Realloc} {w fuel : Nat}

namespace Realloc

theorem take_old {old new : List UInt8} {size : Nat} (h : realloc.run old size = some new)
    (hle : old.length ≤ size) : new.take old.length = old := by
  have htake := realloc.take_run h
  rwa [Nat.min_eq_right hle, List.take_of_length_le hle] at htake

end Realloc

/-! ## Vectors -/

section vector

variable {v v' : Vector} {desiredSize eltByteSize n : Nat}

/-- What `wasm_ensure_capacity` does beyond the capacity. -/
theorem ensureCapacity_grow (h : v.capacity < desiredSize) :
    ensureCapacity realloc w fuel v desiredSize eltByteSize =
      match newCapacity w fuel v.capacity desiredSize with
      | none => .running
      | some capacity =>
        match realloc.run v.data (capacity * eltByteSize % 2 ^ w) with
        | none => .left
        | some data => .done { v with data, capacity } := if_pos h

theorem ensureCapacity_room (h : desiredSize ≤ v.capacity) :
    ensureCapacity realloc w fuel v desiredSize eltByteSize = .done v := if_neg (Nat.not_lt.mpr h)

theorem ensureCapacity_running_iff :
    ensureCapacity realloc w fuel v desiredSize eltByteSize = .running ↔
      v.capacity < desiredSize ∧ newCapacity w fuel v.capacity desiredSize = none := by
  by_cases h : v.capacity < desiredSize
  · rw [ensureCapacity_grow h]
    cases newCapacity w fuel v.capacity desiredSize with
    | none => simp [h]
    | some capacity =>
      generalize hreply : realloc.run v.data (capacity * eltByteSize % 2 ^ w) = reply
      cases reply <;> simp [hreply]
  · rw [ensureCapacity_room (Nat.not_lt.mp h)]
    simp [h]

theorem ensureCapacity_done (h : v.capacity < desiredSize)
    (hdone : ensureCapacity realloc w fuel v desiredSize eltByteSize = .done v') :
    ∃ capacity data, newCapacity w fuel v.capacity desiredSize = some capacity ∧
      realloc.run v.data (capacity * eltByteSize % 2 ^ w) = some data ∧
      v' = { v with data, capacity } := by
  rw [ensureCapacity_grow h] at hdone
  split at hdone
  · cases hdone
  · rename_i capacity hcapacity
    split at hdone
    · cases hdone
    · rename_i data hdata
      cases hdone
      exact ⟨capacity, data, hcapacity, hdata, rfl⟩

/-- The loop starts with the first capacity. -/
theorem newCapacity_eq (hw : 3 < w) (c : Nat) :
    newCapacity w fuel c desiredSize = double (2 ^ w) desiredSize fuel (firstCapacity c % 2 ^ w) := by
  have h8 : 2 ^ 3 < 2 ^ w := Nat.pow_lt_pow_right (by decide) hw
  unfold newCapacity firstCapacity
  by_cases hc : c = 0
  · rw [if_neg (not_not.mpr hc), if_pos hc, initialVectorCapacity, Nat.mod_eq_of_lt (by omega)]
  · rw [if_pos hc, if_neg hc]

theorem newCapacity_eq_some (hw : 3 < w) {c : Nat} :
    newCapacity w fuel c desiredSize = some n ↔
      ∃ k < fuel, First (wrapped (2 ^ w) (firstCapacity c)) desiredSize k ∧
        n = wrapped (2 ^ w) (firstCapacity c) k := by
  rw [newCapacity_eq hw, double_mod_eq_some (Nat.two_pow_pos w)]

theorem terminates_iff (hw : 3 < w) (h : v.capacity < desiredSize) :
    (∃ fuel, ensureCapacity realloc w fuel v desiredSize eltByteSize ≠ .running) ↔
      ∃ k, desiredSize ≤ wrapped (2 ^ w) (firstCapacity v.capacity) k := by
  rw [← exists_double_iff (Nat.two_pow_pos w)]
  refine exists_congr fun fuel => ?_
  rw [Ne, ensureCapacity_running_iff, newCapacity_eq hw, not_and, Option.eq_none_iff_forall_ne_some]
  simp [h]

/-- For elements of 2 bytes and more: the loop ends and its result can be multiplied if and only
if the first doubling that is large enough can be multiplied. -/
theorem exact_iff (hw : 3 < w) {c : Nat} (hc : c < desiredSize) (he : 1 < eltByteSize) :
    (∃ k, First (wrapped (2 ^ w) (firstCapacity c)) desiredSize k ∧
        wrapped (2 ^ w) (firstCapacity c) k * eltByteSize < 2 ^ w) ↔
      ∃ k, First (firstCapacity c * 2 ^ ·) desiredSize k ∧
        firstCapacity c * 2 ^ k * eltByteSize < 2 ^ w := by
  have h8 : 2 ^ 3 < 2 ^ w := Nat.pow_lt_pow_right (by decide) hw
  refine exists_congr fun k => ?_
  constructor
  · rintro ⟨hfirst, hlt⟩
    have hmul := Nat.mul_le_mul_left (wrapped (2 ^ w) (firstCapacity c) k) he
    have hreached := hfirst.reached
    have hstart : firstCapacity c < 2 ^ w := by
      unfold firstCapacity
      split_ifs
      · exact h8
      · omega
    have hbelow : firstCapacity c * 2 ^ k < 2 ^ w := lt_of_before hstart fun j hj => by
      have hbefore := hfirst.before j hj
      omega
    rw [wrapped_of_lt hbelow] at hlt
    exact ⟨(first_wrapped_iff hbelow).mp hfirst, hlt⟩
  · rintro ⟨hfirst, hlt⟩
    have hbelow := (Nat.le_mul_of_pos_right _ (by omega)).trans_lt hlt
    rw [wrapped_of_lt hbelow]
    exact ⟨(first_wrapped_iff hbelow).mpr hfirst, hlt⟩

/-- A block that is not cut is as long as its capacity says and starts with the old one. -/
theorem grown_of_lt (hv : v.data.length = v.capacity * eltByteSize)
    (hexact : v.capacity < desiredSize → ∀ fuel capacity,
      newCapacity w fuel v.capacity desiredSize = some capacity → capacity * eltByteSize < 2 ^ w)
    (hw : 3 < w) (hdone : ensureCapacity realloc w fuel v desiredSize eltByteSize = .done v') :
    desiredSize ≤ v'.capacity ∧ v'.data.length = v'.capacity * eltByteSize ∧
      v'.data.take v.data.length = v.data ∧ v'.size = v.size := by
  rcases Nat.lt_or_ge v.capacity desiredSize with h | h
  · obtain ⟨capacity, data, hcapacity, hdata, rfl⟩ := ensureCapacity_done h hdone
    rw [Nat.mod_eq_of_lt (hexact h fuel capacity hcapacity)] at hdata
    obtain ⟨k, -, hfirst, rfl⟩ := (newCapacity_eq_some hw).mp hcapacity
    have hroom := hfirst.reached
    have hle : v.data.length ≤ wrapped (2 ^ w) (firstCapacity v.capacity) k * eltByteSize :=
      hv.trans_le (Nat.mul_le_mul_right _ (h.le.trans hroom))
    exact ⟨hroom, realloc.length_run hdata, Realloc.take_old hdata hle, rfl⟩
  · rw [ensureCapacity_room h] at hdone
    cases hdone
    exact ⟨h, hv, List.take_length, rfl⟩

theorem vectorGrows_iff (hw : 3 < w) (hv : v.data.length = v.capacity * eltByteSize) :
    VectorGrows realloc w v desiredSize eltByteSize ↔
      VectorFits w v.capacity desiredSize eltByteSize := by
  have hiff : VectorGrows realloc w v desiredSize eltByteSize ↔
      (∃ fuel, ensureCapacity realloc w fuel v desiredSize eltByteSize ≠ .running) ∧
        (v.capacity < desiredSize → ∀ fuel capacity,
          newCapacity w fuel v.capacity desiredSize = some capacity →
            capacity * eltByteSize < 2 ^ w) :=
    ⟨fun h => ⟨h.terminates, h.exact⟩,
      fun h => ⟨h.1, h.2, fun fuel v' hdone => grown_of_lt hv h.2 hw hdone⟩⟩
  rw [hiff]
  unfold VectorFits
  rcases Nat.lt_or_ge v.capacity desiredSize with h | h
  · rw [terminates_iff hw h, or_iff_right (Nat.not_le.mpr h)]
    simp only [h, true_implies, newCapacity_eq_some hw]
    split_ifs with he
    · refine and_iff_left ?_
      rintro fuel capacity ⟨k, -, -, rfl⟩
      have hlt : wrapped (2 ^ w) (firstCapacity v.capacity) k < 2 ^ w :=
        Nat.mod_lt _ (Nat.two_pow_pos w)
      exact (mul_le_of_le_one_right (Nat.zero_le _) he).trans_lt hlt
    · rw [← exact_iff hw h (Nat.not_le.mp he)]
      constructor
      · rintro ⟨hreached, hexact⟩
        obtain ⟨k, hfirst⟩ := exists_first hreached
        exact ⟨k, hfirst, hexact (k + 1) _ ⟨k, Nat.lt_succ_self k, hfirst, rfl⟩⟩
      · rintro ⟨k, hfirst, hlt⟩
        refine ⟨⟨k, hfirst.reached⟩, ?_⟩
        rintro fuel capacity ⟨k', -, hfirst', rfl⟩
        rwa [hfirst'.eq hfirst]
  · refine iff_of_true ⟨⟨0, ?_⟩, fun hlt => absurd hlt (Nat.not_lt.mpr h)⟩ (.inl h)
    rw [ensureCapacity_room h]
    nofun

theorem zeroBytes_spec (data : List UInt8) {offset m : Nat} (h : offset + m ≤ data.length) :
    (zeroBytes data offset m).take offset = data.take offset ∧
      ((zeroBytes data offset m).drop offset).take m = List.replicate m 0 := by
  have hlen : (data.take offset).length = offset := List.length_take_of_le (by omega)
  unfold zeroBytes
  rw [List.append_assoc]
  constructor
  · rw [List.take_append_of_le_length hlen.ge, List.take_take, Nat.min_self]
  · rw [List.drop_append_of_le_length hlen.ge, List.drop_take_self, List.nil_append,
      List.take_append_of_le_length (by simp), List.take_of_length_le (by simp)]

/-- A vector that grows as it should keeps its elements when it is resized, and the new ones are
zero. -/
theorem resizeVector_done (hw : 3 < w) (hv : v.data.length = v.capacity * eltByteSize)
    (hbytes : v.data.length < 2 ^ w) (hsize : v.size ≤ v.capacity) (hle : v.size ≤ desiredSize)
    (hfits : VectorFits w v.capacity desiredSize eltByteSize)
    (hdone : resizeVector realloc w fuel v desiredSize eltByteSize = .done v') :
    v'.size = desiredSize ∧ v'.data.take (v.size * eltByteSize) = v.data.take (v.size * eltByteSize) ∧
      (v'.data.drop (v.size * eltByteSize)).take ((desiredSize - v.size) * eltByteSize) =
        List.replicate ((desiredSize - v.size) * eltByteSize) 0 := by
  have hgrows : VectorGrows realloc w v desiredSize eltByteSize := (vectorGrows_iff hw hv).mpr hfits
  unfold resizeVector at hdone
  generalize hensure : ensureCapacity realloc w fuel v desiredSize eltByteSize = result at hdone
  cases result with
  | done v₁ =>
    obtain ⟨hroom, hlen, hkept, -⟩ := hgrows.grown fuel v₁ hensure
    have hlt : v₁.data.length < 2 ^ w := by
      rcases Nat.lt_or_ge v.capacity desiredSize with h | h
      · obtain ⟨capacity, data, hcapacity, -, rfl⟩ := ensureCapacity_done h hensure
        exact hlen.trans_lt (hgrows.exact h fuel capacity hcapacity)
      · rw [ensureCapacity_room h] at hensure
        cases hensure
        exact hbytes
    have hold : v.size * eltByteSize ≤ v.data.length :=
      (Nat.mul_le_mul_right _ hsize).trans hv.ge
    have hnew : v.size * eltByteSize + (desiredSize - v.size) * eltByteSize ≤ v₁.data.length := by
      rw [← Nat.add_mul, Nat.add_sub_cancel' hle, hlen]
      exact Nat.mul_le_mul_right _ hroom
    have htake : v₁.data.take (v.size * eltByteSize) = v.data.take (v.size * eltByteSize) := by
      rw [← hkept, List.take_take, Nat.min_eq_left hold]
    obtain ⟨hbefore, hzero⟩ := zeroBytes_spec v₁.data hnew
    simp only [Result.bind, Result.done.injEq] at hdone
    subst hdone
    by_cases h : v.size < desiredSize
    · simp only [if_pos h, Nat.mod_eq_of_lt (lt_of_le_of_lt (Nat.le_add_right _ _) (hnew.trans_lt hlt)),
        Nat.mod_eq_of_lt (lt_of_le_of_lt (Nat.le_add_left _ _) (hnew.trans_lt hlt))]
      exact ⟨trivial, hbefore.trans htake, hzero⟩
    · have heq : desiredSize - v.size = 0 := by omega
      simp only [if_neg h, heq, Nat.zero_mul, List.take_zero, List.replicate_zero]
      exact ⟨trivial, htake, trivial⟩
  | left | assertion | running => cases hdone

end vector

/-! ## Output buffers -/

section buffer

variable {buf buf' : OutputBuffer} {size n : Nat}

theorem ensureOutputBufferCapacity_grow (h : buf.capacity < size) (hpos : buf.capacity ≠ 0) :
    ensureOutputBufferCapacity realloc w fuel buf size =
      match newBufferCapacity w fuel buf.capacity size with
      | none => .running
      | some capacity =>
        match realloc.run buf.start capacity with
        | none => .left
        | some start => .done { buf with start, capacity } :=
  (if_pos h).trans (if_pos hpos)

theorem ensureOutputBufferCapacity_room (h : size ≤ buf.capacity) :
    ensureOutputBufferCapacity realloc w fuel buf size = .done buf := if_neg (Nat.not_lt.mpr h)

theorem newBufferCapacity_eq_some :
    newBufferCapacity w fuel buf.capacity size = some n ↔
      ∃ k < fuel, First (wrapped (2 ^ w) (buf.capacity * 2)) size k ∧
        n = wrapped (2 ^ w) (buf.capacity * 2) k := double_mod_eq_some (Nat.two_pow_pos w)

theorem ensureOutputBufferCapacity_running_iff (h : buf.capacity < size)
    (hpos : buf.capacity ≠ 0) :
    ensureOutputBufferCapacity realloc w fuel buf size = .running ↔
      newBufferCapacity w fuel buf.capacity size = none := by
  rw [ensureOutputBufferCapacity_grow h hpos]
  cases newBufferCapacity w fuel buf.capacity size with
  | none => simp
  | some capacity =>
    generalize hreply : realloc.run buf.start capacity = reply
    cases reply <;> simp [hreply]

theorem ensureOutputBufferCapacity_done (h : buf.capacity < size)
    (hdone : ensureOutputBufferCapacity realloc w fuel buf size = .done buf') :
    ∃ capacity start, newBufferCapacity w fuel buf.capacity size = some capacity ∧
      realloc.run buf.start capacity = some start ∧ buf' = { buf with start, capacity } := by
  rw [ensureOutputBufferCapacity, if_pos h] at hdone
  split_ifs at hdone
  split at hdone
  · cases hdone
  · rename_i capacity hcapacity
    split at hdone
    · cases hdone
    · rename_i start hstart
      cases hdone
      exact ⟨capacity, start, hcapacity, hstart, rfl⟩

theorem bufferGrown (hbuf : buf.start.length = buf.capacity)
    (hdone : ensureOutputBufferCapacity realloc w fuel buf size = .done buf') :
    size ≤ buf'.capacity ∧ buf'.start.length = buf'.capacity ∧
      buf'.start.take buf.start.length = buf.start ∧ buf'.size = buf.size := by
  rcases Nat.lt_or_ge buf.capacity size with h | h
  · obtain ⟨capacity, start, hcapacity, hstart, rfl⟩ := ensureOutputBufferCapacity_done h hdone
    obtain ⟨k, -, hfirst, rfl⟩ := newBufferCapacity_eq_some.mp hcapacity
    have hroom := hfirst.reached
    exact ⟨hroom, realloc.length_run hstart,
      Realloc.take_old hstart (hbuf.trans_le (h.le.trans hroom)), rfl⟩
  · rw [ensureOutputBufferCapacity_room h] at hdone
    cases hdone
    exact ⟨h, hbuf, List.take_length, rfl⟩

/-- The multiplications of `ensure_output_buffer_capacity` are those of the loop started one turn
earlier. -/
theorem bufferFactors_eq (h : buf.capacity < size) :
    bufferFactors w fuel buf.capacity size = doubled (2 ^ w) size (fuel + 1) buf.capacity := by
  rw [bufferFactors, if_pos h, doubled, if_pos h]

theorem bufferFactors_exact_iff {k : Nat} (hcap : buf.capacity < 2 ^ w) (h : buf.capacity < size)
    (hfirst : First (wrapped (2 ^ w) (buf.capacity * 2)) size k) :
    (∀ fuel, ∀ n ∈ bufferFactors w fuel buf.capacity size, n * 2 < 2 ^ w) ↔
      buf.capacity * 2 * 2 ^ k < 2 ^ w := by
  have hfirst' : First (wrapped (2 ^ w) buf.capacity) size (k + 1) :=
    (first_succ_iff hcap).mpr ⟨h, wrapped_mod.symm ▸ hfirst⟩
  have hpow : buf.capacity * 2 * 2 ^ k = buf.capacity * 2 ^ (k + 1) := by
    rw [pow_succ', Nat.mul_assoc]
  rw [hpow, ← doubled_exact_iff hcap hfirst']
  constructor
  · rintro hexact (_ | fuel)
    · nofun
    · rw [← bufferFactors_eq h]
      exact hexact fuel
  · intro hexact fuel
    rw [bufferFactors_eq h]
    exact hexact (fuel + 1)

theorem bufferGrows_iff (hbuf : buf.start.length = buf.capacity) (hcap : buf.capacity < 2 ^ w) :
    BufferGrows realloc w buf size ↔ BufferFits w buf.capacity size := by
  unfold BufferFits
  rcases Nat.lt_or_ge buf.capacity size with h | h
  · rw [or_iff_right (Nat.not_le.mpr h)]
    constructor
    · rintro ⟨⟨fuel, hrun, hassert⟩, hexact, -⟩
      have hpos : buf.capacity ≠ 0 := by
        intro hzero
        rw [ensureOutputBufferCapacity, if_pos h, if_neg (not_not.mpr hzero)] at hassert
        exact hassert rfl
      rw [Ne, ensureOutputBufferCapacity_running_iff h hpos] at hrun
      obtain ⟨n, hn⟩ := Option.ne_none_iff_exists'.mp hrun
      obtain ⟨k, -, hfirst, -⟩ := newBufferCapacity_eq_some.mp hn
      have hlt := (bufferFactors_exact_iff hcap h hfirst).mp hexact
      exact ⟨hpos, k, (first_wrapped_iff hlt).mp hfirst, hlt⟩
    · rintro ⟨hpos, k, hfirst, hlt⟩
      have hfirst' := (first_wrapped_iff hlt).mpr hfirst
      refine ⟨⟨k + 1, ?_, ?_⟩, (bufferFactors_exact_iff hcap h hfirst').mpr hlt,
        fun fuel buf' hdone => bufferGrown hbuf hdone⟩
      · rw [Ne, ensureOutputBufferCapacity_running_iff h hpos]
        exact Option.ne_none_iff_exists'.mpr
          ⟨_, newBufferCapacity_eq_some.mpr ⟨k, Nat.lt_succ_self k, hfirst', rfl⟩⟩
      · rw [ensureOutputBufferCapacity_grow h hpos]
        split
        · nofun
        · split <;> nofun
  · refine iff_of_true ⟨⟨0, ?_⟩, fun fuel n hn => ?_, fun fuel buf' hdone => bufferGrown hbuf hdone⟩
      (.inl h)
    · rw [ensureOutputBufferCapacity_room h]
      constructor <;> nofun
    · rw [bufferFactors, if_neg (Nat.not_lt.mpr h)] at hn
      cases hn

end buffer

/-! ## Both -/

/-- A vector whose block has its capacity, and a buffer whose block has its capacity, grow as they
should if and only if the first doubling that is large enough fits. -/
theorem grows_iff (realloc : Realloc) (w : Nat) (hw : 3 < w) (v : Vector) (buf : OutputBuffer)
    (desiredSize eltByteSize size : Nat) (hv : v.data.length = v.capacity * eltByteSize)
    (hbuf : buf.start.length = buf.capacity) (hcap : buf.capacity < 2 ^ w) :
    (VectorGrows realloc w v desiredSize eltByteSize ↔
        VectorFits w v.capacity desiredSize eltByteSize) ∧
      (BufferGrows realloc w buf size ↔ BufferFits w buf.capacity size) :=
  ⟨vectorGrows_iff hw hv, bufferGrows_iff hbuf hcap⟩

/-- New bytes are zero. -/
def Realloc.zeroed : Realloc where
  run old size := some (old.take size ++ List.replicate (size - old.length) 0)
  length_run := by
    rintro old new size ⟨⟩
    simp only [List.length_append, List.length_take, List.length_replicate]
    omega
  take_run := by
    rintro old new size ⟨⟩
    rw [List.take_append_of_le_length (by simp), List.take_take, List.take_eq_take_iff]
    omega

theorem grows_iff_small :
    (VectorGrows .zeroed 32 {} 9 4 ↔ VectorFits 32 0 9 4) ∧
      (BufferGrows .zeroed 32 { start := [0], capacity := 1 } 3 ↔ BufferFits 32 1 3) :=
  grows_iff .zeroed 32 (by decide) {} { start := [0], capacity := 1 } 9 4 3 rfl rfl (by decide)

/-- Where `size_t` has 32 bits, an empty vector that is asked for `2 ^ 31 + 1` elements doubles its
capacity to 0 and then for ever. -/
theorem vector_runs : ¬ VectorGrows .zeroed 32 {} (2 ^ 31 + 1) 4 := by
  intro hgrows
  obtain ⟨k, hk⟩ := (terminates_iff (by decide) (by decide)).mp hgrows.terminates
  have hwrapped : wrapped (2 ^ 32) (firstCapacity 0) k = 8 * 2 ^ k % 2 ^ 32 := rfl
  rw [hwrapped] at hk
  rcases Nat.lt_or_ge k 29 with hlt | hge
  · have hle : 8 * 2 ^ k ≤ 8 * 2 ^ 28 := pow_mul_le (Nat.le_of_lt_succ hlt)
    omega
  · obtain ⟨j, rfl⟩ := Nat.exists_eq_add_of_le hge
    rw [pow_add] at hk
    omega

end Growth

end Allocator

end SexprWasm
