import SexprWasm.Interpreter.MachineSound

/-!
# Growing a memory

`WASM_OPCODE_GROW_MEMORY` adds the pages as 32 bits and compares the sum
with the limit afterwards. A sum below `2 ^ 32` is what it should be;
one that wraps around is that of a smaller memory, which the code takes
for a larger one if it is within the limit (`growMemory_grows_iff`).
-/

namespace SexprWasm

namespace Interpreter

/-- The bytes are what the pages ask for, also where 65536 pages are 0 bytes. -/
structure Memory.WellFormed (memory : Memory) : Prop where
  initial_le : memory.pageLimits.initial ≤ wasmMaxPages
  max_le : memory.pageLimits.hasMax = true → memory.pageLimits.max ≤ wasmMaxPages
  byteSize_eq : memory.byteSize = u32 (memory.pageLimits.initial * wasmPageSize)
  length_eq : memory.data.length = memory.byteSize

/-- What a memory may grow to. -/
def Memory.maxPages (memory : Memory) : Nat :=
  if memory.pageLimits.hasMax then memory.pageLimits.max else wasmMaxPages

theorem Memory.WellFormed.maxPages_le {memory : Memory} (h : memory.WellFormed) :
    memory.maxPages ≤ wasmMaxPages := by
  rw [Memory.maxPages]
  split
  · rename_i hmax
    exact h.max_le hmax
  · exact le_rfl

/-- `grow` pages of zeros more. -/
def Memory.grown (memory : Memory) (grow : Nat) : Memory where
  pageLimits := { memory.pageLimits with initial := memory.pageLimits.initial + grow }
  byteSize := (memory.pageLimits.initial + grow) * wasmPageSize
  data := memory.data ++ List.replicate (grow * wasmPageSize) 0

/-- The memory can grow: within its limit, to a size of 32 bits, and there is room. -/
def Memory.CanGrow (p : Platform) (memory : Memory) (grow : Nat) : Prop :=
  memory.pageLimits.initial + grow ≤ memory.maxPages ∧
  (memory.pageLimits.initial + grow) * wasmPageSize < 2 ^ 32 ∧
  (p.realloc memory.data ((memory.pageLimits.initial + grow) * wasmPageSize)).isSome = true

/-- The sum of the pages exceeds 32 bits, and what is left of it is taken for a size. -/
def Memory.GrowWraps (p : Platform) (memory : Memory) (grow : Nat) : Prop :=
  2 ^ 32 ≤ memory.pageLimits.initial + grow ∧
  memory.pageLimits.initial + grow - 2 ^ 32 ≤ memory.maxPages ∧
  (p.realloc memory.data
    ((memory.pageLimits.initial + grow - 2 ^ 32) * wasmPageSize)).isSome = true

/-- What `realloc` is documented to do. -/
structure Platform.Reallocates (p : Platform) : Prop where
  length : ∀ {data size newData}, p.realloc data size = some newData → newData.length = size
  kept : ∀ {data size newData}, p.realloc data size = some newData →
    newData.take data.length = data.take size

namespace Machine

open Callback

def putMemory (m : Machine) (index : Nat) (memory : Memory) : Machine :=
  { m with env := { m.env with memories := m.env.memories.set index memory } }

variable {p : Platform} {m m' : Machine} {vs : List Nat} {a index grow : Nat} {memory : Memory}

@[simp] theorem setMemory_run : setMemory index memory m = .ok () (m.putMemory index memory) := rfl

theorem getMemory_eq_ok (h : getMemory m = .ok (index, memory) m') :
    m' = { m with pc := m.pc + 4 } ∧ m.env.memories[index]? = some memory := by
  obtain ⟨_, m₁, hread, h⟩ := bind_eq_ok.mp h
  obtain ⟨_, m₂, hget, h⟩ := bind_eq_ok.mp h
  cases hget
  obtain ⟨_, m₃, hat, h⟩ := bind_eq_ok.mp h
  obtain ⟨hmemory, rfl⟩ := orAbort_eq_ok.mp hat
  cases h
  obtain ⟨_, m₄, hget, h⟩ := bind_eq_ok.mp hread
  cases hget
  obtain ⟨_, m₅, hassert, h⟩ := bind_eq_ok.mp h
  obtain ⟨-, rfl⟩ := assert_eq_ok.mp hassert
  cases h
  exact ⟨rfl, hmemory⟩

theorem Holds.of_getMemory (h : m.Holds vs) (hmem : getMemory m = .ok (index, memory) m') :
    m'.Holds vs := by
  rw [(getMemory_eq_ok hmem).1]
  exact ⟨h.top_eq, h.entries⟩

/-- The old number of pages is pushed and the memory has grown, or -1 is and nothing has changed. -/
def GrowsMemory (p : Platform) (m : Machine) (index : Nat) (memory : Memory) (height grow : Nat)
    (out : Outcome Machine Unit) : Prop :=
  (memory.CanGrow p grow ∧ ∃ entry, entry % 2 ^ 32 = memory.pageLimits.initial ∧
    out = .ok () ((m.putMemory index (memory.grown grow)).put height entry)) ∨
  (¬ memory.CanGrow p grow ∧ ∃ entry, entry % 2 ^ 32 = 2 ^ 32 - 1 ∧
    out = .ok () (m.put height entry))

/-! ## What the instruction does -/

/-- The memory the instruction makes of what `realloc` gives it for `new` pages. -/
def resized (memory : Memory) (new cleared : Nat) (newData : List UInt8) : Memory where
  pageLimits := { memory.pageLimits with initial := new }
  byteSize := new * wasmPageSize
  data := Buffer.writeAt 0 newData memory.byteSize (List.replicate cleared 0)

theorem growMemory_run (h : m.Holds (vs ++ [a])) (hmem : getMemory m = .ok (index, memory) m')
    {new cleared : Nat} (hnew : u32 (memory.pageLimits.initial + a % 2 ^ 32) = new)
    (hcleared : u32 (new * wasmPageSize + 2 ^ 32 - memory.byteSize) = cleared) :
    growMemory p m =
      if memory.maxPages < new ∨ 2 ^ 32 ≤ new * wasmPageSize then
        .ok () (m'.put vs.length (ValueType.i32.overlay a (2 ^ 32 - 1)))
      else match p.realloc memory.data (new * wasmPageSize) with
        | none => .ok () (m'.put vs.length (ValueType.i32.overlay a (2 ^ 32 - 1)))
        | some newData =>
          if memory.byteSize + cleared ≤ newData.length then
            .ok () ((m'.putMemory index (resized memory new cleared newData)).put vs.length
              (ValueType.i32.overlay a memory.pageLimits.initial))
          else .abort := by
  have h' := h.of_getMemory hmem
  have hpush : ∀ v, pushType .i32 v (m'.setTop vs.length) =
      .ok () (m'.put vs.length (ValueType.i32.overlay a v)) := fun v =>
    pushType_run rfl h'.getElem?
  rw [growMemory, bind_run, hmem]
  dsimp only
  rw [bind_run, popType_run h']
  dsimp only
  rw [BitVec.toNat_ofNat, hnew, hcleared, ite_run, ite_run]
  by_cases hmax : memory.maxPages < new
  · have hfails : memory.maxPages < new ∨ 2 ^ 32 ≤ new * wasmPageSize := .inl hmax
    rw [if_pos hfails]
    exact (if_pos hmax).trans (hpush _)
  · refine (if_neg hmax).trans ?_
    by_cases hfits : 2 ^ 32 ≤ new * wasmPageSize
    · have hfails : memory.maxPages < new ∨ 2 ^ 32 ≤ new * wasmPageSize := .inr hfits
      rw [if_pos hfails, if_pos (by omega)]
      exact hpush _
    · have hgrows : ¬ (memory.maxPages < new ∨ 2 ^ 32 ≤ new * wasmPageSize) := by
        rw [not_or]
        exact ⟨hmax, hfits⟩
      rw [if_neg hgrows, if_neg (by omega)]
      cases p.realloc memory.data (new * wasmPageSize) with
      | none => exact hpush _
      | some newData =>
        dsimp only
        rw [bind_run, assert_run]
        by_cases hroom : memory.byteSize + cleared ≤ newData.length
        · rw [if_pos hroom, decide_eq_true hroom, if_pos rfl]
          exact pushType_run rfl h'.getElem?
        · rw [if_neg hroom, decide_eq_false hroom, if_neg (by decide)]

/-! ## Where the sum does not exceed 32 bits -/

theorem grown_eq {new : Nat} {newData : List UInt8} (hp : p.Reallocates)
    (hdata : memory.data.length = memory.pageLimits.initial * wasmPageSize)
    (hbyteSize : memory.byteSize = memory.data.length)
    (hnew : memory.pageLimits.initial + grow = new)
    (hrealloc : p.realloc memory.data (new * wasmPageSize) = some newData) :
    resized memory new (grow * wasmPageSize) newData = memory.grown grow := by
  have hlen := hp.length hrealloc
  have hsum : memory.data.length + grow * wasmPageSize = newData.length := by
    rw [hlen, ← hnew, Nat.add_mul, hdata]
  have htake : newData.take memory.data.length = memory.data := by
    rw [hp.kept hrealloc, ← hlen]
    exact List.take_of_length_le (by omega)
  have hbytes : Buffer.writeAt 0 newData memory.byteSize (List.replicate (grow * wasmPageSize) 0) =
      memory.data ++ List.replicate (grow * wasmPageSize) 0 := by
    rw [Buffer.writeAt, hbyteSize, htake, Nat.sub_eq_zero_of_le (by omega), List.replicate_zero,
      List.append_nil, List.length_replicate, hsum, List.drop_length, List.append_nil]
  rw [resized, Memory.grown, hbytes, hnew]

theorem overlay_i32_mod (a : Nat) {v : Nat} (hv : v < 2 ^ 32) :
    ValueType.i32.overlay a v % 2 ^ 32 = v := by
  have h : ValueType.i32.overlay a v % 2 ^ 32 = v % 2 ^ 32 := ValueType.overlay_mod
  rw [h, Nat.mod_eq_of_lt hv]

theorem growMemory_grows (hp : p.Reallocates) (hmem : getMemory m = .ok (index, memory) m')
    (h : m.Holds (vs ++ [a])) (hwf : memory.WellFormed)
    (hlt : memory.pageLimits.initial + a % 2 ^ 32 < 2 ^ 32) :
    GrowsMemory p m' index memory vs.length (a % 2 ^ 32) (growMemory p m) := by
  obtain ⟨new, hnew⟩ : ∃ new, memory.pageLimits.initial + a % 2 ^ 32 = new := ⟨_, rfl⟩
  obtain ⟨cleared, hcleared⟩ : ∃ cleared,
    u32 (new * wasmPageSize + 2 ^ 32 - memory.byteSize) = cleared := ⟨_, rfl⟩
  have hfail : ¬ memory.CanGrow p (a % 2 ^ 32) → GrowsMemory p m' index memory vs.length (a % 2 ^ 32)
      (.ok () (m'.put vs.length (ValueType.i32.overlay a (2 ^ 32 - 1)))) := fun hcannot =>
    .inr ⟨hcannot, _, overlay_i32_mod a (by decide), rfl⟩
  rw [growMemory_run h hmem ((Nat.mod_eq_of_lt hlt).trans hnew) hcleared]
  by_cases hbound : memory.maxPages < new ∨ 2 ^ 32 ≤ new * wasmPageSize
  · rw [if_pos hbound]
    apply hfail
    rw [Memory.CanGrow, hnew]
    omega
  · rw [if_neg hbound]
    cases hrealloc : p.realloc memory.data (new * wasmPageSize) with
    | none =>
      apply hfail
      rw [Memory.CanGrow, hnew, hrealloc]
      simp
    | some newData =>
      have hle : memory.pageLimits.initial * wasmPageSize ≤ new * wasmPageSize :=
        Nat.mul_le_mul_right _ (by omega)
      have hbyteSize : memory.byteSize = memory.pageLimits.initial * wasmPageSize := by
        have hlt : memory.pageLimits.initial * wasmPageSize < 2 ^ 32 := by omega
        rw [hwf.byteSize_eq]
        exact Nat.mod_eq_of_lt hlt
      have hsum : new * wasmPageSize =
          memory.pageLimits.initial * wasmPageSize + a % 2 ^ 32 * wasmPageSize := by
        rw [← hnew, Nat.add_mul]
      have hzeros : cleared = a % 2 ^ 32 * wasmPageSize := by
        rw [← hcleared, hbyteSize, hsum, Nat.add_assoc, Nat.add_sub_cancel_left]
        exact (Nat.add_mod_right _ _).trans (Nat.mod_eq_of_lt (by omega))
      have hroom : memory.byteSize + cleared ≤ newData.length := by
        rw [hp.length hrealloc, hbyteSize, hzeros, hsum]
      dsimp only
      rw [if_pos hroom, hzeros, grown_eq hp (hwf.length_eq.trans hbyteSize) hwf.length_eq.symm hnew
        hrealloc]
      refine .inl ⟨?_, _, overlay_i32_mod a (by omega), rfl⟩
      rw [Memory.CanGrow, hnew, hrealloc]
      exact ⟨by omega, by omega, rfl⟩

/-! ## Where it does -/

theorem put_getElem? {height entry : Nat} (hlt : height < m.thread.valueStack.length) :
    (m.put height entry).thread.valueStack[height]? = some entry := by
  simp [put, hlt]

theorem u32_wraps {n : Nat} (hlo : 2 ^ 32 ≤ n) (hhi : n < 2 ^ 33) : u32 n = n - 2 ^ 32 := by
  change n % 2 ^ 32 = _
  omega

theorem not_grows_of_wraps (hmem : getMemory m = .ok (index, memory) m')
    (h : m.Holds (vs ++ [a])) (hwf : memory.WellFormed)
    (hwraps : memory.GrowWraps p (a % 2 ^ 32)) :
    ¬ GrowsMemory p m' index memory vs.length (a % 2 ^ 32) (growMemory p m) := by
  obtain ⟨hlo, hlimit, hrealloc⟩ := hwraps
  have hinitial : memory.pageLimits.initial ≤ 65536 := hwf.initial_le
  have hmax : memory.maxPages ≤ 65536 := hwf.maxPages_le
  obtain ⟨new, hnew⟩ : ∃ new, memory.pageLimits.initial + a % 2 ^ 32 - 2 ^ 32 = new := ⟨_, rfl⟩
  obtain ⟨cleared, hcleared⟩ : ∃ cleared,
    u32 (new * wasmPageSize + 2 ^ 32 - memory.byteSize) = cleared := ⟨_, rfl⟩
  have hsmall : new * wasmPageSize < 2 ^ 32 := by
    have : new * wasmPageSize ≤ 65535 * wasmPageSize := Nat.mul_le_mul_right _ (by omega)
    exact lt_of_le_of_lt this (by decide)
  have hcannot : ¬ memory.CanGrow p (a % 2 ^ 32) := fun hcan => by
    have := hcan.1
    omega
  rw [hnew] at hlimit hrealloc
  rw [growMemory_run h hmem ((u32_wraps hlo (by omega)).trans hnew) hcleared, if_neg (by omega)]
  obtain ⟨newData, hsome⟩ := Option.isSome_iff_exists.mp hrealloc
  rw [hsome]
  dsimp only
  rintro (⟨hcan, -⟩ | ⟨-, entry, hentry, heq⟩)
  · exact hcannot hcan
  · split at heq
    · -- what is pushed is the old number of pages, and that is not -1
      injection heq with _ hput
      have htop := congrArg (fun m : Machine => m.thread.valueStack[vs.length]?) hput
      have hlt := (h.of_getMemory hmem).length_lt
      have hlt' : vs.length <
          (m'.putMemory index (resized memory new cleared newData)).thread.valueStack.length := hlt
      rw [put_getElem? hlt', put_getElem? hlt, Option.some_inj] at htop
      rw [← htop, overlay_i32_mod a (by omega)] at hentry
      omega
    · cases heq

theorem growMemory_grows_iff (p : Platform) (top : Nat) (hp : p.Reallocates)
    (hmem : getMemory m = .ok (index, memory) m') (h : m.Holds (vs ++ [a])) (hwf : memory.WellFormed) :
    GrowsMemory p m' index memory vs.length (a % 2 ^ 32) (execute p top .growMemory m) ↔
      ¬ memory.GrowWraps p (a % 2 ^ 32) := by
  change GrowsMemory p m' index memory vs.length (a % 2 ^ 32) (growMemory p m) ↔ _
  constructor
  · intro hgrows hwraps
    exact not_grows_of_wraps hmem h hwf hwraps hgrows
  · intro hwraps
    rcases Nat.lt_or_ge (memory.pageLimits.initial + a % 2 ^ 32) (2 ^ 32) with hlt | hge
    · exact growMemory_grows hp hmem h hwf hlt
    · have hinitial : memory.pageLimits.initial ≤ 65536 := hwf.initial_le
      have hmax : memory.maxPages ≤ 65536 := hwf.maxPages_le
      have hcannot : ¬ memory.CanGrow p (a % 2 ^ 32) := fun hcan => by
        have := hcan.1
        omega
      refine .inr ⟨hcannot, _, overlay_i32_mod a (by decide), ?_⟩
      rw [growMemory_run h hmem (u32_wraps hge (by omega)) rfl]
      split
      · rfl
      · rename_i hbound
        have hnone : p.realloc memory.data
            ((memory.pageLimits.initial + a % 2 ^ 32 - 2 ^ 32) * wasmPageSize) = none := by
          rw [← Option.not_isSome_iff_eq_none]
          exact fun hsome => hwraps ⟨hge, by omega, hsome⟩
        rw [hnone]

/-- A machine that is to execute an instruction on its only memory. -/
def ofMemory (memory : Memory) (vs : List Nat) : Machine where
  env := { memories := [memory], istream := List.replicate 8 0 }
  thread := { valueStack := vs, valueStackTop := vs.length, callStack := [] }

theorem ofMemory_holds (memory : Memory) (vs : List Nat) : (ofMemory memory vs).Holds vs :=
  ⟨rfl, List.prefix_rfl⟩

theorem getMemory_ofMemory (memory : Memory) (vs : List Nat) :
    getMemory (ofMemory memory vs) = .ok (0, memory) { ofMemory memory vs with pc := 4 } := rfl

/-- There is always room. -/
def roomy : Platform where
  realloc data size := some (data.take size ++ List.replicate (size - data.length) 0)
  fpu := Platform.null.fpu

theorem roomy_reallocates : roomy.Reallocates where
  length := by
    intro data size newData h
    cases h
    rw [List.length_append, List.length_take, List.length_replicate]
    omega
  kept := by
    intro data size newData h
    cases h
    rcases Nat.le_total size data.length with hle | hle
    · rw [Nat.sub_eq_zero_of_le hle, List.replicate_zero, List.append_nil, List.take_take,
        Nat.min_eq_right hle]
    · rw [List.take_of_length_le hle, List.take_left]

/-- A memory of so many pages of zeros, without a maximum. -/
def zeroPages (pages : Nat) : Memory where
  pageLimits := { initial := pages, max := 0, hasMax := false }
  byteSize := pages * wasmPageSize
  data := List.replicate (pages * wasmPageSize) 0

theorem zeroPages_wellFormed {pages : Nat} (h : pages < wasmMaxPages) :
    (zeroPages pages).WellFormed where
  initial_le := h.le
  max_le := fun hmax => by cases hmax
  byteSize_eq := by
    have hlt : pages * wasmPageSize < wasmMaxPages * wasmPageSize :=
      Nat.mul_lt_mul_of_pos_right h (by decide)
    exact (u32_of_lt hlt).symm
  length_eq := List.length_replicate

theorem growMemory_grows_zeroPages :
    GrowsMemory roomy { ofMemory (zeroPages 2) [3] with pc := 4 } 0 (zeroPages 2) 0 3
      (execute roomy 0 .growMemory (ofMemory (zeroPages 2) [3])) := by
  have h : (ofMemory (zeroPages 2) [3]).Holds ([] ++ [3]) := ofMemory_holds _ _
  refine (growMemory_grows_iff roomy 0 roomy_reallocates (getMemory_ofMemory _ _) h
    (zeroPages_wellFormed (by decide))).mpr ?_
  rintro ⟨hlo, -, -⟩
  exact absurd hlo (by decide)

/-- 2 pages and `2 ^ 32 - 1` pages are 1 page. -/
theorem growMemory_shrinks_zeroPages :
    ¬ GrowsMemory roomy { ofMemory (zeroPages 2) [2 ^ 32 - 1] with pc := 4 } 0 (zeroPages 2) 0
      (2 ^ 32 - 1) (execute roomy 0 .growMemory (ofMemory (zeroPages 2) [2 ^ 32 - 1])) := by
  have h : (ofMemory (zeroPages 2) [2 ^ 32 - 1]).Holds ([] ++ [2 ^ 32 - 1]) := ofMemory_holds _ _
  exact not_grows_of_wraps (getMemory_ofMemory _ _) h (zeroPages_wellFormed (by decide))
    ⟨by decide, by decide, rfl⟩

end Machine

end Interpreter

end SexprWasm
