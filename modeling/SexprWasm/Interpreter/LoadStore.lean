import SexprWasm.Interpreter.GrowMemory
import SexprWasm.Lib.Words

/-!
# Loads and stores

`LOAD` and `STORE` add the base and the offset in 64 bits, so the check
against the size of the memory is exact. A memory is seen as the numbers
at its addresses (`numberAt`); a store writes one and leaves those apart
from it (`numberAt_stored`, `numberAt_stored_of_apart`), and a load
extends one as its memory type says.
-/

namespace SexprWasm

namespace Interpreter

open Callback

/-- The bytes are there, and can be counted in 32 bits. -/
structure Memory.Sized (memory : Memory) : Prop where
  length_eq : memory.data.length = memory.byteSize
  byteSize_lt : memory.byteSize < 2 ^ 32

theorem Memory.WellFormed.sized {memory : Memory} (h : memory.WellFormed) : memory.Sized :=
  ⟨h.length_eq, h.byteSize_eq.trans_lt (u32_lt _)⟩

/-- The number in so many bytes from an address on. -/
def Memory.numberAt (memory : Memory) (address size : Nat) : Nat :=
  Buffer.ofLeBytes (Buffer.window memory.data address size)

/-- The memory with a number in so many bytes from an address on. -/
def Memory.stored (memory : Memory) (address size v : Nat) : Memory :=
  { memory with data := Buffer.writeAt 0 memory.data address (Buffer.leBytes size v) }

/-- What is pushed for a number of a memory type. -/
def MemType.extended (type : ValueType) (memType : MemType) (n : Nat) : Nat :=
  if memType.signed then Words.wrap type.bits (Words.signed (8 * memType.size) n) else n

/-- The instructions that load. -/
def loadInstruction? : WasmOpcode → Option (ValueType × MemType)
  | .i32Load8S => some (.i32, .i8)
  | .i32Load8U => some (.i32, .u8)
  | .i32Load16S => some (.i32, .i16)
  | .i32Load16U => some (.i32, .u16)
  | .i64Load8S => some (.i64, .i8)
  | .i64Load8U => some (.i64, .u8)
  | .i64Load16S => some (.i64, .i16)
  | .i64Load16U => some (.i64, .u16)
  | .i64Load32S => some (.i64, .i32)
  | .i64Load32U => some (.i64, .u32)
  | .i32Load => some (.i32, .u32)
  | .i64Load => some (.i64, .u64)
  | .f32Load => some (.f32, .f32)
  | .f64Load => some (.f64, .f64)
  | _ => none

/-- The instructions that store: the type of the operand and the number of bytes. -/
def storeInstruction? : WasmOpcode → Option (ValueType × Nat)
  | .i32Store8 => some (.i32, 1)
  | .i32Store16 => some (.i32, 2)
  | .i64Store8 => some (.i64, 1)
  | .i64Store16 => some (.i64, 2)
  | .i64Store32 => some (.i64, 4)
  | .i32Store => some (.i32, 4)
  | .i64Store => some (.i64, 8)
  | .f32Store => some (.f32, 4)
  | .f64Store => some (.f64, 8)
  | _ => none

/-! ## Numbers in a memory -/

section Numbers

variable {memory : Memory} {address size v o n : Nat}

theorem Memory.length_stored (h : address + size ≤ memory.data.length) :
    (memory.stored address size v).data.length = memory.data.length := by
  rw [stored, Buffer.length_writeAt, Buffer.length_leBytes]
  omega

theorem Memory.getElem?_stored {i : Nat} (h : address + size ≤ memory.data.length)
    (hi : i < address ∨ address + size ≤ i) :
    (memory.stored address size v).data[i]? = memory.data[i]? := by
  rcases hi with hlt | hle
  · exact Buffer.getElem?_writeAt_of_lt (by omega) hlt
  · exact Buffer.getElem?_writeAt_of_le (by omega) (by rwa [Buffer.length_leBytes])

theorem Memory.window_stored (h : address + size ≤ memory.data.length) :
    Buffer.window (memory.stored address size v).data address size = Buffer.leBytes size v := by
  have hself : Buffer.window (Buffer.writeAt 0 memory.data address (Buffer.leBytes size v)) address
      (Buffer.leBytes size v).length = _ := Buffer.window_writeAt_self (by omega)
  rwa [Buffer.length_leBytes] at hself

/-- As many bytes as were stored, or fewer. -/
theorem Memory.numberAt_stored (h : address + size ≤ memory.data.length) (hn : n ≤ size) :
    (memory.stored address size v).numberAt address n = v % 256 ^ n := by
  rw [numberAt, ← Buffer.take_window hn, window_stored h, Buffer.take_leBytes v hn,
    Buffer.ofLeBytes_leBytes]

theorem Memory.numberAt_stored_of_apart (h : address + size ≤ memory.data.length)
    (happart : o + n ≤ address ∨ address + size ≤ o) :
    (memory.stored address size v).numberAt o n = memory.numberAt o n := by
  rw [numberAt, stored, Buffer.window_writeAt_of_apart (by omega)
    (by rwa [Buffer.length_leBytes]), numberAt]

/-- More bytes than were stored. -/
theorem Memory.numberAt_stored_add (h : address + size ≤ memory.data.length) :
    (memory.stored address size v).numberAt address (size + n) =
      v % 256 ^ size + 256 ^ size * memory.numberAt (address + size) n := by
  have hrest := numberAt_stored_of_apart (o := address + size) (n := n) (v := v) h (.inr le_rfl)
  rw [numberAt] at hrest
  rw [numberAt, Buffer.window_add, Buffer.ofLeBytes_append, window_stored h,
    Buffer.ofLeBytes_leBytes, Buffer.length_leBytes, hrest]

end Numbers

namespace Machine

variable {m m₁ m₂ : Machine} {vs ws : List Nat} {a b c index offset offset' n size : Nat}
  {memory : Memory} {type rtype : ValueType} {memType : MemType}

/-- Past so many bytes of the istream. -/
def advance (m : Machine) (n : Nat) : Machine := { m with pc := m.pc + n }

/-- The immediates at the `pc`, the index of a memory and an offset, and the memory. -/
structure Accesses (m : Machine) (index offset : Nat) (memory : Memory) : Prop where
  immediates : Buffer.window m.env.istream m.pc 8 =
    Buffer.leBytes 4 index ++ Buffer.leBytes 4 offset
  index_lt : index < 2 ^ 32
  offset_lt : offset < 2 ^ 32
  memory : m.env.memories[index]? = some memory

/-! ## What the instructions are to do -/

/-- From `a` on top of `vs` an instruction pushes the number at its address, or traps. -/
def Loads (type : ValueType) (memType : MemType) (instr : Exec Unit) : Prop :=
  ∀ (m : Machine) (vs : List Nat) (a index offset : Nat) (memory : Memory),
    m.Holds (vs ++ [a]) → m.Accesses index offset memory → memory.Sized →
    if memory.byteSize < a % 2 ^ 32 + offset + memType.size then
      instr m = .error
        { (m.advance 8).setTop vs.length with result := .trapMemoryAccessOutOfBounds }
    else ∃ entry, instr m = .ok () ((m.advance 8).put vs.length entry) ∧
      entry % 2 ^ type.bits =
        memType.extended type (memory.numberAt (a % 2 ^ 32 + offset) memType.size)

/-- From `a` and `b` on top of `vs` an instruction stores `b` at its address, or traps. -/
def Stores (type : ValueType) (size : Nat) (instr : Exec Unit) : Prop :=
  ∀ (m : Machine) (vs : List Nat) (a b index offset : Nat) (memory : Memory),
    m.Holds (vs ++ [a, b]) → m.Accesses index offset memory → memory.Sized →
    if memory.byteSize < a % 2 ^ 32 + offset + size then
      instr m = .error
        { (m.advance 8).setTop vs.length with result := .trapMemoryAccessOutOfBounds }
    else instr m = .ok () (((m.advance 8).setTop vs.length).putMemory index
      (memory.stored (a % 2 ^ 32 + offset) size (b % 2 ^ type.bits)))

/-- After a store, a load gets what was stored if it is from the same address, with the bytes
above it where the load is wider, and what was there before if it is apart from it. -/
def LoadsStored (type : ValueType) (size : Nat) (store : Exec Unit) (rtype : ValueType)
    (memType : MemType) (load : Exec Unit) : Prop :=
  ∀ (m m₁ m₂ : Machine) (vs ws : List Nat) (a b c index offset offset' : Nat)
    (memory memory' : Memory),
    m.Holds (vs ++ [a, b]) → m.Accesses index offset memory → memory.Sized → store m = .ok () m₁ →
    m₂.env.memories = m₁.env.memories → m₂.Holds (ws ++ [c]) → m₂.Accesses index offset' memory' →
    c % 2 ^ 32 + offset' + memType.size ≤ memory.byteSize →
    ∃ entry, load m₂ = .ok () ((m₂.advance 8).put ws.length entry) ∧
      (c % 2 ^ 32 + offset' = a % 2 ^ 32 + offset → memType.size ≤ size →
        entry % 2 ^ rtype.bits =
          memType.extended rtype (b % 2 ^ type.bits % 256 ^ memType.size)) ∧
      (c % 2 ^ 32 + offset' = a % 2 ^ 32 + offset → ∀ n, memType.size = size + n →
        entry % 2 ^ rtype.bits = memType.extended rtype (b % 2 ^ type.bits % 256 ^ size +
          256 ^ size * memory.numberAt (a % 2 ^ 32 + offset + size) n)) ∧
      (c % 2 ^ 32 + offset' + memType.size ≤ a % 2 ^ 32 + offset ∨
          a % 2 ^ 32 + offset + size ≤ c % 2 ^ 32 + offset' →
        entry % 2 ^ rtype.bits =
          memType.extended rtype (memory.numberAt (c % 2 ^ 32 + offset') memType.size))

theorem readU32_run (h : Buffer.window m.env.istream m.pc 4 = Buffer.leBytes 4 n)
    (hn : n < 2 ^ 32) : readU32 m = .ok n (m.advance 4) := by
  rw [readU32, readBytes, bind_run, get_run]
  dsimp only
  have hmod : n % 256 ^ 4 = n := Nat.mod_eq_of_lt hn
  rw [h, Buffer.length_leBytes, Buffer.ofLeBytes_leBytes, hmod]
  rfl

theorem Accesses.index_run (h : m.Accesses index offset memory) :
    getMemory m = .ok (index, memory) (m.advance 4) := by
  have hread : readU32 m = .ok index (m.advance 4) := by
    refine readU32_run ?_ h.index_lt
    rw [← Buffer.take_window (by decide : 4 ≤ 8), h.immediates,
      List.take_left' (Buffer.length_leBytes _ _)]
  have hmem : (m.advance 4).env.memories[index]? = some memory := h.memory
  rw [getMemory, bind_run, hread]
  dsimp only
  rw [bind_run, get_run]
  dsimp only
  rw [hmem]
  rfl

theorem Accesses.offset_run (h : m.Accesses index offset memory) (height : Nat) :
    readU32 ((m.advance 4).setTop height) = .ok offset ((m.advance 8).setTop height) := by
  refine readU32_run ?_ h.offset_lt
  have hrest : Buffer.window m.env.istream (m.pc + 4) 4 = Buffer.leBytes 4 offset := by
    rw [← Buffer.drop_window m.env.istream m.pc 4 4, h.immediates,
      List.drop_left' (Buffer.length_leBytes _ _)]
  exact hrest

theorem Holds.advance (h : m.Holds vs) : (m.advance n).Holds vs := ⟨h.top_eq, h.entries⟩

theorem extend_eq (hn : n < 2 ^ (8 * memType.size)) :
    extend type memType n = memType.extended type n := by
  have hbits : (BitVec.ofNat (8 * memType.size) n).toNat = n := by
    rw [BitVec.toNat_ofNat, Nat.mod_eq_of_lt hn]
  rw [extend, MemType.extended]
  split
  · rw [BitVec.signExtend, Words.toNat_ofInt, Words.toInt_eq, hbits]
  · rfl

theorem extended_lt (hsize : 8 * memType.size ≤ type.bits) (hn : n < 2 ^ (8 * memType.size)) :
    memType.extended type n < 2 ^ type.bits := by
  rw [MemType.extended]
  split
  · exact Words.wrap_lt _
  · exact hn.trans_le (Nat.pow_le_pow_right (by decide) hsize)

theorem length_window (hsized : memory.Sized) {address : Nat}
    (h : address + size ≤ memory.byteSize) :
    (Buffer.window memory.data address size).length = size := by
  have := hsized.length_eq
  rw [Buffer.window, List.length_take, List.length_drop]
  omega

theorem load_loads (hsize : 8 * memType.size ≤ type.bits) :
    Loads type memType (load type memType) := by
  intro m vs a index offset memory h hacc hsized
  have hbase : (BitVec.ofNat ValueType.i32.bits a).toNat = a % 2 ^ 32 := BitVec.toNat_ofNat _ _
  have htop : ((m.advance 8).setTop vs.length).thread.valueStack[vs.length]? = some a := h.getElem?
  rw [load, bind_run, hacc.index_run]
  dsimp only
  rw [bind_run, popType_run h.advance]
  dsimp only
  rw [bind_run, hacc.offset_run, hbase]
  dsimp only
  generalize haddress : a % 2 ^ 32 + offset = address
  rw [bind_run, trapIf_run]
  by_cases hbounds : memory.byteSize < address + memType.size
  · rw [if_pos hbounds, decide_eq_true hbounds, if_pos rfl]
  · have hsmall : u32 address = address := by
      have := hsized.byteSize_lt
      exact u32_of_lt (show _ < 2 ^ 32 by omega)
    have hlen := length_window hsized (not_lt.mp hbounds)
    have hlt : memory.numberAt address memType.size < 2 ^ (8 * memType.size) := by
      have hbytes := Buffer.ofLeBytes_lt (Buffer.window memory.data address memType.size)
      rwa [hlen, show 256 = 2 ^ 8 from rfl, ← Nat.pow_mul] at hbytes
    rw [if_neg hbounds, decide_eq_false hbounds, if_neg (by decide)]
    dsimp only
    rw [bind_run, assert_run, hsmall, decide_eq_true hlen, if_pos rfl]
    refine ⟨_, pushType_run rfl htop, ?_⟩
    have hvalue : extend type memType
        (Buffer.ofLeBytes (Buffer.window memory.data address memType.size)) = _ := extend_eq hlt
    rw [ValueType.overlay_mod, hvalue]
    exact Nat.mod_eq_of_lt (extended_lt hsize hlt)

theorem store_stores (type : ValueType) (memType : MemType) :
    Stores type memType.size (store type memType) := by
  intro m vs a b index offset memory h hacc hsized
  have hbase : (BitVec.ofNat ValueType.i32.bits a).toNat = a % 2 ^ 32 := BitVec.toNat_ofNat _ _
  have hvalue : (BitVec.ofNat type.bits b).toNat = b % 2 ^ type.bits := BitVec.toNat_ofNat _ _
  have hrhs : m.Holds ((vs ++ [a]) ++ [b]) := by simpa using h
  have hlhs : ((m.advance 4).setTop (vs ++ [a]).length).Holds (vs ++ [a]) := hrhs.advance.setTop
  rw [store, bind_run, hacc.index_run]
  dsimp only
  rw [bind_run, popType_run hrhs.advance]
  dsimp only
  rw [bind_run, popType_run hlhs, setTop_setTop]
  dsimp only
  rw [bind_run, hacc.offset_run, hbase, hvalue]
  dsimp only
  generalize haddress : a % 2 ^ 32 + offset = address
  rw [bind_run, trapIf_run]
  by_cases hbounds : memory.byteSize < address + memType.size
  · rw [if_pos hbounds, decide_eq_true hbounds, if_pos rfl]
  · have hsmall : u32 address = address := by
      have := hsized.byteSize_lt
      exact u32_of_lt (show _ < 2 ^ 32 by omega)
    have hroom : address + memType.size ≤ memory.data.length := by
      have := hsized.length_eq
      omega
    rw [if_neg hbounds, decide_eq_false hbounds, if_neg (by decide)]
    dsimp only
    rw [bind_run, assert_run, hsmall, decide_eq_true hroom, if_pos rfl]
    rfl

theorem loadsStored {store load : Exec Unit} (hstore : Stores type size store)
    (hload : Loads rtype memType load) : LoadsStored type size store rtype memType load := by
  intro m m₁ m₂ vs ws a b c index offset offset' memory memory' h hacc hsized hrun hmems h₂ hacc₂ hin
  have hstored := hstore m vs a b index offset memory h hacc hsized
  by_cases hbounds : memory.byteSize < a % 2 ^ 32 + offset + size
  · rw [if_pos hbounds, hrun] at hstored
    cases hstored
  · rw [if_neg hbounds, hrun] at hstored
    injection hstored with _ hm₁
    have hroom : a % 2 ^ 32 + offset + size ≤ memory.data.length := by
      have := hsized.length_eq
      omega
    -- the memory the load is from
    have hindex : index < m.env.memories.length := (List.getElem?_eq_some_iff.mp hacc.memory).1
    have hmemory : memory' = memory.stored (a % 2 ^ 32 + offset) size (b % 2 ^ type.bits) := by
      have hat := hacc₂.memory
      rw [hmems, hm₁] at hat
      change (m.env.memories.set index _)[index]? = _ at hat
      rw [List.getElem?_set_self hindex, Option.some_inj] at hat
      exact hat.symm
    have hsized' : memory'.Sized := by
      refine ⟨?_, ?_⟩ <;> rw [hmemory]
      · exact (Memory.length_stored hroom).trans hsized.length_eq
      · exact hsized.byteSize_lt
    have hloaded := hload m₂ ws c index offset' memory' h₂ hacc₂ hsized'
    have hbounds' : ¬ memory'.byteSize < c % 2 ^ 32 + offset' + memType.size := by
      rw [hmemory]
      exact not_lt.mpr hin
    rw [if_neg hbounds'] at hloaded
    obtain ⟨entry, hok, hentry⟩ := hloaded
    refine ⟨entry, hok, fun hsame hle => ?_, fun hsame n hn => ?_, fun happart => ?_⟩
    · rw [hentry, hmemory, hsame, Memory.numberAt_stored hroom hle]
    · rw [hentry, hmemory, hsame, hn, Memory.numberAt_stored_add hroom]
    · rw [hentry, hmemory, Memory.numberAt_stored_of_apart hroom happart]

/-! ## The 23 instructions -/

theorem execute_loads (p : Platform) (top : Nat) {op : WasmOpcode}
    (hop : loadInstruction? op = some (type, memType)) : Loads type memType (execute p top op) := by
  have h : ∀ {type' memType'}, some (type', memType') = some (type, memType) →
      8 * memType'.size ≤ type'.bits → Loads type memType (load type' memType') := by
    rintro _ _ heq hsize
    cases heq
    exact load_loads hsize
  cases op with
  | i32Load8S | i32Load8U | i32Load16S | i32Load16U | i64Load8S | i64Load8U | i64Load16S
  | i64Load16U | i64Load32S | i64Load32U | i32Load | i64Load | f32Load | f64Load =>
    exact h hop (by decide)
  | _ => cases hop

theorem execute_stores (p : Platform) (top : Nat) {op : WasmOpcode}
    (hop : storeInstruction? op = some (type, size)) : Stores type size (execute p top op) := by
  have h : ∀ {type' memType'}, some (type', MemType.size memType') = some (type, size) →
      Stores type size (store type' memType') := by
    rintro _ _ heq
    cases heq
    exact store_stores _ _
  cases op with
  | i32Store8 | i32Store16 | i64Store8 | i64Store16 | i64Store32 | i32Store | i64Store | f32Store
  | f64Store => exact h hop
  | _ => cases hop

/-- Every load and store by itself, every load after every store, and what a store changes. -/
theorem execute_loadStore (p : Platform) (top : Nat) {op op' : WasmOpcode}
    (hstore : storeInstruction? op = some (type, size))
    (hload : loadInstruction? op' = some (rtype, memType)) :
    Loads rtype memType (execute p top op') ∧
    Stores type size (execute p top op) ∧
    LoadsStored type size (execute p top op) rtype memType (execute p top op') ∧
    ∀ (memory : Memory) (address v : Nat), address + size ≤ memory.data.length →
      (memory.stored address size v).data.length = memory.data.length ∧
      ∀ i, i < address ∨ address + size ≤ i →
        (memory.stored address size v).data[i]? = memory.data[i]? := by
  have hloads := execute_loads p top hload
  have hstores := execute_stores p top hstore
  exact ⟨hloads, hstores, loadsStored hstores hloads, fun memory address v hroom =>
    ⟨Memory.length_stored hroom, fun i hi => Memory.getElem?_stored hroom hi⟩⟩

/-- 128 stored as a byte and loaded as a signed one. -/
theorem execute_loadStore_byte :
    ∃ m entry, execute .null 0 .i32Load8S m = .ok () ((m.advance 8).put 0 entry) ∧
      m.env.memories = [(zeroPages 1).stored 0 1 128] ∧ entry % 2 ^ 32 = 2 ^ 32 - 128 := by
  have hstore : storeInstruction? .i32Store8 = some (.i32, 1) := rfl
  have hload : loadInstruction? .i32Load8S = some (.i32, .i8) := rfl
  obtain ⟨-, hstores, hpair, -⟩ := execute_loadStore .null 0 hstore hload
  have h : (ofMemory (zeroPages 1) [0, 128]).Holds ([] ++ [0, 128]) := ofMemory_holds _ _
  have hacc : (ofMemory (zeroPages 1) [0, 128]).Accesses 0 0 (zeroPages 1) :=
    ⟨by decide, by decide, by decide, rfl⟩
  have hsized : (zeroPages 1).Sized := (zeroPages_wellFormed (by decide)).sized
  have hrun := hstores _ _ _ _ _ _ _ h hacc hsized
  rw [if_neg (by decide)] at hrun
  -- the load has the same immediates
  let m : Machine :=
    { ((ofMemory (zeroPages 1) [0, 128]).setTop 1).putMemory 0 ((zeroPages 1).stored 0 1 128) with
      pc := 0 }
  have hm : m.Holds ([] ++ [0]) := ⟨rfl, [128], rfl⟩
  have hacc' : m.Accesses 0 0 ((zeroPages 1).stored 0 1 128) :=
    ⟨by decide, by decide, by decide, rfl⟩
  obtain ⟨entry, hok, hsame, -, -⟩ := hpair _ _ m _ _ _ _ _ _ _ _ _ _ h hacc hsized hrun rfl hm
    hacc' (by decide)
  exact ⟨m, entry, hok, rfl, hsame rfl le_rfl⟩

end Machine

end Interpreter

end SexprWasm
