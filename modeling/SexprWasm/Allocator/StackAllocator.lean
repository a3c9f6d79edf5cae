import SexprWasm.Common
import SexprWasm.Lib.Ranges

/-!
# The stack allocator

`stack-allocator.c`. Memory is taken from a fallback allocator in
chunks; an allocation moves the `current` pointer of the last chunk up,
and a mark remembers where it stood. A reset to a mark threads the
chunks taken since then into a free list, from which later chunks of the
common size are taken. What is too large for such a chunk gets one of
its own, threaded before the first.

Addresses are natural numbers: the objects the fallback hands out end
far enough below the top of the address space for no sum of the code to
wrap around. A chunk's header is a value of type `Chunk` at the chunk's
address and a mark a value of type `StackAllocatorMark` at the mark's;
the bytes of the allocations are in `bytes`.

The second half of the file is the allocator's use: `Block` is an
allocation as its owner sees it, an address with contents of its own,
and `exec` is a call together with what it does to the blocks.
-/

namespace SexprWasm

namespace Allocator

/-- `sizeof(WasmStackAllocatorChunk)`. -/
def sizeofChunk : Nat := 32

/-- `sizeof(StackAllocatorMark)`. -/
def sizeofMark : Nat := 24

/-- `WASM_DEFAULT_ALIGN`. -/
def defaultAlign : Nat := 8

def chunkAlign : Nat := 8

def chunkSize : Nat := 1024 * 1024

def chunkMaxAvail : Nat := chunkSize - sizeofChunk

/-- `SIZE_MAX`. -/
def sizeMax : Nat := 2 ^ 64 - 1

/-- `WasmStackAllocatorChunk`; `link` is the union of `prev` and `next_free`. -/
structure Chunk where
  start : Nat := 0
  current : Nat := 0
  end_ : Nat := 0
  link : Option Nat := none
  deriving DecidableEq, Inhabited

structure StackAllocatorMark where
  chunk : Nat
  chunkCurrent : Nat
  lastAllocation : Option Nat
  deriving DecidableEq

/-- `WasmStackAllocator` with the memory it works on. `outstanding` are the objects that the
fallback has handed out. -/
structure State where
  first : Nat
  last : Nat
  lastAllocation : Option Nat := none
  nextFree : Option Nat := none
  hasJmpbuf : Bool := false
  chunks : Nat → Chunk := fun _ => {}
  marks : Nat → Option StackAllocatorMark := fun _ => none
  bytes : Nat → UInt8 := fun _ => 0
  outstanding : List Nat := []

inductive Fault where
  | assertion
  | fatal
  deriving DecidableEq

/-- How a call ends: it returns, leaves by `longjmp`, stops the program, or is still in one of its
loops. -/
inductive Outcome (α : Type) where
  | done (a : α) (s : State)
  | jumped (s : State)
  | failed (f : Fault)
  | running

def Outcome.bind {α β : Type} : Outcome α → (α → State → Outcome β) → Outcome β
  | .done a s, f => f a s
  | .jumped s, _ => .jumped s
  | .failed e, _ => .failed e
  | .running, _ => .running

def isPowerOfTwo (x : Nat) : Bool := x ≠ 0 && x &&& (x - 1) = 0

/-- `(p + align - 1) & ~(align - 1)`. -/
def alignUp (p align : Nat) : Nat := Nat.ldiff (p + align - 1) (align - 1)

namespace State

variable (s : State)

def link (p : Nat) : Option Nat := (s.chunks p).link

def setChunk (p : Nat) (chunk : Chunk) : State :=
  { s with chunks := Function.update s.chunks p chunk }

def setCurrent (p v : Nat) : State := s.setChunk p { s.chunks p with current := v }

def setLink (p : Nat) (v : Option Nat) : State := s.setChunk p { s.chunks p with link := v }

def allocationInChunk (chunk p : Nat) : Bool := chunk ≤ p && p < (s.chunks chunk).end_

/-- The `n` bytes from `p` on. -/
def read (p n : Nat) : List UInt8 := Ranges.read s.bytes p n

def memmove (dst src n : Nat) : State := { s with bytes := Ranges.copy s.bytes dst src n }

/-- What `stack_mark` puts in a mark: where the allocations stand. -/
def saved : StackAllocatorMark :=
  { chunk := s.last, chunkCurrent := (s.chunks s.last).current, lastAllocation := s.lastAllocation }

end State

/-- `wasm_alloc(fallback, …)` gives `reply`, and the new chunk is set up; `none` is the null
pointer. -/
def freshChunk (reply : Option Nat) (maxAvail : Nat) (s : State) : Outcome Nat :=
  match reply with
  | none => if s.hasJmpbuf then .jumped s else .failed .fatal
  | some chunk =>
    let start := chunk + sizeofChunk
    .done chunk
      { s.setChunk chunk { start, current := start, end_ := start + maxAvail, link := none } with
        outstanding := chunk :: s.outstanding }

def allocateChunk (reply : Option Nat) (maxAvail : Nat) (s : State) : Outcome Nat :=
  if maxAvail < sizeMax - sizeofChunk then
    if maxAvail + sizeofChunk = chunkSize then
      match s.nextFree with
      | some chunk => .done chunk { s with nextFree := s.link chunk }
      | none => freshChunk reply maxAvail s
    else
      freshChunk reply maxAvail s
  else
    .failed .assertion

/-- The branch of `stack_alloc` for what fits in no chunk of the common size. -/
def allocOversize (reply : Option Nat) (size align allocSize : Nat) (s : State) : Outcome Nat :=
  (allocateChunk reply allocSize s).bind fun chunk s =>
    let result := alignUp (s.chunks chunk).current align
    if result + size ≤ (s.chunks chunk).end_ then
      let s := s.setCurrent chunk (s.chunks chunk).end_
      let s := s.setLink s.first (some chunk)
      .done result { s with first := chunk }
    else
      .failed .assertion

/-- The last chunk has no room left. -/
def allocNextChunk (reply : Option Nat) (size align : Nat) (s : State) : Outcome Nat :=
  (allocateChunk reply chunkMaxAvail s).bind fun chunk s =>
    let s := s.setLink chunk (some s.last)
    let s := { s with last := chunk }
    let s := s.setCurrent chunk (alignUp (s.chunks chunk).current align)
    let result := (s.chunks chunk).current
    let s := s.setCurrent chunk (result + size)
    if (s.chunks chunk).current ≤ (s.chunks chunk).end_ then .done result s
    else .failed .assertion

def stackAlloc (reply : Option Nat) (size align : Nat) (s : State) : Outcome Nat :=
  -- the argument of is_power_of_two is a uint32_t
  if isPowerOfTwo (align % 2 ^ 32) then
    if size < sizeMax - align + 1 then
      let allocSize := size + align - 1
      if chunkMaxAvail ≤ allocSize then
        allocOversize reply size align allocSize s
      else
        let s := s.setCurrent s.last (alignUp (s.chunks s.last).current align)
        let current := (s.chunks s.last).current
        (if current + size < (s.chunks s.last).end_ then
            .done current (s.setCurrent s.last (current + size))
          else
            allocNextChunk reply size align s).bind fun result s =>
          .done result { s with lastAllocation := some result }
    else
      .failed .assertion
  else
    .failed .assertion

/-- The loop of `stack_realloc`: the chunk that `p` is in, `some none` if there is none. -/
def findChunk (s : State) (p : Nat) : Nat → Option Nat → Option (Option Nat)
  | 0, _ => none
  | _ + 1, none => some none
  | fuel + 1, some chunk =>
    if s.allocationInChunk chunk p then some (some chunk) else findChunk s p fuel (s.link chunk)

def stackRealloc (fuel : Nat) (reply : Option Nat) (p : Option Nat) (size align : Nat)
    (s : State) : Outcome Nat :=
  match p with
  | none => stackAlloc reply size align s
  | some p =>
    match findChunk s p fuel (some s.last) with
    | none => .running
    | some none => .failed .assertion
    | some (some chunk) =>
      (stackAlloc reply size align s).bind fun result s =>
        let oldMaxSize := (s.chunks chunk).end_ - p
        let copySize := if size > oldMaxSize then oldMaxSize else size
        .done result (s.memmove result p copySize)

def stackFree (p : Option Nat) (s : State) : Outcome Unit :=
  match p with
  | none => .done () s
  | some p =>
    if some p = s.lastAllocation then
      if s.allocationInChunk s.last p then .done () (s.setCurrent s.last p) else .failed .assertion
    else
      .done () s

/-- A loop of `stack_destroy`: the chunks given back to the fallback, in order. -/
def freeChunks (s : State) : Nat → Option Nat → Option (List Nat)
  | 0, _ => none
  | _ + 1, none => some []
  | fuel + 1, some chunk => (freeChunks s fuel (s.link chunk)).map (chunk :: ·)

/-- `stack_destroy`: what it frees; `none` if its loops go on after `fuel` turns. -/
def stackDestroy (fuel : Nat) (s : State) : Option (List Nat) :=
  match freeChunks s fuel s.nextFree with
  | none => none
  | some free => (freeChunks s fuel (some s.last)).map (free ++ ·)

def stackMark (reply : Option Nat) (s : State) : Outcome Nat :=
  let mark := s.saved
  (stackAlloc reply sizeofMark defaultAlign s).bind fun allocatedMark s =>
    .done allocatedMark { s with marks := Function.update s.marks allocatedMark (some mark) }

/-- A turn of the loop of `stack_reset_to_mark`: the chunk goes into the free list. -/
def State.recycle (s : State) (chunk : Nat) : State :=
  { (s.setCurrent chunk (s.chunks chunk).start).setLink chunk s.nextFree with
    nextFree := some chunk }

/-- The loop of `stack_reset_to_mark`, with the pointer it stops at. -/
def recycleUntil (target : Nat) : Nat → Option Nat → State → Option (Option Nat × State)
  | 0, _, _ => none
  | _ + 1, none, s => some (none, s)
  | fuel + 1, some chunk, s =>
    if chunk = target then some (some chunk, s)
    else recycleUntil target fuel (s.link chunk) (s.recycle chunk)

def stackResetToMark (fuel mark : Nat) (s : State) : Outcome Unit :=
  match s.marks mark with
  | none => .failed .assertion
  | some stackMark =>
    match recycleUntil stackMark.chunk fuel (some s.last) s with
    | none => .running
    | some (chunk, s) =>
      if chunk = some stackMark.chunk then
        .done () { (s.setCurrent stackMark.chunk stackMark.chunkCurrent) with
          last := stackMark.chunk, lastAllocation := stackMark.lastAllocation }
      else
        .failed .assertion

/-- `wasm_init_stack_allocator`, the fallback's object for the first chunk being at `chunk`. -/
def initStackAllocator (chunk : Nat) (bytes : Nat → UInt8) : State :=
  let s : State := { first := chunk, last := chunk, bytes, outstanding := [chunk] }
  s.setChunk chunk
    { start := chunk + sizeofChunk, current := chunk + sizeofChunk,
      end_ := chunk + sizeofChunk + chunkMaxAvail, link := none }

/-! ## Its use -/

/-- An allocation that is live, with its contents; `mark` is what a mark remembers. -/
structure Block where
  addr : Nat
  size : Nat
  align : Nat
  data : List UInt8
  mark : Option StackAllocatorMark := none

/-- The calls. A block is named by its place among the live ones, the newest first; no place is
the null pointer. `store` is a store of the block's owner. -/
inductive Call where
  | alloc (size align : Nat)
  | realloc (i : Option Nat) (size align : Nat)
  | free (i : Option Nat)
  | mark
  | resetToMark (i : Nat)
  | setjmpHandler
  | store (i k : Nat) (v : UInt8)

/-- What has become of the contents of a block that moves to `p`. -/
def Block.moved (old : Block) (p size align : Nat) (s : State) : Block :=
  let kept := old.data.take size
  { addr := p, size, align, data := kept ++ s.read (p + kept.length) (size - kept.length) }

/-- A call, with the blocks that are live after it. -/
def exec (fuel : Nat) (reply : Option Nat) (live : List Block) (s : State) :
    Call → Outcome (List Block)
  | .alloc size align =>
    (stackAlloc reply size align s).bind fun p s =>
      .done ({ addr := p, size, align, data := s.read p size } :: live) s
  | .realloc none size align =>
    (stackRealloc fuel reply none size align s).bind fun p s =>
      .done ({ addr := p, size, align, data := s.read p size } :: live) s
  | .realloc (some i) size align =>
    match live[i]? with
    | none => .done live s
    | some old =>
      (stackRealloc fuel reply (some old.addr) size align s).bind fun p s =>
        .done (old.moved p size align s :: live.eraseIdx i) s
  | .free none => (stackFree none s).bind fun _ s => .done live s
  | .free (some i) =>
    match live[i]? with
    | none => .done live s
    | some b => (stackFree (some b.addr) s).bind fun _ s => .done (live.eraseIdx i) s
  | .mark =>
    (stackMark reply s).bind fun p s' =>
      .done ({ addr := p, size := sizeofMark, align := defaultAlign, data := s'.read p sizeofMark,
               mark := some s.saved } :: live) s'
  | .resetToMark i =>
    match live[i]? with
    | none => .done live s
    | some b => (stackResetToMark fuel b.addr s).bind fun _ s => .done (live.drop (i + 1)) s
  | .setjmpHandler => .done live { s with hasJmpbuf := true }
  | .store i k v =>
    match live[i]? with
    | none => .done live s
    | some b =>
      .done (live.set i { b with data := b.data.set k v })
        { s with bytes := Function.update s.bytes (b.addr + k) v }

/-- The block that a call names is live, and a mark if and only if the call takes one. -/
def Usable (live : List Block) : Call → Prop
  | .realloc (some i) _ _ | .free (some i) => ∃ b, live[i]? = some b ∧ b.mark = none
  | .resetToMark i => ∃ b, live[i]? = some b ∧ b.mark ≠ none
  | .store i k _ => ∃ b, live[i]? = some b ∧ b.mark = none ∧ k < b.size
  | _ => True

instance (live : List Block) (call : Call) : Decidable (Usable live call) :=
  match call with
  | .realloc (some i) _ _ | .free (some i) =>
    decidable_of_iff (∃ b ∈ live[i]?, b.mark = none) Iff.rfl
  | .resetToMark i => decidable_of_iff (∃ b ∈ live[i]?, b.mark ≠ none) Iff.rfl
  | .store i k _ => decidable_of_iff (∃ b ∈ live[i]?, b.mark = none ∧ k < b.size) Iff.rfl
  | .alloc _ _ | .realloc none _ _ | .free none | .mark | .setjmpHandler => .isTrue trivial

/-- The arguments that the assertions of `stack_alloc` and `allocate_chunk` let through. -/
def Accepted : Call → Prop
  | .alloc size align | .realloc _ size align =>
    isPowerOfTwo (align % 2 ^ 32) = true ∧ size < sizeMax - align + 1 ∧
      size + align - 1 < sizeMax - sizeofChunk
  | _ => True

/-- The size of the object that a call asks the fallback for, if it does. -/
def Call.request : Call → Nat
  | .alloc size align | .realloc _ size align =>
    (if chunkMaxAvail ≤ size + align - 1 then size + align - 1 else chunkMaxAvail) + sizeofChunk
  | _ => chunkSize

/-- What the fallback promises of an object of `n` bytes: it is aligned for a chunk and apart
from the objects handed out before. -/
def Honest (s : State) (n : Nat) (reply : Option Nat) : Prop :=
  ∀ chunk, reply = some chunk → chunkAlign ∣ chunk ∧ chunk ∉ s.outstanding ∧
    ∀ c ∈ s.outstanding, (s.chunks c).end_ ≤ chunk ∨ chunk + n ≤ c

instance (s : State) (n : Nat) (reply : Option Nat) : Decidable (Honest s n reply) :=
  decidable_of_iff (∀ chunk ∈ reply, chunkAlign ∣ chunk ∧ chunk ∉ s.outstanding ∧
    ∀ c ∈ s.outstanding, (s.chunks c).end_ ≤ chunk ∨ chunk + n ≤ c) Iff.rfl

/-- One call, the program goes on after it. -/
def Step (s : State) (live : List Block) (call : Call) (s' : State) (live' : List Block) : Prop :=
  ∃ fuel reply, Honest s call.request reply ∧
    (exec fuel reply live s call = .done live' s' ∨
      exec fuel reply live s call = .jumped s' ∧ live' = live)

/-- The states a program gets to, from the allocator's set up, by calls that all meet `P`. -/
inductive Reaches (P : State → List Block → Call → Prop) : State → List Block → Prop
  | init (chunk : Nat) (bytes : Nat → UInt8) (h : chunkAlign ∣ chunk) :
      Reaches P (initStackAllocator chunk bytes) []
  | call {s s' : State} {live live' : List Block} (call : Call) (h : Reaches P s live)
      (husable : Usable live call) (hP : P s live call) (hstep : Step s live call s' live') :
      Reaches P s' live'

/-- Calls one after the other, each with the fallback's answer; `none` if one of them is not
usable or the program does not go on after it. -/
def execAll (fuel : Nat) : List (Call × Option Nat) → State → List Block →
    Option (State × List Block)
  | [], s, live => some (s, live)
  | (call, reply) :: calls, s, live =>
    if Usable live call ∧ Honest s call.request reply then
      match exec fuel reply live s call with
      | .done live s => execAll fuel calls s live
      | _ => none
    else
      none

theorem reaches_execAll {P : State → List Block → Call → Prop} {fuel : Nat}
    {calls : List (Call × Option Nat)} {s s' : State} {live live' : List Block}
    (h : Reaches P s live) (hP : ∀ c ∈ calls, ∀ s live, P s live c.1)
    (hexec : execAll fuel calls s live = some (s', live')) : Reaches P s' live' := by
  induction calls generalizing s live with
  | nil =>
    obtain ⟨rfl, rfl⟩ : s = s' ∧ live = live' := by simpa [execAll] using hexec
    exact h
  | cons c calls ih =>
    obtain ⟨call, reply⟩ := c
    rw [execAll] at hexec
    split at hexec
    · rename_i hcall
      split at hexec
      · rename_i live1 s1 hdone
        have hstep : Step s live call s1 live1 := ⟨fuel, reply, hcall.2, Or.inl hdone⟩
        exact ih (.call call h hcall.1 (hP _ List.mem_cons_self s live) hstep)
          (fun c hc => hP c (List.mem_cons_of_mem _ hc)) hexec
      · cases hexec
    · cases hexec

end Allocator

end SexprWasm
