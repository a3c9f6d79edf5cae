import SexprWasm.Allocator.StackAllocator
import SexprWasm.Lib.Links

/-!
# The chunks of the stack allocator

`Arena` is what holds of the chunks: the used ones, from the last back,
are those that marks and allocations of common size stack up and behind
them the ones with an allocation too large for that; the free ones are
all of the common size, and every object of the fallback is in one of
the lists once. `Layered` and `Below` place the blocks: those older than
a mark are in the chunks below it, and in the mark's own chunk they end
where the mark says.

`Inv` is the invariant of the runs, and `Ensures` how a call that keeps
it ends.
-/

namespace SexprWasm

namespace Allocator

open Links Ranges

/-! ## Rounding up -/

theorem isPowerOfTwo_iff {x : Nat} : isPowerOfTwo x = true ↔ ∃ k, x = 2 ^ k := by
  simp only [isPowerOfTwo, Bool.and_eq_true, decide_eq_true_eq]
  exact Nat.ne_zero_and_sub_one_eq_zero_iff_isPowerOfTwo

theorem isPowerOfTwo_pos {x : Nat} (h : isPowerOfTwo x = true) : 0 < x := by
  obtain ⟨k, rfl⟩ := isPowerOfTwo_iff.mp h
  exact Nat.two_pow_pos k

theorem alignUp_two_pow (p k : Nat) : alignUp p (2 ^ k) = (p + 2 ^ k - 1) / 2 ^ k * 2 ^ k :=
  ldiff_two_pow_sub_one _ k

theorem dvd_alignUp {align : Nat} (h : isPowerOfTwo align = true) (p : Nat) :
    align ∣ alignUp p align := by
  obtain ⟨k, rfl⟩ := isPowerOfTwo_iff.mp h
  rw [alignUp_two_pow]
  exact Nat.dvd_mul_left _ _

theorem le_alignUp {align : Nat} (h : isPowerOfTwo align = true) (p : Nat) :
    p ≤ alignUp p align := by
  obtain ⟨k, rfl⟩ := isPowerOfTwo_iff.mp h
  have hpos : 0 < 2 ^ k := Nat.two_pow_pos k
  have hdiv := Nat.div_add_mod (p + 2 ^ k - 1) (2 ^ k)
  have hmod := Nat.mod_lt (p + 2 ^ k - 1) hpos
  rw [alignUp_two_pow, Nat.mul_comm]
  omega

theorem alignUp_le {align : Nat} (h : isPowerOfTwo align = true) (p : Nat) :
    alignUp p align ≤ p + align - 1 := by
  obtain ⟨k, rfl⟩ := isPowerOfTwo_iff.mp h
  rw [alignUp_two_pow]
  exact Nat.div_mul_le_self _ _

/-- From an even address the next multiple of an even alignment is not the last address that
rounding up may reach. -/
theorem alignUp_lt {align p : Nat} (h : isPowerOfTwo align = true) (hp : chunkAlign ∣ p)
    (halign : 1 < align) : alignUp p align < p + align - 1 := by
  obtain ⟨k, rfl⟩ := isPowerOfTwo_iff.mp h
  have hle := alignUp_le h p
  have hdvd : 2 ∣ 2 ^ k := by
    cases k with
    | zero => simp at halign
    | succ k => exact Dvd.intro_left _ rfl
  have heven : 2 ∣ alignUp p (2 ^ k) := hdvd.trans (dvd_alignUp h p)
  have heven' : 2 ∣ p := Dvd.dvd.trans (by decide) hp
  omega

theorem sizeofChunk_add_chunkMaxAvail : sizeofChunk + chunkMaxAvail = chunkSize := by decide

/-! ## Writes to a chunk -/

namespace State

variable (s : State) (p q v : Nat) (l : Option Nat)

@[simp] theorem last_setCurrent : (s.setCurrent p v).last = s.last := rfl
@[simp] theorem first_setCurrent : (s.setCurrent p v).first = s.first := rfl
@[simp] theorem nextFree_setCurrent : (s.setCurrent p v).nextFree = s.nextFree := rfl
@[simp] theorem lastAllocation_setCurrent : (s.setCurrent p v).lastAllocation = s.lastAllocation := rfl
@[simp] theorem outstanding_setCurrent : (s.setCurrent p v).outstanding = s.outstanding := rfl
@[simp] theorem bytes_setCurrent : (s.setCurrent p v).bytes = s.bytes := rfl
@[simp] theorem marks_setCurrent : (s.setCurrent p v).marks = s.marks := rfl

@[simp] theorem last_setLink : (s.setLink p l).last = s.last := rfl
@[simp] theorem first_setLink : (s.setLink p l).first = s.first := rfl
@[simp] theorem nextFree_setLink : (s.setLink p l).nextFree = s.nextFree := rfl
@[simp] theorem lastAllocation_setLink : (s.setLink p l).lastAllocation = s.lastAllocation := rfl
@[simp] theorem outstanding_setLink : (s.setLink p l).outstanding = s.outstanding := rfl
@[simp] theorem bytes_setLink : (s.setLink p l).bytes = s.bytes := rfl
@[simp] theorem marks_setLink : (s.setLink p l).marks = s.marks := rfl

@[simp] theorem end_setCurrent : ((s.setCurrent p v).chunks q).end_ = (s.chunks q).end_ := by
  by_cases h : q = p
  · subst h
    simp [setCurrent, setChunk]
  · simp [setCurrent, setChunk, h]

@[simp] theorem start_setCurrent : ((s.setCurrent p v).chunks q).start = (s.chunks q).start := by
  by_cases h : q = p
  · subst h
    simp [setCurrent, setChunk]
  · simp [setCurrent, setChunk, h]

@[simp] theorem link_setCurrent : (s.setCurrent p v).link = s.link := by
  funext q
  by_cases h : q = p
  · subst h
    simp [setCurrent, setChunk, link]
  · simp [setCurrent, setChunk, link, h]

@[simp] theorem current_setCurrent_self : ((s.setCurrent p v).chunks p).current = v := by
  simp [setCurrent, setChunk]

theorem current_setCurrent_of_ne {p q : Nat} (h : q ≠ p) :
    ((s.setCurrent p v).chunks q).current = (s.chunks q).current := by
  simp [setCurrent, setChunk, h]

@[simp] theorem end_setLink : ((s.setLink p l).chunks q).end_ = (s.chunks q).end_ := by
  by_cases h : q = p
  · subst h
    simp [setLink, setChunk]
  · simp [setLink, setChunk, h]

@[simp] theorem start_setLink : ((s.setLink p l).chunks q).start = (s.chunks q).start := by
  by_cases h : q = p
  · subst h
    simp [setLink, setChunk]
  · simp [setLink, setChunk, h]

@[simp] theorem current_setLink : ((s.setLink p l).chunks q).current = (s.chunks q).current := by
  by_cases h : q = p
  · subst h
    simp [setLink, setChunk]
  · simp [setLink, setChunk, h]

@[simp] theorem link_setLink : (s.setLink p l).link = Function.update s.link p l := by
  funext q
  by_cases h : q = p
  · subst h
    simp [setLink, setChunk, link]
  · simp [setLink, setChunk, link, h]

end State

/-! ## The chunks -/

/-- The chunks: `stack` and `big` are the used ones from the last back, `free` those of the free
list, and `loose` those in neither, while a call is on its way. -/
structure Arena (s : State) (stack big free loose : List Nat) : Prop where
  used : Seg s.link (some s.last) (stack ++ big) none
  freeList : Seg s.link s.nextFree free none
  owned : s.outstanding.Perm (loose ++ (stack ++ big ++ free))
  nodup : s.outstanding.Nodup
  first : (stack ++ big).getLast? = some s.first
  last : ∃ below, stack = s.last :: below
  formed : ∀ c ∈ s.outstanding, chunkAlign ∣ c ∧ (s.chunks c).start = c + sizeofChunk ∧
    c + sizeofChunk ≤ (s.chunks c).end_
  standard : ∀ c, c ∈ stack ∨ c ∈ free → (s.chunks c).end_ = c + chunkSize
  fresh : ∀ c ∈ free, (s.chunks c).current = c + sizeofChunk
  apart : ∀ c ∈ s.outstanding, ∀ d ∈ s.outstanding, c ≠ d →
    (s.chunks c).end_ ≤ d ∨ (s.chunks d).end_ ≤ c

variable {s s' : State} {stack big free loose : List Nat} {live : List Block}
  {reply : Option Nat} {chunk : Nat}

namespace Arena

theorem nodup_lists (h : Arena s stack big free loose) :
    (loose ++ (stack ++ big ++ free)).Nodup :=
  h.owned.nodup_iff.mp h.nodup

theorem mem_outstanding (h : Arena s stack big free loose) {c : Nat} :
    c ∈ s.outstanding ↔ c ∈ loose ∨ c ∈ stack ++ big ∨ c ∈ free := by
  simp [h.owned.mem_iff, or_assoc]

theorem last_mem (h : Arena s stack big free loose) : s.last ∈ stack := by
  obtain ⟨below, hbelow⟩ := h.last
  simp [hbelow]

theorem used_mem (h : Arena s stack big free loose) {c : Nat} (hc : c ∈ stack ++ big) :
    c ∈ s.outstanding :=
  h.mem_outstanding.mpr (Or.inr (Or.inl hc))

/-- The pointer `current` of a chunk that is not free may be anywhere. -/
theorem setCurrent (h : Arena s stack big free loose) {c : Nat} (hc : c ∉ free) (v : Nat) :
    Arena (s.setCurrent c v) stack big free loose where
  used := by simpa using h.used
  freeList := by simpa using h.freeList
  owned := h.owned
  nodup := h.nodup
  first := h.first
  last := h.last
  formed := by simpa using h.formed
  standard := by simpa using h.standard
  fresh := by
    intro d hd
    have hne : d ≠ c := fun heq => hc (heq ▸ hd)
    rw [State.current_setCurrent_of_ne s v hne]
    exact h.fresh d hd
  apart := by simpa using h.apart

/-- The chunks have no part in the rest of the state. -/
theorem frame (h : Arena s stack big free loose) (lastAllocation : Option Nat) (hasJmpbuf : Bool)
    (marks : Nat → Option StackAllocatorMark) (bytes : Nat → UInt8) :
    Arena { s with lastAllocation, hasJmpbuf, marks, bytes } stack big free loose :=
  ⟨h.used, h.freeList, h.owned, h.nodup, h.first, h.last, h.formed, h.standard, h.fresh, h.apart⟩

theorem not_mem_free (h : Arena s stack big free loose) {c : Nat}
    (hc : c ∈ stack ++ big ∨ c ∈ loose) : c ∉ free := by
  have hnodup := h.nodup_lists
  rw [List.nodup_append, List.nodup_append] at hnodup
  intro hfree
  rcases hc with hc | hc
  · exact hnodup.2.1.2.2 c hc c hfree rfl
  · exact hnodup.2.2 c hc c (List.mem_append_right _ hfree) rfl

end Arena

/-! ## Blocks in chunks -/

/-- The `n` bytes from `p` on are in the chunk `c`. -/
def Within (s : State) (c p n : Nat) : Prop :=
  c + sizeofChunk ≤ p ∧ p < (s.chunks c).end_ ∧ p + n ≤ (s.chunks c).end_

/-- In the chunk of `mark` the blocks of `live` end below its `current` pointer, and at its last
allocation if they do not start there. -/
structure Below (s : State) (mark : StackAllocatorMark) (live : List Block) : Prop where
  current : mark.chunk + sizeofChunk ≤ mark.chunkCurrent
  blocks : ∀ b ∈ live, Within s mark.chunk b.addr b.size → b.addr + b.size ≤ mark.chunkCurrent
  lastAllocation : ∀ l, mark.lastAllocation = some l →
    mark.chunk + sizeofChunk ≤ l ∧ l < (s.chunks mark.chunk).end_ ∧
    ∀ b ∈ live, Within s mark.chunk b.addr b.size → b.addr + b.size ≤ l ∨ b.addr = l

/-- Every block is in a used chunk, and those older than a mark are in the chunks from the
mark's on. -/
def Layered (s : State) (big : List Nat) : List Nat → List Block → Prop
  | _, [] => True
  | stack, b :: older =>
    (∃ c ∈ stack ++ big, Within s c b.addr b.size) ∧
      match b.mark with
      | none => Layered s big stack older
      | some mark =>
        b.size = sizeofMark ∧ s.marks b.addr = some mark ∧ Below s mark older ∧
          ∃ popped below, stack = popped ++ mark.chunk :: below ∧
            Layered s big (mark.chunk :: below) older

theorem Below.mono {mark : StackAllocatorMark} {live' : List Block} (h : Below s mark live)
    (hsub : ∀ b' ∈ live', ∃ b ∈ live, b'.addr = b.addr ∧ b'.size = b.size) :
    Below s mark live' where
  current := h.current
  blocks := by
    intro b' hb' hwithin
    obtain ⟨b, hb, haddr, hsize⟩ := hsub b' hb'
    rw [haddr, hsize] at hwithin ⊢
    exact h.blocks b hb hwithin
  lastAllocation := by
    intro l hl
    obtain ⟨hstart, hend, hblocks⟩ := h.lastAllocation l hl
    refine ⟨hstart, hend, fun b' hb' hwithin => ?_⟩
    obtain ⟨b, hb, haddr, hsize⟩ := hsub b' hb'
    rw [haddr, hsize] at hwithin
    rw [haddr, hsize]
    exact hblocks b hb hwithin

theorem within_congr {c p n : Nat} (h : (s'.chunks c).end_ = (s.chunks c).end_) :
    Within s' c p n ↔ Within s c p n := by
  simp [Within, h]

theorem Below.congr {mark : StackAllocatorMark} (h : Below s mark live)
    (hend : (s'.chunks mark.chunk).end_ = (s.chunks mark.chunk).end_) : Below s' mark live where
  current := h.current
  blocks b hb hwithin := h.blocks b hb ((within_congr hend).mp hwithin)
  lastAllocation l hl := by
    obtain ⟨hstart, hlt, hblocks⟩ := h.lastAllocation l hl
    rw [hend]
    exact ⟨hstart, hlt, fun b hb hwithin => hblocks b hb ((within_congr hend).mp hwithin)⟩

namespace Layered

theorem congr (h : Layered s big stack live)
    (hend : ∀ c ∈ stack ++ big, (s'.chunks c).end_ = (s.chunks c).end_)
    (hmarks : ∀ b ∈ live, b.mark ≠ none → s'.marks b.addr = s.marks b.addr) :
    Layered s' big stack live := by
  induction live generalizing stack with
  | nil => trivial
  | cons b older ih =>
    obtain ⟨⟨c, hc, hwithin⟩, hrest⟩ := h
    refine ⟨⟨c, hc, (within_congr (hend c hc)).mpr hwithin⟩, ?_⟩
    have hmarks' : ∀ b ∈ older, b.mark ≠ none → s'.marks b.addr = s.marks b.addr :=
      fun b hb => hmarks b (List.mem_cons_of_mem _ hb)
    cases hb : b.mark with
    | none =>
      simp only [hb] at hrest
      exact ih hrest hend hmarks'
    | some mark =>
      simp only [hb] at hrest
      obtain ⟨hsize, hmark, hbelow, popped, below, rfl, hrest⟩ := hrest
      have hmem : mark.chunk ∈ popped ++ mark.chunk :: below ++ big := by simp
      refine ⟨hsize, ?_, hbelow.congr (hend _ hmem), popped, below, rfl, ?_⟩
      · rw [hmarks b List.mem_cons_self (by simp [hb]), hmark]
      · refine ih hrest (fun c hc => hend c ?_) hmarks'
        rw [List.append_assoc]
        exact List.mem_append_right _ hc

/-- A chunk on top of the stack holds nothing yet. -/
theorem push (h : Layered s big stack live) (pre : List Nat) : Layered s big (pre ++ stack) live := by
  induction live generalizing stack with
  | nil => trivial
  | cons b older ih =>
    obtain ⟨⟨c, hc, hwithin⟩, hrest⟩ := h
    refine ⟨⟨c, ?_, hwithin⟩, ?_⟩
    · rw [List.append_assoc]
      exact List.mem_append_right _ hc
    cases hb : b.mark with
    | none =>
      simp only [hb] at hrest
      exact ih hrest
    | some mark =>
      simp only [hb] at hrest
      obtain ⟨hsize, hmark, hbelow, popped, below, rfl, hrest⟩ := hrest
      exact ⟨hsize, hmark, hbelow, pre ++ popped, below, by simp, hrest⟩

theorem thread (h : Layered s big stack live) (post : List Nat) :
    Layered s (big ++ post) stack live := by
  induction live generalizing stack with
  | nil => trivial
  | cons b older ih =>
    obtain ⟨⟨c, hc, hwithin⟩, hrest⟩ := h
    refine ⟨⟨c, ?_, hwithin⟩, ?_⟩
    · rw [← List.append_assoc]
      exact List.mem_append_left _ hc
    cases hb : b.mark with
    | none =>
      simp only [hb] at hrest
      exact ih hrest
    | some mark =>
      simp only [hb] at hrest
      obtain ⟨hsize, hmark, hbelow, popped, below, rfl, hrest⟩ := hrest
      exact ⟨hsize, hmark, hbelow, popped, below, rfl, ih hrest⟩

theorem within (h : Layered s big stack live) {b : Block} (hb : b ∈ live) :
    ∃ c ∈ stack ++ big, Within s c b.addr b.size := by
  induction live generalizing stack with
  | nil => cases hb
  | cons b' older ih =>
    obtain ⟨hwithin, hrest⟩ := h
    rcases List.mem_cons.mp hb with rfl | hb
    · exact hwithin
    cases hb' : b'.mark with
    | none =>
      simp only [hb'] at hrest
      exact ih hrest hb
    | some mark =>
      simp only [hb'] at hrest
      obtain ⟨_, _, _, popped, below, rfl, hrest⟩ := hrest
      obtain ⟨c, hc, hwithin⟩ := ih hrest hb
      refine ⟨c, ?_, hwithin⟩
      rw [List.append_assoc]
      exact List.mem_append_right _ hc

theorem size_of_mark (h : Layered s big stack live) {b : Block} (hb : b ∈ live)
    (hmark : b.mark ≠ none) : b.size = sizeofMark := by
  induction live generalizing stack with
  | nil => cases hb
  | cons b' older ih =>
    obtain ⟨_, hrest⟩ := h
    cases hb' : b'.mark with
    | none =>
      simp only [hb'] at hrest
      rcases List.mem_cons.mp hb with rfl | hb
      · exact absurd hb' hmark
      · exact ih hrest hb
    | some mark =>
      simp only [hb'] at hrest
      obtain ⟨hsize, _, _, _, _, _, hrest⟩ := hrest
      rcases List.mem_cons.mp hb with rfl | hb
      · exact hsize
      · exact ih hrest hb

theorem sublist (h : Layered s big stack live) {live' : List Block} (hsub : live'.Sublist live) :
    Layered s big stack live' := by
  induction hsub generalizing stack with
  | slnil => trivial
  | @cons older' older b hsub ih =>
    obtain ⟨_, hrest⟩ := h
    cases hb : b.mark with
    | none =>
      simp only [hb] at hrest
      exact ih hrest
    | some mark =>
      simp only [hb] at hrest
      obtain ⟨_, _, _, popped, below, rfl, hrest⟩ := hrest
      exact (ih hrest).push popped
  | @cons_cons older' older b hsub ih =>
    obtain ⟨hwithin, hrest⟩ := h
    refine ⟨hwithin, ?_⟩
    cases hb : b.mark with
    | none =>
      simp only [hb] at hrest
      exact ih hrest
    | some mark =>
      simp only [hb] at hrest
      obtain ⟨hsize, hmark, hbelow, popped, below, rfl, hrest⟩ := hrest
      have hbelow' : Below s mark older' :=
        hbelow.mono fun b hb => ⟨b, hsub.subset hb, rfl, rfl⟩
      exact ⟨hsize, hmark, hbelow', popped, below, rfl, ih hrest⟩

/-- The contents of a block have no part in where it is. -/
theorem set (h : Layered s big stack live) {i : Nat} {b : Block} (hb : live[i]? = some b)
    (data : List UInt8) : Layered s big stack (live.set i { b with data }) := by
  induction live generalizing stack i with
  | nil => trivial
  | cons b' older ih =>
    obtain ⟨hwithin, hrest⟩ := h
    cases i with
    | zero =>
      obtain rfl : b' = b := by simpa using hb
      exact ⟨hwithin, hrest⟩
    | succ i =>
      rw [List.getElem?_cons_succ] at hb
      refine ⟨hwithin, ?_⟩
      cases hb' : b'.mark with
      | none =>
        simp only [hb'] at hrest
        exact ih hrest hb
      | some mark =>
        simp only [hb'] at hrest
        obtain ⟨hsize, hmark, hbelow, popped, below, rfl, hrest⟩ := hrest
        refine ⟨hsize, hmark, hbelow.mono fun d hd => ?_, popped, below, rfl, ih hrest hb⟩
        rcases List.mem_or_eq_of_mem_set hd with hd | rfl
        · exact ⟨d, hd, rfl, rfl⟩
        · exact ⟨b, List.mem_of_getElem? hb, rfl, rfl⟩

/-- What is known of a mark that is live. -/
theorem mark (h : Layered s big stack live) {i : Nat} {b : Block} {mark : StackAllocatorMark}
    (hb : live[i]? = some b) (hmark : b.mark = some mark) :
    s.marks b.addr = some mark ∧ Below s mark (live.drop (i + 1)) ∧
      ∃ popped below, stack = popped ++ mark.chunk :: below ∧
        Layered s big (mark.chunk :: below) (live.drop (i + 1)) := by
  induction live generalizing stack i with
  | nil => simp at hb
  | cons b' older ih =>
    obtain ⟨_, hrest⟩ := h
    cases i with
    | zero =>
      obtain rfl : b' = b := by simpa using hb
      simp only [hmark] at hrest
      exact ⟨hrest.2.1, hrest.2.2⟩
    | succ i =>
      rw [List.getElem?_cons_succ] at hb
      rw [List.drop_succ_cons]
      cases hb' : b'.mark with
      | none =>
        simp only [hb'] at hrest
        exact ih hrest hb
      | some mark' =>
        simp only [hb'] at hrest
        obtain ⟨_, _, _, popped', below', rfl, hrest⟩ := hrest
        obtain ⟨hat, hbelow, popped, below, heq, hlayered⟩ := ih hrest hb
        refine ⟨hat, hbelow, popped' ++ popped, below, ?_, hlayered⟩
        rw [heq, List.append_assoc]

end Layered

/-- The blocks: apart, aligned and with the contents that their owners gave them. -/
structure Blocks (s : State) (live : List Block) : Prop where
  apart : live.Pairwise fun b d => Apart b.addr b.size d.addr d.size
  aligned : ∀ b ∈ live, b.align ∣ b.addr
  contents : ∀ b ∈ live, s.read b.addr b.size = b.data

theorem Blocks.congr (h : Blocks s live) (hbytes : s'.bytes = s.bytes) : Blocks s' live where
  apart := h.apart
  aligned := h.aligned
  contents := by
    simp only [State.read, hbytes]
    exact h.contents

/-- The invariant of the allocator's runs. -/
structure Inv (s : State) (live : List Block) (stack big free : List Nat) : Prop where
  arena : Arena s stack big free []
  layered : Layered s big stack live
  top : Below s s.saved live
  blocks : Blocks s live

/-! ## How calls end -/

/-- A call that returns ensures `Q`, one that leaves by `longjmp` ensures `J`, an assertion fails
only if `A` and the call goes on only if `R`. -/
def Outcome.Ensures {α : Type} (Q : α → State → Prop) (J : State → Prop) (A R : Prop) :
    Outcome α → Prop
  | .done a s => Q a s
  | .jumped s => J s
  | .failed .assertion => A
  | .failed .fatal => True
  | .running => R

section Ensures

variable {α β : Type} {Q Q' : α → State → Prop} {P : β → State → Prop} {J J' : State → Prop}
  {A A' R R' : Prop}

theorem Outcome.Ensures.bind {x : Outcome α} {f : α → State → Outcome β} (hx : x.Ensures Q J A R)
    (hf : ∀ a s, Q a s → (f a s).Ensures P J A R) : (x.bind f).Ensures P J A R := by
  cases x with
  | done a s => exact hf a s hx
  | jumped s => exact hx
  | failed e => cases e <;> exact hx
  | running => exact hx

theorem Outcome.Ensures.mono {x : Outcome α} (hx : x.Ensures Q J A R)
    (hQ : ∀ a s, Q a s → Q' a s) (hJ : ∀ s, J s → J' s) (hA : A → A') (hR : R → R') :
    x.Ensures Q' J' A' R' := by
  cases x with
  | done a s => exact hQ a s hx
  | jumped s => exact hJ s hx
  | failed e =>
    cases e with
    | assertion => exact hA hx
    | fatal => trivial
  | running => exact hR hx

end Ensures

/-! ## Taking a chunk -/

theorem Arena.apart_of_ne (h : Arena s stack big free loose) {c d p q m n : Nat}
    (hc : c ∈ s.outstanding) (hd : d ∈ s.outstanding) (hne : c ≠ d) (hp : Within s c p m)
    (hq : Within s d q n) : Apart p m q n := by
  have hcd := h.apart c hc d hd hne
  simp only [Within] at hp hq
  rcases hcd with hcd | hcd
  · exact apart_of_le (by omega)
  · exact apart_of_ge (by omega)

theorem Arena.within_unique (h : Arena s stack big free loose) {c d p n : Nat}
    (hc : c ∈ s.outstanding) (hd : d ∈ s.outstanding) (hp : Within s c p n)
    (hdp : s.allocationInChunk d p = true) : d = c := by
  by_contra hne
  have hcd := h.apart d hd c hc hne
  simp only [Within] at hp
  simp only [State.allocationInChunk, Bool.and_eq_true, decide_eq_true_eq] at hdp
  omega

/-- `s'` comes from `s` by taking a chunk with room for `n` bytes out of the free list or from the
fallback. -/
structure Taken (s : State) (stack big : List Nat) (n chunk : Nat) (s' : State) : Prop where
  arena : ∃ free, Arena s' stack big free [chunk]
  current : (s'.chunks chunk).current = chunk + sizeofChunk
  end_ : (s'.chunks chunk).end_ = chunk + sizeofChunk + n
  others : ∀ c ∈ stack ++ big, s'.chunks c = s.chunks c
  first : s'.first = s.first
  last : s'.last = s.last
  lastAllocation : s'.lastAllocation = s.lastAllocation
  bytes : s'.bytes = s.bytes
  marks : s'.marks = s.marks
  link : s'.link chunk = none ∨
    s.nextFree = some chunk ∧ n + sizeofChunk = chunkSize ∧ s'.link chunk = s.link chunk

/-- A new object of the fallback, not yet in a list. -/
theorem Arena.adopt (h : Arena s stack big free []) (halign : chunkAlign ∣ chunk)
    (hnew : chunk ∉ s.outstanding) {header : Chunk}
    (hs' : s' = { s.setChunk chunk header with outstanding := chunk :: s.outstanding })
    (hsame : ∀ c ∈ s.outstanding, Function.update s.chunks chunk header c = s.chunks c)
    (hheader : header.start = chunk + sizeofChunk ∧ header.start ≤ header.end_)
    (happart : ∀ c ∈ s.outstanding, (s.chunks c).end_ ≤ chunk ∨ header.end_ ≤ c) :
    Arena s' stack big free [chunk] := by
  have hchunks : ∀ c ∈ s.outstanding, s'.chunks c = s.chunks c := by
    subst hs'
    exact hsame
  have hself : s'.chunks chunk = header := by
    subst hs'
    simp [State.setChunk]
  have hlink : ∀ c ∈ s.outstanding, s'.link c = s.link c := fun c hc => by
    rw [State.link, hchunks c hc, State.link]
  have hout : s'.outstanding = chunk :: s.outstanding := by rw [hs']
  have hfields : s'.last = s.last ∧ s'.nextFree = s.nextFree ∧ s'.first = s.first := by
    subst hs'
    exact ⟨rfl, rfl, rfl⟩
  obtain ⟨hlast, hnext, hfirst⟩ := hfields
  have hfree : ∀ c ∈ free, c ∈ s.outstanding := fun c hc =>
    h.mem_outstanding.mpr (Or.inr (Or.inr hc))
  refine ⟨?_, ?_, ?_, ?_, ?_, ?_, ?_, ?_, ?_, ?_⟩
  · rw [hlast]
    exact h.used.congr fun c hc => hlink c (h.used_mem hc)
  · rw [hnext]
    exact h.freeList.congr fun c hc => hlink c (hfree c hc)
  · rw [hout]
    exact h.owned.cons chunk
  · rw [hout]
    exact h.nodup.cons hnew
  · rw [hfirst]
    exact h.first
  · rw [hlast]
    exact h.last
  · intro c hc
    rw [hout, List.mem_cons] at hc
    rcases hc with rfl | hc
    · rw [hself]
      exact ⟨halign, hheader.1, hheader.1 ▸ hheader.2⟩
    · rw [hchunks c hc]
      exact h.formed c hc
  · intro c hc
    have hmem : c ∈ s.outstanding := by
      rcases hc with hc | hc
      · exact h.used_mem (List.mem_append_left _ hc)
      · exact hfree c hc
    rw [hchunks c hmem]
    exact h.standard c hc
  · intro c hc
    rw [hchunks c (hfree c hc)]
    exact h.fresh c hc
  · intro c hc d hd hne
    rw [hout, List.mem_cons] at hc hd
    rcases hc with rfl | hc <;> rcases hd with rfl | hd
    · exact absurd rfl hne
    · rw [hself, hchunks d hd]
      exact (happart d hd).symm
    · rw [hself, hchunks c hc]
      exact happart c hc
    · rw [hchunks c hc, hchunks d hd]
      exact h.apart c hc d hd hne

theorem freshChunk_ensures {n : Nat} (h : Arena s stack big free [])
    (hhonest : Honest s (n + sizeofChunk) reply) :
    (freshChunk reply n s).Ensures (Taken s stack big n) (· = s) False False := by
  cases reply with
  | none =>
    simp only [freshChunk]
    split
    · rfl
    · trivial
  | some chunk =>
    obtain ⟨halign, hnew, happart⟩ := hhonest chunk rfl
    have hsame : ∀ c ∈ s.outstanding, Function.update s.chunks chunk
        { start := chunk + sizeofChunk, current := chunk + sizeofChunk,
          end_ := chunk + sizeofChunk + n, link := none } c = s.chunks c :=
      fun c hc => Function.update_of_ne (fun heq : c = chunk => hnew (heq ▸ hc)) _ _
    refine ⟨⟨free, h.adopt halign hnew ?_ hsame ?_ ?_⟩, ?_, ?_, ?_, rfl, rfl, rfl, rfl, rfl, ?_⟩
    · rfl
    · simp
    · intro c hc
      have hapart := happart c hc
      show _ ∨ chunk + sizeofChunk + n ≤ c
      omega
    · simp [State.setChunk]
    · simp [State.setChunk]
    · exact fun c hc => hsame c (h.used_mem hc)
    · exact Or.inl (by simp [State.link, State.setChunk])

/-- What `allocate_chunk` gives has been in the free list or is new. -/
theorem allocateChunk_ensures {n : Nat} (h : Arena s stack big free [])
    (hn : n < sizeMax - sizeofChunk) (hhonest : Honest s (n + sizeofChunk) reply) :
    (allocateChunk reply n s).Ensures (Taken s stack big n) (· = s) False False := by
  simp only [allocateChunk, hn, if_true]
  split
  · rename_i hsize
    split
    · rename_i chunk hfree
      have hlist := h.freeList
      rw [hfree] at hlist
      obtain ⟨free, rfl⟩ : ∃ free', free = chunk :: free' := by
        cases free with
        | nil => cases hlist
        | cons c free => exact ⟨free, by rw [Option.some.inj hlist.1]⟩
      have hend := h.standard chunk (Or.inr List.mem_cons_self)
      refine ⟨⟨free, ?_⟩, h.fresh chunk List.mem_cons_self, ?_, fun _ _ => rfl, rfl, rfl, rfl, rfl,
        rfl, Or.inr ⟨hfree, hsize, rfl⟩⟩
      · exact
          { used := h.used
            freeList := hlist.2
            owned := h.owned.trans (List.perm_middle :
              ((stack ++ big) ++ chunk :: free).Perm (chunk :: ((stack ++ big) ++ free)))
            nodup := h.nodup
            first := h.first
            last := h.last
            formed := h.formed
            standard := fun c hc => h.standard c (hc.imp_right (List.mem_cons_of_mem _))
            fresh := fun c hc => h.fresh c (List.mem_cons_of_mem _ hc)
            apart := h.apart }
      · show (s.chunks chunk).end_ = _
        omega
    · exact freshChunk_ensures h hhonest
  · exact freshChunk_ensures h hhonest

namespace Arena

/-- The loose chunk is threaded before the first. -/
theorem thread (h : Arena s stack big free [chunk]) (hlink : s.link chunk = none) (v : Nat) :
    Arena { (s.setCurrent chunk v).setLink s.first (some chunk) with first := chunk } stack
      (big ++ [chunk]) free [] := by
  have hnodup := h.nodup_lists
  rw [List.singleton_append, List.nodup_cons, List.mem_append, not_or] at hnodup
  obtain ⟨⟨hused, hfree⟩, hnodup⟩ := hnodup
  have hcur := h.setCurrent hfree v
  obtain ⟨init, hinit⟩ := List.getLast?_eq_some_iff.mp h.first
  have hfirst : s.first ∉ free := h.not_mem_free (Or.inl (by simp [hinit]))
  refine ⟨?_, ?_, ?_, h.nodup, by simp, h.last, ?_, ?_, ?_, ?_⟩
  · show Seg (State.link (State.setLink (s.setCurrent chunk v) s.first (some chunk))) _ _ _
    rw [State.link_setLink, State.link_setCurrent, ← List.append_assoc]
    rw [hinit] at hused ⊢
    exact Seg.extend (hinit ▸ h.used) (hinit ▸ (List.nodup_append.mp hnodup).1) hused hlink
  · show Seg (State.link (State.setLink (s.setCurrent chunk v) s.first (some chunk))) _ _ _
    rw [State.link_setLink, State.link_setCurrent]
    exact h.freeList.congr fun c hc =>
      Function.update_of_ne (fun heq : c = s.first => hfirst (heq ▸ hc)) _ _
  · refine h.owned.trans ?_
    have hperm : (chunk :: ((stack ++ big) ++ free)).Perm ((stack ++ big) ++ chunk :: free) :=
      List.perm_middle.symm
    simpa using hperm
  · simpa [State.link] using hcur.formed
  · simpa [State.link] using hcur.standard
  · simpa [State.link] using hcur.fresh
  · simpa [State.link] using hcur.apart

/-- The loose chunk becomes the last. -/
theorem push (h : Arena s stack big free [chunk])
    (hsize : (s.chunks chunk).end_ = chunk + chunkSize) :
    Arena { s.setLink chunk (some s.last) with last := chunk } (chunk :: stack) big free [] := by
  have hnodup := h.nodup_lists
  rw [List.singleton_append, List.nodup_cons, List.mem_append, not_or] at hnodup
  obtain ⟨⟨hused, hfree⟩, _⟩ := hnodup
  refine ⟨?_, ?_, ?_, h.nodup, ?_, ⟨stack, rfl⟩, ?_, ?_, ?_, ?_⟩
  · show Seg (State.link (s.setLink chunk (some s.last))) _ _ _
    rw [State.link_setLink, List.cons_append, seg_cons, Function.update_self]
    exact ⟨rfl, h.used.congr fun c hc =>
      Function.update_of_ne (fun heq : c = chunk => hused (heq ▸ hc)) _ _⟩
  · show Seg (State.link (s.setLink chunk (some s.last))) _ _ _
    rw [State.link_setLink]
    exact h.freeList.congr fun c hc =>
      Function.update_of_ne (fun heq : c = chunk => hfree (heq ▸ hc)) _ _
  · exact h.owned
  · rw [List.cons_append, List.getLast?_cons]
    simp [h.first]
  · simpa using h.formed
  · intro c hc
    show ((s.setLink chunk (some s.last)).chunks c).end_ = _
    rw [State.end_setLink]
    rcases hc with hc | hc
    · rcases List.mem_cons.mp hc with rfl | hc
      · exact hsize
      · exact h.standard c (Or.inl hc)
    · exact h.standard c (Or.inr hc)
  · simpa using h.fresh
  · simpa using h.apart

end Arena

end Allocator

end SexprWasm
