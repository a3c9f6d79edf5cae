import SexprWasm.Allocator.Arena

/-!
# Runs of the stack allocator

Every call keeps the invariant of `Arena`, and fails no assertion but
those on its arguments, with three exceptions. An allocation of exactly
the size of a chunk takes its chunk from the free list but leaves it
linked to the next free one. The free of a block of no size moves
`current` back under a block that was allocated at the same address
afterwards. And an alignment of 2³² or more passes for a power of two if
its low 32 bits are one.
-/

namespace SexprWasm

namespace Allocator

open Links Ranges

variable {s s' : State} {stack big free loose : List Nat} {live : List Block}
  {reply : Option Nat} {chunk : Nat}

/-! ## Allocations -/

variable {size align p : Nat}

/-- `s'` comes from `s` by an allocation at `p`. -/
structure Allocated (s : State) (live : List Block) (stack big : List Nat) (size align p : Nat)
    (s' : State) : Prop where
  arena : ∃ pre big' free', Arena s' (pre ++ stack) big' free' [] ∧ Layered s' big' stack live ∧
    ∃ c ∈ pre ++ stack ++ big', Within s' c p size
  top : ∀ b : Block, b.addr = p → b.size = size → Below s' s'.saved (b :: live)
  saved : Below s' s.saved live
  apart : ∀ b ∈ live, Apart p size b.addr b.size
  aligned : align ∣ p
  bytes : s'.bytes = s.bytes
  marks : s'.marks = s.marks
  ends : ∀ c ∈ stack ++ big, (s'.chunks c).end_ = (s.chunks c).end_

theorem Within.allocationInChunk {c n : Nat} (h : Within s c p n) :
    s.allocationInChunk c p = true := by
  simp only [Within] at h
  simp only [State.allocationInChunk, Bool.and_eq_true, decide_eq_true_eq]
  omega

theorem Arena.not_within {stack' big' : List Nat} (h : Arena s stack' big' free loose)
    (hlayered : Layered s big stack live) (hsub : ∀ c ∈ stack ++ big, c ∈ s.outstanding)
    (hchunk : chunk ∈ s.outstanding) (hnew : chunk ∉ stack ++ big) {b : Block} (hb : b ∈ live) :
    ¬Within s chunk b.addr b.size := by
  intro hwithin
  obtain ⟨c, hc, hin⟩ := hlayered.within hb
  exact hnew (h.within_unique hchunk (hsub c hc) hwithin hin.allocationInChunk ▸ hc)

/-- A place in a chunk is apart from the blocks if those of its chunk end below. -/
theorem Arena.apart_of_below {stack' big' : List Nat} (h : Arena s stack' big' free loose)
    (hlayered : Layered s big stack live) (hsub : ∀ c ∈ stack ++ big, c ∈ s.outstanding)
    (hchunk : chunk ∈ s.outstanding) (hwithin : Within s chunk p size)
    (hbelow : ∀ b ∈ live, Within s chunk b.addr b.size → b.addr + b.size ≤ p) :
    ∀ b ∈ live, Apart p size b.addr b.size := by
  intro b hb
  obtain ⟨c, hc, hin⟩ := hlayered.within hb
  by_cases hne : chunk = c
  · subst hne
    exact apart_of_ge (hbelow b hb hin)
  · exact h.apart_of_ne hchunk (hsub c hc) hne hwithin hin

theorem Below.cons {mark : StackAllocatorMark} (h : Below s mark live) {b : Block}
    (hb : ¬Within s mark.chunk b.addr b.size) : Below s mark (b :: live) where
  current := h.current
  blocks := by
    intro d hd hwithin
    rcases List.mem_cons.mp hd with rfl | hd
    · exact absurd hwithin hb
    · exact h.blocks d hd hwithin
  lastAllocation := by
    intro l hl
    obtain ⟨hstart, hend, hblocks⟩ := h.lastAllocation l hl
    refine ⟨hstart, hend, fun d hd hwithin => ?_⟩
    rcases List.mem_cons.mp hd with rfl | hd
    · exact absurd hwithin hb
    · exact hblocks d hd hwithin

/-- The new block is the last allocation and ends where its chunk is used up to. -/
theorem below_newest {mark : StackAllocatorMark} (hwithin : Within s mark.chunk p size)
    (hcurrent : mark.chunkCurrent = p + size) (hlast : mark.lastAllocation = some p)
    (hbelow : ∀ b ∈ live, Within s mark.chunk b.addr b.size → b.addr + b.size ≤ p) {b : Block}
    (haddr : b.addr = p) (hsize : b.size = size) : Below s mark (b :: live) where
  current := by
    have hstart := hwithin.1
    omega
  blocks := by
    intro d hd hin
    rcases List.mem_cons.mp hd with rfl | hd
    · omega
    · have hle := hbelow d hd hin
      omega
  lastAllocation := by
    intro l hl
    obtain rfl : p = l := by simpa [hlast] using hl
    refine ⟨hwithin.1, hwithin.2.1, fun d hd hin => ?_⟩
    rcases List.mem_cons.mp hd with rfl | hd
    · exact Or.inr haddr
    · exact Or.inl (hbelow d hd hin)

/-- An allocation that gets a chunk of its own. -/
theorem allocOversize_ensures (h : Inv s live stack big free)
    (halign : isPowerOfTwo align = true) (hover : chunkMaxAvail ≤ size + align - 1)
    (hsize : size + align - 1 < sizeMax - sizeofChunk)
    (hfew : size + align - 1 = chunkMaxAvail → ∀ c, s.nextFree = some c → s.link c = none)
    (hhonest : Honest s (size + align - 1 + sizeofChunk) reply) :
    (allocOversize reply size align (size + align - 1) s).Ensures
      (Allocated s live stack big size align) (· = s) False False := by
  refine Outcome.Ensures.bind (allocateChunk_ensures h.arena hsize hhonest) ?_
  intro chunk s1 htaken
  obtain ⟨free', harena⟩ := htaken.arena
  have hlink : s1.link chunk = none := by
    rcases htaken.link with hnone | ⟨hfree, hn, hlink⟩
    · exact hnone
    · rw [hlink]
      refine hfew ?_ chunk hfree
      simp only [chunkMaxAvail]
      omega
  have hloose : chunk ∈ s1.outstanding := harena.mem_outstanding.mpr (Or.inl (by simp))
  have hnew : chunk ∉ stack ++ big := by
    have hnodup := harena.nodup_lists
    rw [List.singleton_append, List.nodup_cons, List.mem_append, not_or] at hnodup
    exact hnodup.1.1
  have hdvd := (harena.formed chunk hloose).1
  have hge := le_alignUp halign (chunk + sizeofChunk)
  have hle := alignUp_le halign (chunk + sizeofChunk)
  have hpos : 0 < align := isPowerOfTwo_pos halign
  have hlt : alignUp (chunk + sizeofChunk) align < chunk + sizeofChunk + (size + align - 1) := by
    cases Nat.eq_zero_or_pos size with
    | inl hzero =>
      have halign' : 1 < align := by
        simp only [chunkMaxAvail, chunkSize, sizeofChunk] at hover
        omega
      have hstart : chunkAlign ∣ chunk + sizeofChunk := Nat.dvd_add hdvd (by decide)
      have hstrict := alignUp_lt halign hstart halign'
      omega
    | inr hsome => omega
  simp only [htaken.current, htaken.end_]
  rw [if_pos (by omega)]
  have harena' := harena.thread hlink (chunk + sizeofChunk + (size + align - 1))
  generalize hs' : { (s1.setCurrent chunk (chunk + sizeofChunk + (size + align - 1))).setLink
    s1.first (some chunk) with first := chunk } = s' at harena'
  have hend : ∀ c, (s'.chunks c).end_ = (s1.chunks c).end_ := by
    subst hs'
    simp
  have hends : ∀ c ∈ stack ++ big, (s'.chunks c).end_ = (s.chunks c).end_ := fun c hc => by
    rw [hend, htaken.others c hc]
  have hmarks : s'.marks = s.marks := by
    subst hs'
    exact htaken.marks
  have hlayered : Layered s' big stack live :=
    h.layered.congr hends fun b _ _ => by rw [hmarks]
  have hlast : s.last ∈ stack ++ big := List.mem_append_left _ h.arena.last_mem
  have hsaved : s'.saved = s.saved := by
    have hne : s.last ≠ chunk := fun heq => hnew (heq ▸ hlast)
    subst hs'
    simp only [State.saved, State.last_setLink, State.last_setCurrent, State.current_setLink,
      htaken.last, State.current_setCurrent_of_ne _ _ hne, htaken.others _ hlast]
    simp [htaken.lastAllocation]
  have hwithin : Within s' chunk (alignUp (chunk + sizeofChunk) align) size := by
    simp only [Within, hend, htaken.end_]
    omega
  have hmem : ∀ c ∈ stack ++ big, c ∈ s'.outstanding := fun c hc =>
    harena'.used_mem (by simpa [← or_assoc] using Or.inl (List.mem_append.mp hc))
  have hmem' : chunk ∈ s'.outstanding := harena'.used_mem (by simp)
  have hnone : ∀ b ∈ live, ¬Within s' chunk b.addr b.size := fun b hb =>
    harena'.not_within hlayered hmem hmem' hnew hb
  have hbelow : Below s' s.saved live := h.top.congr (hends _ hlast)
  show Allocated s live stack big size align _ _
  rw [show ({ ((s1.setCurrent chunk (chunk + sizeofChunk + (size + align - 1))).setLink
    (s1.setCurrent chunk (chunk + sizeofChunk + (size + align - 1))).first (some chunk)) with
    first := chunk } : State) = s' from hs']
  exact
    { arena := ⟨[], big ++ [chunk], free', harena', hlayered.thread [chunk], chunk, by simp,
        hwithin⟩
      top := by
        intro b haddr hbsize
        rw [hsaved]
        refine hbelow.cons fun hin => hnew ?_
        rw [haddr] at hin
        have heq := harena'.within_unique (hmem _ hlast) hmem' hin hwithin.allocationInChunk
        exact heq ▸ hlast
      saved := hbelow
      apart := harena'.apart_of_below hlayered hmem hmem' hwithin
        fun b hb hin => absurd hin (hnone b hb)
      aligned := dvd_alignUp halign _
      bytes := by
        subst hs'
        exact htaken.bytes
      marks := hmarks
      ends := hends }

/-- An allocation at the end of what the last chunk has in use. -/
theorem Allocated.of_last (pre : List Nat) {free' : List Nat} (h : Inv s live stack big free)
    (harena : Arena s' (pre ++ stack) big free' [])
    (hends : ∀ c ∈ stack ++ big, (s'.chunks c).end_ = (s.chunks c).end_)
    (hbytes : s'.bytes = s.bytes) (hmarks : s'.marks = s.marks) (halign : align ∣ p)
    (hwithin : Within s' s'.last p size) (hcurrent : (s'.chunks s'.last).current = p + size)
    (hlast : s'.lastAllocation = some p)
    (hbelow : ∀ b ∈ live, Within s' s'.last b.addr b.size → b.addr + b.size ≤ p) :
    Allocated s live stack big size align p s' := by
  have hlayered : Layered s' big stack live :=
    h.layered.congr hends fun b _ _ => by rw [hmarks]
  have hmem : ∀ c ∈ stack ++ big, c ∈ s'.outstanding := fun c hc =>
    harena.used_mem (by rw [List.append_assoc]; exact List.mem_append_right _ hc)
  have hmem' : s'.last ∈ s'.outstanding :=
    harena.used_mem (List.mem_append_left _ harena.last_mem)
  exact
    { arena := ⟨pre, big, free', harena, hlayered, s'.last,
        List.mem_append_left _ harena.last_mem, hwithin⟩
      top := fun b haddr hsize => below_newest hwithin hcurrent hlast hbelow haddr hsize
      saved := h.top.congr (hends _ (List.mem_append_left _ h.arena.last_mem))
      apart := harena.apart_of_below hlayered hmem hmem' hwithin hbelow
      aligned := halign
      bytes := hbytes
      marks := hmarks
      ends := hends }

/-- The pointer `current` of the last chunk may be rounded up. -/
theorem Inv.setCurrent (h : Inv s live stack big free) {v : Nat}
    (hv : (s.chunks s.last).current ≤ v) : Inv (s.setCurrent s.last v) live stack big free where
  arena := h.arena.setCurrent (h.arena.not_mem_free
    (Or.inl (List.mem_append_left _ h.arena.last_mem))) v
  layered := h.layered.congr (by simp) fun _ _ _ => rfl
  top := by
    have htop : Below (s.setCurrent s.last v) s.saved live := h.top.congr (by simp [State.saved])
    refine ⟨?_, ?_, htop.lastAllocation⟩
    · have hcurrent := h.top.current
      simp only [State.saved, State.last_setCurrent, State.current_setCurrent_self] at hcurrent ⊢
      omega
    · intro b hb hin
      have hle := htop.blocks b hb hin
      simp only [State.saved, State.last_setCurrent, State.current_setCurrent_self] at hle ⊢
      omega
  blocks := ⟨h.blocks.apart, h.blocks.aligned, h.blocks.contents⟩

theorem Allocated.of_setCurrent {v : Nat} (h : Inv s live stack big free)
    (hp : Allocated (s.setCurrent s.last v) live stack big size align p s') :
    Allocated s live stack big size align p s' :=
  { hp with
    saved := h.top.congr ((hp.ends s.last (List.mem_append_left _ h.arena.last_mem)).trans
      (State.end_setCurrent s s.last s.last v))
    ends := fun c hc => by rw [hp.ends c hc, State.end_setCurrent] }

/-- An allocation in the last chunk. -/
theorem allocated_fits (h : Inv s live stack big free)
    (halign : isPowerOfTwo align = true)
    (hfits : alignUp (s.chunks s.last).current align + size < (s.chunks s.last).end_) :
    Allocated s live stack big size align (alignUp (s.chunks s.last).current align)
      { (s.setCurrent s.last (alignUp (s.chunks s.last).current align)).setCurrent s.last
          (alignUp (s.chunks s.last).current align + size) with
        lastAllocation := some (alignUp (s.chunks s.last).current align) } := by
  have hge := le_alignUp halign (s.chunks s.last).current
  have harena := ((h.setCurrent hge).setCurrent (v := alignUp (s.chunks s.last).current align + size)
    (by simp)).arena.frame (some (alignUp (s.chunks s.last).current align)) s.hasJmpbuf s.marks
      s.bytes
  have hstart := h.top.current
  simp only [State.saved] at hstart
  refine Allocated.of_last [] h harena (by simp) rfl rfl (dvd_alignUp halign _) ?_ ?_ rfl ?_
  · simp only [Within, State.last_setCurrent, State.end_setCurrent]
    omega
  · simp
  · intro b hb hin
    have hin' : Within s s.last b.addr b.size := (within_congr (by simp)).mp hin
    have hle := h.top.blocks b hb hin'
    simp only [State.saved] at hle
    omega

/-- An allocation in a new chunk of the common size. -/
theorem allocNextChunk_ensures (h : Inv s live stack big free)
    (halign : isPowerOfTwo align = true) (hsmall : size + align - 1 < chunkMaxAvail)
    (hhonest : Honest s (chunkMaxAvail + sizeofChunk) reply) :
    (allocNextChunk reply size align s).Ensures
      (fun p s' => Allocated s live stack big size align p { s' with lastAllocation := some p })
      (· = s) False False := by
  refine Outcome.Ensures.bind (allocateChunk_ensures h.arena (by decide) hhonest) ?_
  intro chunk s1 htaken
  obtain ⟨free', harena⟩ := htaken.arena
  have hnodup := harena.nodup_lists
  rw [List.singleton_append, List.nodup_cons, List.mem_append, not_or] at hnodup
  have hnew : chunk ∉ stack ++ big := hnodup.1.1
  have hend : (s1.chunks chunk).end_ = chunk + chunkSize := by
    rw [htaken.end_, Nat.add_assoc, sizeofChunk_add_chunkMaxAvail]
  have hge := le_alignUp halign (chunk + sizeofChunk)
  have hle := alignUp_le halign (chunk + sizeofChunk)
  have hpos := isPowerOfTwo_pos halign
  have hroom : alignUp (chunk + sizeofChunk) align + size < chunk + chunkSize := by
    simp only [chunkMaxAvail] at hsmall
    omega
  have hpushed := harena.push hend
  have harena' := ((hpushed.setCurrent hnodup.1.2 (alignUp (chunk + sizeofChunk) align)).setCurrent
    hnodup.1.2 (alignUp (chunk + sizeofChunk) align + size)).frame
      (some (alignUp (chunk + sizeofChunk) align)) s1.hasJmpbuf s1.marks s1.bytes
  simp only [State.current_setCurrent_self, State.current_setLink, State.end_setCurrent,
    State.end_setLink, htaken.current, hend]
  rw [if_pos hroom.le]
  refine Allocated.of_last [chunk] h harena' ?_ htaken.bytes htaken.marks
    (dvd_alignUp halign _) ?_ ?_ rfl ?_
  · intro c hc
    simp [htaken.others c hc]
  · simp only [Within, State.last_setCurrent, State.end_setCurrent, State.end_setLink, hend]
    omega
  · simp
  · intro b hb hin
    have hin' : Within s1 chunk b.addr b.size := (within_congr (by simp)).mp hin
    have hlayered : Layered s1 big stack live :=
      h.layered.congr (fun c hc => by rw [htaken.others c hc]) fun _ _ _ => by rw [htaken.marks]
    exact absurd hin' (harena.not_within hlayered (fun c hc => harena.used_mem hc)
      (harena.mem_outstanding.mpr (Or.inl (by simp))) hnew hb)

/-- `stack_alloc`: it returns a new block or leaves the invariant as it was. -/
theorem stackAlloc_ensures (h : Inv s live stack big free)
    (halign : isPowerOfTwo (align % 2 ^ 32) = true → align < 2 ^ 32)
    (hfew : size + align - 1 = chunkMaxAvail → ∀ c, s.nextFree = some c → s.link c = none)
    (hhonest : Honest s (Call.alloc size align).request reply) :
    (stackAlloc reply size align s).Ensures (Allocated s live stack big size align)
      (fun s' => Inv s' live stack big free ∧ s'.bytes = s.bytes)
      (¬Accepted (.alloc size align)) False := by
  simp only [stackAlloc, Accepted]
  split
  · rename_i hpow
    have hmod := Nat.mod_eq_of_lt (halign hpow)
    rw [hmod] at hpow ⊢
    split
    · rename_i hsize
      simp only [Call.request] at hhonest
      split
      · rename_i hover
        rw [if_pos hover] at hhonest
        by_cases hmax : size + align - 1 < sizeMax - sizeofChunk
        · exact (allocOversize_ensures h hpow hover hmax hfew hhonest).mono (fun _ _ hp => hp)
            (by rintro _ rfl; exact ⟨h, rfl⟩) False.elim id
        · simp [allocOversize, allocateChunk, hmax, Outcome.bind, Outcome.Ensures]
      · rename_i hover
        rw [if_neg hover] at hhonest
        have hge := le_alignUp hpow (s.chunks s.last).current
        have h' := h.setCurrent hge
        simp only [State.current_setCurrent_self, State.end_setCurrent, State.last_setCurrent]
        split
        · rename_i hfits
          exact allocated_fits h hpow hfits
        · have hhonest' : Honest (s.setCurrent s.last (alignUp (s.chunks s.last).current align))
              (chunkMaxAvail + sizeofChunk) reply := by
            simpa [Honest] using hhonest
          exact Outcome.Ensures.bind ((allocNextChunk_ensures h' hpow (Nat.lt_of_not_le hover)
            hhonest').mono (fun _ _ hp => hp) (by rintro _ rfl; exact ⟨h', rfl⟩) False.elim id)
            fun _ _ hp => hp.of_setCurrent h
    · simp_all [Outcome.Ensures]
  · simp_all [Outcome.Ensures]

/-! ## The calls -/

/-- The invariant with the lists of chunks left open. -/
def Holds (s : State) (live : List Block) : Prop := ∃ stack big free, Inv s live stack big free

theorem Blocks.sublist (h : Blocks s live) {live' : List Block} (hsub : live'.Sublist live) :
    Blocks s live' where
  apart := h.apart.sublist hsub
  aligned b hb := h.aligned b (hsub.subset hb)
  contents b hb := h.contents b (hsub.subset hb)

/-- Blocks that are no longer live are no longer spoken of. -/
theorem Inv.sublist (h : Inv s live stack big free) {live' : List Block}
    (hsub : live'.Sublist live) : Inv s live' stack big free where
  arena := h.arena
  layered := h.layered.sublist hsub
  top := h.top.mono fun b hb => ⟨b, hsub.subset hb, rfl, rfl⟩
  blocks := h.blocks.sublist hsub

theorem Allocated.blocks {s'' : State} (hp : Allocated s live stack big size align p s')
    (h : Blocks s live) {b : Block} (haddr : b.addr = p) (hsize : b.size = size)
    (halign : b.align = align)
    (hother : ∀ d ∈ live, s''.read d.addr d.size = s.read d.addr d.size)
    (hdata : s''.read p size = b.data) : Blocks s'' (b :: live) := by
  subst haddr hsize halign
  refine ⟨List.pairwise_cons.mpr ⟨hp.apart, h.apart⟩, ?_, ?_⟩
  · exact List.forall_mem_cons.mpr ⟨hp.aligned, h.aligned⟩
  · exact List.forall_mem_cons.mpr
      ⟨hdata, fun d hd => (hother d hd).trans (h.contents d hd)⟩

/-- The new block becomes live, once its owner or the allocator has put something there. -/
theorem Allocated.holds (h : Inv s live stack big free)
    (hp : Allocated s live stack big size align p s') {b : Block} (bytes : Nat → UInt8)
    (haddr : b.addr = p) (hsize : b.size = size) (halign : b.align = align) (hmark : b.mark = none)
    (hother : ∀ d ∈ live, Ranges.read bytes d.addr d.size = s.read d.addr d.size)
    (hdata : Ranges.read bytes p size = b.data) : Holds { s' with bytes } (b :: live) := by
  obtain ⟨pre, big', free', harena, hlayered, hwithin⟩ := hp.arena
  refine ⟨pre ++ stack, big', free', harena.frame _ _ _ _, ⟨?_, ?_⟩, ?_, ?_⟩
  · rw [haddr, hsize]
    exact hwithin
  · simp only [hmark]
    exact (hlayered.push pre).congr (fun _ _ => rfl) fun _ _ _ => rfl
  · exact (hp.top b haddr hsize).congr rfl
  · exact hp.blocks h.blocks haddr hsize halign hother hdata

theorem Allocated.holds_mark (h : Inv s live stack big free)
    (hp : Allocated s live stack big sizeofMark align p s') {b : Block}
    (haddr : b.addr = p) (hsize : b.size = sizeofMark) (halign : b.align = align)
    (hmark : b.mark = some s.saved) (hdata : s'.read p sizeofMark = b.data) :
    Holds { s' with marks := Function.update s'.marks p (some s.saved) } (b :: live) := by
  obtain ⟨pre, big', free', harena, hlayered, hwithin⟩ := hp.arena
  obtain ⟨below, hbelow⟩ := h.arena.last
  have hkeep : ∀ d ∈ live, d.mark ≠ none →
      Function.update s'.marks p (some s.saved) d.addr = s'.marks d.addr := by
    intro d hd hdmark
    have hapart := hp.apart d hd
    rw [hlayered.size_of_mark hd hdmark] at hapart
    exact Function.update_of_ne (hapart.ne (by decide) (by decide)).symm _ _
  refine ⟨pre ++ stack, big', free', harena.frame _ _ _ _, ⟨?_, ?_⟩, ?_, ?_⟩
  · rw [haddr, hsize]
    exact hwithin
  · simp only [hmark]
    refine ⟨hsize, ?_, hp.saved.congr rfl, pre, below, by rw [hbelow]; rfl, ?_⟩
    · rw [haddr]
      exact Function.update_self _ _ _
    · rw [hbelow] at hlayered
      exact hlayered.congr (fun _ _ => rfl) hkeep
  · exact (hp.top b haddr hsize).congr rfl
  · refine hp.blocks h.blocks haddr hsize halign (fun d _ => ?_) hdata
    show Ranges.read s'.bytes d.addr d.size = _
    rw [hp.bytes, State.read]

/-- `stack_free` of a block whose address no block with contents shares. -/
theorem stackFree_ensures (h : Inv s live stack big free) {i : Nat} {b : Block}
    (halone : s.lastAllocation = some b.addr → ∀ j d, j ≠ i → live[j]? = some d →
      d.addr = b.addr → d.size = 0) :
    (stackFree (some b.addr) s).Ensures (fun _ s' => Holds s' (live.eraseIdx i)) (fun _ => False)
      False False := by
  have hsub := List.eraseIdx_sublist live i
  simp only [stackFree]
  split
  · rename_i hlast
    obtain ⟨hstart, hend, hblocks⟩ := h.top.lastAllocation b.addr hlast.symm
    have hin : s.allocationInChunk s.last b.addr = true := by
      simp only [State.saved] at hstart hend
      simp only [State.allocationInChunk, Bool.and_eq_true, decide_eq_true_eq]
      omega
    rw [if_pos hin]
    have h' := h.sublist hsub
    refine ⟨stack, big, free, h'.arena.setCurrent (h.arena.not_mem_free
      (Or.inl (List.mem_append_left _ h.arena.last_mem))) _,
      h'.layered.congr (by simp) fun _ _ _ => rfl, ?_, h'.blocks.congr rfl⟩
    have htop : Below (s.setCurrent s.last b.addr) s.saved (live.eraseIdx i) :=
      h'.top.congr (by simp [State.saved])
    refine ⟨?_, ?_, htop.lastAllocation⟩
    · simpa [State.saved] using hstart
    · intro d hd hwithin
      obtain ⟨j, hj, hd⟩ := List.mem_eraseIdx_iff_getElem?.mp hd
      have hwithin' : Within s s.last d.addr d.size := (within_congr (by simp)).mp hwithin
      have hle : d.addr + d.size ≤ b.addr := by
        rcases hblocks d (List.mem_of_getElem? hd) hwithin' with hle | heq
        · exact hle
        · have hzero := halone hlast.symm j d hj hd heq
          omega
      simpa [State.saved] using hle
  · exact ⟨stack, big, free, h.sublist hsub⟩

theorem Holds.sublist (h : Holds s live) {live' : List Block} (hsub : live'.Sublist live) :
    Holds s live' := by
  obtain ⟨stack, big, free, h⟩ := h
  exact ⟨stack, big, free, h.sublist hsub⟩

/-- The search of `stack_realloc` finds what `List.find?` does, given the fuel for the list. -/
theorem findChunk_eq {l : List Nat} {a : Option Nat} (h : Seg s.link a l none) (p fuel : Nat) :
    findChunk s p fuel a = none ∧ fuel ≤ l.length ∨
      findChunk s p fuel a = some (l.find? (s.allocationInChunk · p)) := by
  induction l generalizing a fuel with
  | nil =>
    obtain rfl : a = none := h
    cases fuel with
    | zero => exact Or.inl ⟨rfl, le_rfl⟩
    | succ fuel => exact Or.inr rfl
  | cons c l ih =>
    obtain ⟨rfl, hl⟩ := h
    cases fuel with
    | zero => exact Or.inl ⟨rfl, Nat.zero_le _⟩
    | succ fuel =>
      simp only [findChunk, List.find?_cons, List.length_cons]
      cases hc : s.allocationInChunk c p with
      | true => exact Or.inr rfl
      | false => simpa using ih hl fuel

theorem stackRealloc_ensures (h : Inv s live stack big free) {i : Nat} {old : Block}
    (hold : live[i]? = some old) (halign : isPowerOfTwo (align % 2 ^ 32) = true → align < 2 ^ 32)
    (hfew : size + align - 1 = chunkMaxAvail → ∀ c, s.nextFree = some c → s.link c = none)
    (hhonest : Honest s (Call.alloc size align).request reply) (fuel : Nat) :
    (stackRealloc fuel reply (some old.addr) size align s).Ensures
      (fun p s' => Holds s' (old.moved p size align s' :: live.eraseIdx i))
      (fun s' => Holds s' live) (¬Accepted (.alloc size align))
      (fuel ≤ (stack ++ big).length) := by
  have hmem := List.mem_of_getElem? hold
  obtain ⟨c, hc, hwithin⟩ := h.layered.within hmem
  have hfind : (stack ++ big).find? (s.allocationInChunk · old.addr) = some c := by
    cases hfind : (stack ++ big).find? (s.allocationInChunk · old.addr) with
    | none =>
      have hnot := List.find?_eq_none.mp hfind c hc
      exact absurd hwithin.allocationInChunk hnot
    | some d =>
      have hd := h.arena.within_unique (h.arena.used_mem hc)
        (h.arena.used_mem (List.mem_of_find?_eq_some hfind)) hwithin
        (by simpa using List.find?_some hfind)
      rw [hd]
  simp only [stackRealloc]
  rcases findChunk_eq h.arena.used old.addr fuel with ⟨hrun, hfuel⟩ | hfound
  · rw [hrun]
    exact hfuel
  · rw [hfound, hfind]
    refine Outcome.Ensures.bind ((stackAlloc_ensures h halign hfew hhonest).mono
      (fun _ _ hp => hp) (fun s' hs' => ⟨stack, big, free, hs'.1⟩) id False.elim) ?_
    intro p s1 hp
    have hend : (s1.chunks c).end_ = (s.chunks c).end_ := hp.ends c hc
    have hdata : old.data = Ranges.read s.bytes old.addr old.size :=
      (h.blocks.contents old hmem).symm
    have hkept : old.data.take size = Ranges.read s1.bytes old.addr (min size old.size) := by
      rw [hdata, take_read, hp.bytes]
    generalize hcopy : (if size > (s1.chunks c).end_ - old.addr then (s1.chunks c).end_ - old.addr
      else size) = copySize
    have hcopySize : copySize ≤ size ∧ min size old.size ≤ copySize := by
      have hroom := hwithin.2.2
      rw [← hcopy, hend]
      split <;> omega
    refine Holds.sublist (show Holds _ (_ :: live) from ?_)
      ((List.eraseIdx_sublist live i).cons_cons _)
    refine hp.holds h (Ranges.copy s1.bytes p old.addr copySize) rfl rfl rfl rfl ?_ ?_
    · intro d hd
      have hapart : Apart d.addr d.size p copySize :=
        (hp.apart d hd).symm.mono ⟨le_rfl, le_rfl⟩ ⟨le_rfl, by omega⟩
      rw [read_copy_of_apart hapart, hp.bytes, State.read]
    · have hsplit : size = min size old.size + (size - min size old.size) := by omega
      simp only [Block.moved, hkept, length_read]
      calc Ranges.read (Ranges.copy s1.bytes p old.addr copySize) p size
          = Ranges.read (Ranges.copy s1.bytes p old.addr copySize) p
              (min size old.size + (size - min size old.size)) := by rw [← hsplit]
        _ = _ := by
            rw [read_add, read_copy hcopySize.2]
            rfl

/-- A turn of the loop in `stack_reset_to_mark`. -/
theorem Arena.recycle {c d : Nat} {rest : List Nat}
    (h : Arena { s with last := c } (c :: d :: rest) big free []) :
    s.link c = some d ∧ Arena { s.recycle c with last := d } (d :: rest) big (c :: free) [] := by
  have hnodup := h.nodup_lists
  rw [List.nil_append, List.cons_append, List.cons_append, List.nodup_cons, List.mem_append,
    not_or] at hnodup
  obtain ⟨⟨hused, hfree⟩, _⟩ := hnodup
  have hseg : Seg s.link (s.link c) (d :: rest ++ big) none := h.used.2
  have hlink : s.link c = some d := hseg.1
  have hkeep : ∀ q, q ≠ c → Function.update s.link c s.nextFree q = s.link q :=
    fun q hq => Function.update_of_ne hq _ _
  have hstart : (s.chunks c).start = c + sizeofChunk :=
    (h.formed c (h.used_mem (by simp))).2.1
  refine ⟨hlink, ?_, ?_, ?_, h.nodup, ?_, ⟨rest, rfl⟩, ?_, ?_, ?_, ?_⟩
  · show Seg (State.link (State.setLink (s.setCurrent c (s.chunks c).start) c s.nextFree)) _ _ _
    rw [State.link_setLink, State.link_setCurrent, ← hlink]
    exact hseg.congr fun q hq => hkeep q fun heq => hused (heq ▸ hq)
  · show Seg (State.link (State.setLink (s.setCurrent c (s.chunks c).start) c s.nextFree)) _ _ _
    rw [State.link_setLink, State.link_setCurrent, seg_cons, Function.update_self]
    exact ⟨rfl, h.freeList.congr fun q hq => hkeep q fun heq => hfree (heq ▸ hq)⟩
  · refine h.owned.trans ?_
    have hperm : (c :: ((d :: rest ++ big) ++ free)).Perm ((d :: rest ++ big) ++ c :: free) :=
      List.perm_middle.symm
    simpa using hperm
  · have hfirst := h.first
    rw [List.cons_append, List.cons_append, List.getLast?_cons_cons] at hfirst
    exact hfirst
  · simpa [State.recycle] using h.formed
  · intro q hq
    have hq' : q ∈ c :: d :: rest ∨ q ∈ free := by
      rcases hq with hq | hq
      · exact Or.inl (List.mem_cons_of_mem _ hq)
      · rcases List.mem_cons.mp hq with rfl | hq
        · exact Or.inl List.mem_cons_self
        · exact Or.inr hq
    simpa [State.recycle] using h.standard q hq'
  · intro q hq
    by_cases hqc : q = c
    · subst hqc
      simpa [State.recycle] using hstart
    · have hq' : q ∈ free := by
        rcases List.mem_cons.mp hq with heq | hq
        · exact absurd heq hqc
        · exact hq
      simpa [State.recycle, State.current_setCurrent_of_ne _ _ hqc] using h.fresh q hq'
  · simpa [State.recycle] using h.apart

/-- The loop of `stack_reset_to_mark` stops at the chunk it looks for, having recycled those
above it. -/
theorem recycleUntil_eq (fuel : Nat) {c target : Nat} {popped below : List Nat}
    (h : Arena { s with last := c } (popped ++ target :: below) big free [])
    (hc : (popped ++ target :: below).head? = some c) :
    recycleUntil target fuel (some c) s = none ∧ fuel ≤ popped.length ∨
      ∃ s', recycleUntil target fuel (some c) s = some (some target, s') ∧
        Arena { s' with last := target } (target :: below) big (popped.reverse ++ free) [] ∧
        (∀ d, (s'.chunks d).end_ = (s.chunks d).end_) ∧ s'.marks = s.marks ∧
        s'.bytes = s.bytes := by
  induction popped generalizing s c fuel free with
  | nil =>
    obtain rfl : target = c := by simpa using hc
    cases fuel with
    | zero => exact Or.inl ⟨rfl, le_rfl⟩
    | succ fuel =>
      refine Or.inr ⟨s, by simp [recycleUntil], h, fun _ => rfl, rfl, rfl⟩
  | cons q popped ih =>
    obtain rfl : q = c := by simpa using hc
    cases fuel with
    | zero => exact Or.inl ⟨rfl, Nat.zero_le _⟩
    | succ fuel =>
      have hnodup := h.nodup_lists
      have hne : q ≠ target := by
        rintro rfl
        simp at hnodup
      obtain ⟨d, rest, hrest⟩ : ∃ d rest, popped ++ target :: below = d :: rest := by
        cases popped with
        | nil => exact ⟨target, below, rfl⟩
        | cons d popped => exact ⟨d, popped ++ target :: below, rfl⟩
      rw [List.cons_append, hrest] at h
      obtain ⟨hlink, hturn⟩ := h.recycle
      rw [← hrest] at hturn
      simp only [recycleUntil, if_neg hne, hlink, List.length_cons]
      rcases ih (s := s.recycle q) fuel hturn (by rw [hrest]; rfl) with
        ⟨hrun, hfuel⟩ | ⟨s', hrun, harena, hend, hmarks, hbytes⟩
      · exact Or.inl ⟨hrun, by omega⟩
      · refine Or.inr ⟨s', hrun, ?_, fun e => ?_, hmarks, hbytes⟩
        · rw [List.reverse_cons, List.append_assoc]
          exact harena
        · rw [hend]
          simp [State.recycle]

theorem stackMark_ensures (h : Inv s live stack big free) (hhonest : Honest s chunkSize reply) :
    (stackMark reply s).Ensures
      (fun p s' => ∀ data, data = s'.read p sizeofMark →
        Holds s' ({ addr := p, size := sizeofMark, align := defaultAlign, data,
                    mark := some s.saved } :: live))
      (fun s' => Holds s' live) False False := by
  have hrequest : (Call.alloc sizeofMark defaultAlign).request = chunkSize := by decide
  have halloc : (stackAlloc reply sizeofMark defaultAlign s).Ensures
      (Allocated s live stack big sizeofMark defaultAlign) _ _ False := stackAlloc_ensures h
    (fun _ => by decide) (fun heq => absurd heq (by decide)) (hrequest ▸ hhonest)
  refine Outcome.Ensures.bind (halloc.mono (fun _ _ hp => hp)
    (fun s' hs' => ⟨stack, big, free, hs'.1⟩) (fun hnot => hnot ?_) id) ?_
  · have hpow : isPowerOfTwo (defaultAlign % 2 ^ 32) = true := by decide
    exact ⟨hpow, by decide, by decide⟩
  · intro p s1 hp data hdata
    exact hp.holds_mark h rfl rfl rfl rfl hdata.symm

/-- `stack_reset_to_mark`: what is older than the mark is live, and the allocations stand where
they stood when the mark was taken. -/
theorem stackResetToMark_ensures (h : Inv s live stack big free) {i : Nat} {b : Block}
    {mark : StackAllocatorMark} (hb : live[i]? = some b) (hmark : b.mark = some mark)
    (fuel : Nat) :
    (stackResetToMark fuel b.addr s).Ensures
      (fun _ s' => Holds s' (live.drop (i + 1)) ∧ s'.saved = mark) (fun _ => False) False
      (fuel ≤ stack.length) := by
  obtain ⟨hat, hbelow, popped, below, rfl, hlayered⟩ := h.layered.mark hb hmark
  obtain ⟨rest, hrest⟩ := h.arena.last
  have hsub := List.drop_sublist (i + 1) live
  simp only [stackResetToMark, hat]
  rcases recycleUntil_eq fuel (c := s.last) h.arena (by rw [hrest]; rfl) with
    ⟨hrun, hfuel⟩ | ⟨s', hrun, harena, hend, hmarks, hbytes⟩
  · rw [hrun]
    show fuel ≤ _
    rw [List.length_append]
    omega
  · rw [hrun]
    simp only [if_true]
    have hnotfree := harena.not_mem_free (Or.inl (by simp : mark.chunk ∈ mark.chunk :: below ++ big))
    refine ⟨⟨mark.chunk :: below, big, popped.reverse ++ free, ?_, ?_, ?_, ?_⟩, ?_⟩
    · exact (harena.setCurrent hnotfree mark.chunkCurrent).frame mark.lastAllocation s'.hasJmpbuf
        s'.marks s'.bytes
    · refine hlayered.congr (fun c _ => ?_) fun _ _ _ => ?_
      · show ((s'.setCurrent mark.chunk mark.chunkCurrent).chunks c).end_ = _
        rw [State.end_setCurrent, hend]
      · show s'.marks _ = _
        rw [hmarks]
    · have htop : Below { (s'.setCurrent mark.chunk mark.chunkCurrent) with
          last := mark.chunk, lastAllocation := mark.lastAllocation } mark (live.drop (i + 1)) :=
        hbelow.congr ((State.end_setCurrent s' _ _ _).trans (hend _))
      simpa [State.saved] using htop
    · exact (h.blocks.sublist hsub).congr hbytes
    · simp [State.saved]

theorem Blocks.apart_of_ne (h : Blocks s live) {i j : Nat} {b d : Block} (hb : live[i]? = some b)
    (hd : live[j]? = some d) (hne : i ≠ j) : Apart b.addr b.size d.addr d.size := by
  obtain ⟨hi, rfl⟩ := List.getElem?_eq_some_iff.mp hb
  obtain ⟨hj, rfl⟩ := List.getElem?_eq_some_iff.mp hd
  have hpairs := List.pairwise_iff_getElem.mp h.apart
  rcases Nat.lt_or_gt_of_ne hne with hlt | hgt
  · exact hpairs i j hi hj hlt
  · exact (hpairs j i hj hi hgt).symm

theorem Blocks.store (h : Blocks s live) {i k : Nat} {b : Block} (hb : live[i]? = some b)
    (hk : k < b.size) (v : UInt8) :
    Blocks { s with bytes := Function.update s.bytes (b.addr + k) v }
      (live.set i { b with data := b.data.set k v }) := by
  have hmem := List.mem_of_getElem? hb
  have hshape : (live.set i { b with data := b.data.set k v }).map (fun d => (d.addr, d.size)) =
      live.map fun d => (d.addr, d.size) := by
    rw [List.map_set]
    apply List.ext_getElem? fun j => ?_
    rw [List.getElem?_set]
    by_cases hj : i = j
    · subst hj
      obtain ⟨hi, heq⟩ := List.getElem?_eq_some_iff.mp hb
      simp [hi, heq]
    · simp [hj]
  refine ⟨?_, fun d hd => ?_, fun d hd => ?_⟩
  · have happart := h.apart
    rw [← List.pairwise_map (f := fun d : Block => (d.addr, d.size))
      (R := fun x y => Apart x.1 x.2 y.1 y.2)] at happart ⊢
    rw [hshape]
    exact happart
  · rcases List.mem_or_eq_of_mem_set hd with hd | rfl
    · exact h.aligned d hd
    · exact h.aligned b hmem
  · obtain ⟨j, hj⟩ := List.mem_iff_getElem?.mp hd
    rw [List.getElem?_set] at hj
    by_cases hij : i = j
    · subst hij
      obtain rfl : { b with data := b.data.set k v } = d := by
        simpa [(List.getElem?_eq_some_iff.mp hb).1] using hj
      show Ranges.read (Function.update s.bytes (b.addr + k) v) b.addr b.size = b.data.set k v
      rw [read_update_self, ← h.contents b hmem, State.read]
    · rw [if_neg hij] at hj
      have hapart : Apart d.addr d.size (b.addr + k) 1 :=
        (h.apart_of_ne hj hb (Ne.symm hij)).mono ⟨le_rfl, le_rfl⟩ ⟨by omega, by omega⟩
      exact (read_update_of_apart hapart v).trans (h.contents d (List.mem_of_getElem? hj))

/-- A store of a block's owner. -/
theorem store_holds (h : Inv s live stack big free) {i k : Nat} {b : Block}
    (hb : live[i]? = some b) (hk : k < b.size) (v : UInt8) :
    Holds { s with bytes := Function.update s.bytes (b.addr + k) v }
      (live.set i { b with data := b.data.set k v }) := by
  refine ⟨stack, big, free, h.arena.frame _ _ _ _, ?_, ?_, ?_⟩
  · exact (h.layered.set hb _).congr (fun _ _ => rfl) fun _ _ _ => rfl
  · refine (h.top.mono fun d hd => ?_).congr rfl
    rcases List.mem_or_eq_of_mem_set hd with hd | rfl
    · exact ⟨d, hd, rfl, rfl⟩
    · exact ⟨b, List.mem_of_getElem? hb, rfl, rfl⟩
  · exact h.blocks.store hb hk v

/-! ## Runs -/

/-- The calls that break nothing: the alignment is a power of two if the assertion takes it for
one, an allocation of exactly the size of a chunk does not find two free chunks, and the last
allocation is not given back while another block with contents has its address. -/
def Harmless (s : State) (live : List Block) : Call → Prop
  | .alloc size align | .realloc _ size align =>
    (isPowerOfTwo (align % 2 ^ 32) = true → align < 2 ^ 32) ∧
      (size + align - 1 = chunkMaxAvail → ∀ c, s.nextFree = some c → s.link c = none)
  | .free (some i) => ∀ b, live[i]? = some b → s.lastAllocation = some b.addr →
      ∀ j d, j ≠ i → live[j]? = some d → d.addr = b.addr → d.size = 0
  | _ => True

/-- A call keeps the invariant, fails no assertion but those on its arguments and ends. -/
theorem exec_ensures (h : Inv s live stack big free) (call : Call) (husable : Usable live call)
    (hharmless : Harmless s live call) (hhonest : Honest s call.request reply) (fuel : Nat) :
    (exec fuel reply live s call).Ensures (fun live' s' => Holds s' live')
      (fun s' => Holds s' live) (¬Accepted call) (fuel ≤ (stack ++ big).length) := by
  have hholds : Holds s live := ⟨stack, big, free, h⟩
  have hnew : ∀ size align, Harmless s live (.alloc size align) →
      Honest s (Call.alloc size align).request reply →
      ((stackAlloc reply size align s).bind fun p s =>
        .done ({ addr := p, size, align, data := s.read p size } :: live) s).Ensures
        (fun live' s' => Holds s' live') (fun s' => Holds s' live)
        (¬Accepted (.alloc size align)) (fuel ≤ (stack ++ big).length) := by
    intro size align hharmless hhonest
    refine Outcome.Ensures.bind ((stackAlloc_ensures h hharmless.1 hharmless.2 hhonest).mono
      (fun _ _ hp => hp) (fun s' hs' => ⟨stack, big, free, hs'.1⟩) id False.elim) ?_
    intro p s1 hp
    exact hp.holds h s1.bytes rfl rfl rfl rfl (fun d _ => by rw [hp.bytes, State.read]) rfl
  cases call with
  | alloc size align => exact hnew size align hharmless hhonest
  | realloc i size align =>
    cases i with
    | none => exact hnew size align hharmless hhonest
    | some i =>
      obtain ⟨old, hold, _⟩ := husable
      simp only [exec, hold]
      exact (stackRealloc_ensures h hold hharmless.1 hharmless.2 hhonest fuel).bind
        fun p s' hp => hp
  | free i =>
    cases i with
    | none => exact hholds
    | some i =>
      obtain ⟨b, hb, _⟩ := husable
      simp only [exec, hb]
      exact ((stackFree_ensures h (hharmless b hb)).mono (fun _ _ hp => hp) (fun _ => False.elim)
        False.elim False.elim).bind fun _ s' hp => hp
  | mark =>
    exact ((stackMark_ensures h hhonest).mono (fun _ _ hp => hp) (fun _ hs => hs) False.elim
      False.elim).bind fun p s' hp => hp _ rfl
  | resetToMark i =>
    obtain ⟨b, hb, hmark⟩ := husable
    obtain ⟨mark, hmark⟩ := Option.ne_none_iff_exists'.mp hmark
    simp only [exec, hb]
    exact ((stackResetToMark_ensures h hb hmark fuel).mono (fun _ _ hp => hp) (fun _ => False.elim)
      False.elim (fun hfuel => by rw [List.length_append]; omega)).bind fun _ s' hp => hp.1
  | setjmpHandler =>
    exact ⟨stack, big, free, h.arena.frame _ _ _ _, h.layered.congr (fun _ _ => rfl)
      fun _ _ _ => rfl, h.top.congr rfl, h.blocks.congr rfl⟩
  | store i k v =>
    obtain ⟨b, hb, _, hk⟩ := husable
    simp only [exec, hb]
    exact store_holds h hb hk v

/-- What a program relies on: the blocks, the chunks and how the calls to come will end. -/
structure Sound (s : State) (live : List Block) : Prop where
  blocks : Blocks s live
  /-- The used and the free chunks are two lists without cycles that own each object once. -/
  chunks : ∃ used free, Seg s.link (some s.last) used none ∧ Seg s.link s.nextFree free none ∧
    s.outstanding.Perm (used ++ free) ∧ s.outstanding.Nodup ∧
    ∀ b ∈ live, ∃ c ∈ used, Within s c b.addr b.size
  destroy : ∃ fuel freed, stackDestroy fuel s = some freed ∧ freed.Nodup ∧
    freed.Perm s.outstanding
  /-- A call does not go on forever and fails no assertion but those on its arguments. -/
  calls : ∀ call, Usable live call → Harmless s live call → ∀ reply,
    Honest s call.request reply → (∃ bound, ∀ fuel, bound ≤ fuel →
      exec fuel reply live s call ≠ .running) ∧
    ∀ fuel, exec fuel reply live s call = .failed .assertion → ¬Accepted call
  /-- A reset leaves the blocks that are older than the mark, and the allocations stand where
  they stood when it was taken. -/
  reset : ∀ i b mark fuel reply live' s', live[i]? = some b → b.mark = some mark →
    exec fuel reply live s (.resetToMark i) = .done live' s' →
    live' = live.drop (i + 1) ∧ s'.saved = mark

theorem freeChunks_eq {l : List Nat} {a : Option Nat} (h : Seg s.link a l none) (fuel : Nat)
    (hfuel : l.length < fuel) : freeChunks s fuel a = some l := by
  induction l generalizing a fuel with
  | nil =>
    obtain rfl : a = none := h
    cases fuel with
    | zero => cases hfuel
    | succ fuel => rfl
  | cons c l ih =>
    obtain ⟨rfl, hl⟩ := h
    cases fuel with
    | zero => cases hfuel
    | succ fuel =>
      rw [freeChunks, ih hl fuel (Nat.lt_of_succ_lt_succ hfuel)]
      rfl

/-- `stack_destroy` gives every object back to the fallback once. -/
theorem Arena.stackDestroy_eq (h : Arena s stack big free []) :
    stackDestroy (s.outstanding.length + 1) s = some (free ++ (stack ++ big)) := by
  have hlength := h.owned.length_eq
  simp only [List.nil_append, List.length_append] at hlength
  have hfree := freeChunks_eq h.freeList (s.outstanding.length + 1) (by omega)
  have hused := freeChunks_eq h.used (s.outstanding.length + 1)
    (by rw [List.length_append]; omega)
  simp only [stackDestroy, hfree, hused]
  rfl

theorem Inv.sound (h : Inv s live stack big free) : Sound s live where
  blocks := h.blocks
  chunks := ⟨stack ++ big, free, h.arena.used, h.arena.freeList, h.arena.owned, h.arena.nodup,
    fun b hb => h.layered.within hb⟩
  destroy := by
    have hperm : (free ++ (stack ++ big)).Perm s.outstanding :=
      List.perm_append_comm.trans h.arena.owned.symm
    exact ⟨_, _, h.arena.stackDestroy_eq, hperm.nodup_iff.mpr h.arena.nodup, hperm⟩
  calls := by
    intro call husable hharmless reply hhonest
    have hends := exec_ensures h call husable hharmless hhonest
    refine ⟨⟨(stack ++ big).length + 1, fun fuel hfuel hrun => ?_⟩, fun fuel hfailed => ?_⟩
    · have hle := hends fuel
      rw [hrun] at hle
      exact Nat.not_succ_le_self _ (hfuel.trans hle)
    · have hnot := hends fuel
      rw [hfailed] at hnot
      exact hnot
  reset := by
    intro i b mark fuel reply live' s' hb hmark hdone
    have hends := stackResetToMark_ensures h hb hmark fuel
    simp only [exec, hb] at hdone
    cases hcall : stackResetToMark fuel b.addr s with
    | done u s1 =>
      rw [hcall] at hdone hends
      simp only [Outcome.bind, Outcome.done.injEq] at hdone
      obtain ⟨rfl, rfl⟩ := hdone
      exact ⟨rfl, hends.2⟩
    | jumped s1 =>
      rw [hcall] at hdone
      cases hdone
    | failed e =>
      rw [hcall] at hdone
      cases hdone
    | running =>
      rw [hcall] at hdone
      cases hdone

theorem holds_init {chunk : Nat} (bytes : Nat → UInt8) (h : chunkAlign ∣ chunk) :
    Holds (initStackAllocator chunk bytes) [] := by
  refine ⟨[chunk], [], [], ⟨?_, rfl, List.Perm.refl _, by simp [initStackAllocator, State.setChunk],
    rfl, ⟨[], rfl⟩, ?_, ?_, by simp, ?_⟩, trivial, ?_, by simp, by simp, by simp⟩
  · simp [initStackAllocator, State.setChunk, State.link]
  · simpa [initStackAllocator, State.setChunk] using h
  · simp [initStackAllocator, State.setChunk, Nat.add_assoc, sizeofChunk_add_chunkMaxAvail]
  · simp [initStackAllocator, State.setChunk]
  · refine ⟨?_, by simp, fun l hl => ?_⟩
    · simp [initStackAllocator, State.setChunk, State.saved]
    · cases hl

/-- Runs of harmless calls. -/
theorem stackAllocator_sound (h : Reaches Harmless s live) : Sound s live := by
  suffices hholds : Holds s live by
    obtain ⟨stack, big, free, hinv⟩ := hholds
    exact hinv.sound
  induction h with
  | init chunk bytes h => exact holds_init bytes h
  | call call _ husable hharmless hstep ih =>
    obtain ⟨stack, big, free, hinv⟩ := ih
    obtain ⟨fuel, reply, hhonest, hend⟩ := hstep
    have hends := exec_ensures hinv call husable hharmless hhonest fuel
    rcases hend with hdone | ⟨hjumped, rfl⟩
    · rw [hdone] at hends
      exact hends
    · rw [hjumped] at hends
      exact hends

/-- An allocation that moves, and one that a reset undoes. -/
theorem stackAllocator_sound_run : ∃ s live,
    (live.map fun b : Block => (b.addr, b.size)) = [(0x100020, 100)] ∧ Sound s live := by
  have hrun : (execAll 9 [(.alloc 100 8, none), (.mark, none), (.alloc 50 16, none),
      (.realloc (some 0) 0x100000 16, some 0x200000), (.resetToMark 1, none)]
      (initStackAllocator 0x100000 fun _ => 0) []).map
      (fun r => r.2.map fun b => (b.addr, b.size)) = some [(0x100020, 100)] := by decide +kernel
  obtain ⟨⟨s, live⟩, hexec, hlive⟩ := Option.map_eq_some_iff.mp hrun
  refine ⟨s, live, hlive, stackAllocator_sound (reaches_execAll (.init _ _ (by decide)) ?_ hexec)⟩
  simp [Harmless, chunkMaxAvail, chunkSize, sizeofChunk]

/-- An allocation of exactly the size of a chunk finds two chunks in the free list: the one it
does not take is in the list of the used ones afterwards, and free as well. -/
theorem stackAllocator_ownsTwice :
    ∃ s live, Reaches (fun _ _ _ => True) s live ∧ ¬Sound s live := by
  have hrun : (execAll 9 [(.mark, none), (.alloc 0xfffdf 1, some 0x200000),
      (.alloc 0xfffdf 1, some 0x300000), (.resetToMark 2, none), (.alloc chunkMaxAvail 1, none)]
      (initStackAllocator 0x100000 fun _ => 0) []).map (fun r => (r.1.last, r.1.link 0x100000,
        r.1.link 0x200000, r.1.link 0x300000, r.1.nextFree, r.1.outstanding.length)) =
      some (0x100000, some 0x200000, some 0x300000, none, some 0x300000, 3) := by decide +kernel
  obtain ⟨⟨s, live⟩, hexec, hstate⟩ := Option.map_eq_some_iff.mp hrun
  simp only [Prod.mk.injEq] at hstate
  obtain ⟨hlast, hA, hB, hC, hfree, hlength⟩ := hstate
  refine ⟨s, live, reaches_execAll (.init _ _ (by decide)) (fun _ _ _ _ => trivial) hexec, ?_⟩
  intro hsound
  obtain ⟨used, free, hused, hfreeList, howned, _⟩ := hsound.chunks
  rw [hlast] at hused
  rw [hfree] at hfreeList
  obtain rfl : used = [0x100000, 0x200000, 0x300000] := hused.unique (by simp [hA, hB, hC])
  obtain rfl : free = [0x300000] := hfreeList.unique (by simp [hC])
  have hcount := howned.length_eq
  rw [hlength] at hcount
  cases hcount

end Allocator

end SexprWasm
