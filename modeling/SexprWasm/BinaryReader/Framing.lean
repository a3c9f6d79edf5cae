import SexprWasm.BinaryReader.CustomSections

/-!
# What the sections and bodies of a read are

The reader keeps `read_end` at the end of the input between sections and
at the end of the section inside of one. `Frame` follows it from the
callbacks alone: where a section or a body that has begun is declared to
end, and that the next one begins, or the module ends, exactly there.
The events of every read are accepted (`trace_framed`).

`Inside` says that a reader stays below `read_end` and inside of the
input, and that it begins and ends no section or body.
-/

namespace SexprWasm

namespace BinaryReader

/-! ## Readers inside of a section -/

/-- The callbacks that begin and end a module, a section or a body. -/
@[reducible] def isFraming : Event → Bool
  | .beginModule _ | .endModule | .beginSection .. | .beginFunctionBody _ | .endFunctionBody _ => true
  | _ => false

/-- The reader is below `read_end`, which is in the input. -/
structure Within (inp : Input) (c : Context) : Prop where
  offset : c.offset ≤ c.readEnd
  readEnd : c.readEnd ≤ inp.data.length

/-- How a reader in `c` may end: further on below the same `read_end`, or with an error. -/
def Ends {α : Type} (inp : Input) (c : Context) (r : Except ReadFailure (α × Context)) : Prop :=
  match r with
  | .ok (_, d) => Onward c d ∧ Within inp d
  | .error e => e = .error

/-- `m` stays inside of the section it is in; only with `framing` it may begin or end a body. -/
class Inside (framing : Bool) (inp : Input) {α : Type} (m : ReadM α) : Prop where
  events : ∀ {c}, Within inp c → ∀ e ∈ (m c).1, e.1 ≤ c.readEnd ∧ (isFraming e.2 → framing)
  ends : ∀ {c}, Within inp c → Ends inp c (m c).2

/-- A condition that `isFraming` computes. -/
class No (b : Bool) : Prop where
  out : b = false

instance : No false := ⟨rfl⟩

namespace Inside

variable {b : Bool} {inp : Input} {α β : Type}

instance pure (a : α) : Inside b inp (Pure.pure a : ReadM α) where
  events _ _ he := by cases he
  ends hc := ⟨.refl _, hc⟩

instance bind {m : ReadM α} {f : α → ReadM β} [hm : Inside b inp m] [hf : ∀ a, Inside b inp (f a)] :
    Inside b inp (m >>= f) where
  events {c} hc e he := by
    have hfirst := hm.events hc
    have hends := hm.ends hc
    rw [Emit.bind_eq] at he
    rcases hrun : m c with ⟨es, err | ⟨a, d⟩⟩
    · rw [Emit.bind_error hrun] at he
      rw [hrun] at hfirst
      exact hfirst e he
    · rw [Emit.bind_ok hrun] at he
      rw [hrun] at hfirst hends
      obtain ⟨hmove, hd⟩ := hends
      rcases List.mem_append.mp he with he | he
      · exact hfirst e he
      · rw [← hmove.readEnd]
        exact (hf a).events hd e he
  ends {c} hc := by
    have hends := hm.ends hc
    rw [Emit.bind_eq]
    rcases hrun : m c with ⟨es, err | ⟨a, d⟩⟩
    · rw [hrun] at hends
      rw [Emit.bind_error hrun]
      exact hends
    · rw [hrun] at hends
      obtain ⟨hmove, hd⟩ := hends
      have hrest := (hf a).ends hd
      rw [Emit.bind_ok hrun]
      dsimp only
      generalize (f a d).2 = r at hrest ⊢
      cases r with
      | error err => exact hrest
      | ok r => exact ⟨hmove.trans hrest.1, hrest.2⟩

/-- `bind` for a program whose second part is still to be looked at. -/
theorem seq {m : ReadM α} {f : α → ReadM β} [Inside b inp m] (hf : ∀ a, Inside b inp (f a)) :
    Inside b inp (m >>= f) := bind

theorem andThen {m : ReadM α} {f : α → ReadM β} (hm : Inside b inp m) (hf : ∀ a, Inside b inp (f a)) :
    Inside b inp (m >>= f) := bind

instance get : Inside b inp (Emit.get : ReadM Context) where
  events _ _ he := by cases he
  ends hc := ⟨.refl _, hc⟩

instance callback (e : Event) [he : No (isFraming e)] : Inside b inp (BinaryReader.callback e) where
  events hc e he' := by
    rw [List.mem_singleton.mp he']
    exact ⟨hc.offset, by simp [he.out]⟩
  ends hc := ⟨.refl _, hc⟩

instance callback_framing (e : Event) : Inside true inp (BinaryReader.callback e) where
  events hc e he' := by
    rw [List.mem_singleton.mp he']
    exact ⟨hc.offset, fun _ => rfl⟩
  ends hc := ⟨.refl _, hc⟩

instance raiseError : Inside b inp (BinaryReader.raiseError : ReadM α) where
  events _ _ he := by cases he
  ends _ := rfl

instance raiseErrorUnless (c : Bool) : Inside b inp (BinaryReader.raiseErrorUnless c) := by
  cases c
  · exact raiseError
  · exact pure ()

instance ite {c : Prop} [Decidable c] {m n : ReadM α} [Inside b inp m] [Inside b inp n] :
    Inside b inp (if c then m else n) := by
  split <;> infer_instance

/-- A change of the counters. -/
theorem modify {f : Context → Context} (hoffset : ∀ c, (f c).offset = c.offset)
    (hend : ∀ c, (f c).readEnd = c.readEnd) : Inside b inp (Emit.modify f : ReadM Unit) where
  events _ _ he := by cases he
  ends {c} hc := ⟨⟨hend c, Nat.le_of_eq (hoffset c).symm⟩,
    ⟨by rw [hoffset, hend]; exact hc.offset, by rw [hend]; exact hc.readEnd⟩⟩

instance forFrom {body : Nat → ReadM Unit} [hbody : ∀ i, Inside b inp (body i)] :
    ∀ i n, Inside b inp (Emit.forFrom body i n)
  | _, 0 => pure ()
  | i, n + 1 =>
    have : Inside b inp (Emit.forFrom body (i + 1) n) := forFrom (i + 1) n
    bind (m := body i)

instance collect {m : ReadM α} [hm : Inside b inp m] : ∀ n, Inside b inp (Emit.collect m n)
  | 0 => pure []
  | n + 1 =>
    have := collect (m := m) n
    seq (m := m) fun _ => seq fun _ => pure _

instance inRaw (size : Nat) : Inside b inp (BinaryReader.inRaw inp size) where
  events {c} _ e he := by
    unfold BinaryReader.inRaw at he
    split at he
    · cases he
    · dsimp only at he
      split at he <;> cases he
  ends {c} hc := by
    have hend := hc.readEnd
    unfold BinaryReader.inRaw
    split
    · rfl
    · dsimp only
      rw [if_pos (by rw [List.length_take, List.length_drop]; omega)]
      exact ⟨⟨rfl, Nat.le_add_right _ _⟩, ⟨by dsimp only; omega, hend⟩⟩

theorem inLeb {read : List UInt8 → Option (Nat × Nat)} (hread : LebReader read) :
    Inside b inp (BinaryReader.inLeb inp read) where
  events {c} _ e he := by
    rw [inLeb_eq] at he
    cases hr : read (inp.window c) <;> rw [hr] at he <;> cases he
  ends {c} hc := by
    have hlen : (inp.window c).length ≤ c.readEnd - c.offset := List.length_take_le _ _
    have hoffset := hc.offset
    rw [inLeb_eq]
    cases hr : read (inp.window c) with
    | none => exact rfl
    | some result =>
      obtain ⟨value, n⟩ := result
      obtain ⟨-, hle⟩ := hread _ _ _ hr
      exact ⟨⟨rfl, Nat.le_add_right _ _⟩, ⟨by dsimp only; omega, hc.readEnd⟩⟩

end Inside

/-! ## The functions of the reader -/

section functions

variable {b : Bool} {inp : Input}

instance : Inside b inp (inU8 inp) := by
  unfold inU8
  infer_instance

instance : Inside b inp (inU32 inp) := by
  unfold inU32
  infer_instance

instance : Inside b inp (inF32 inp) := by
  unfold inF32
  infer_instance

instance : Inside b inp (inF64 inp) := by
  unfold inF64
  infer_instance

instance : Inside b inp (inU32Leb128 inp) := .inLeb lebReader_u32

instance : Inside b inp (inI32Leb128 inp) := .inLeb lebReader_i32

instance : Inside b inp (inI64Leb128 inp) := .inLeb lebReader_i64

instance : Inside b inp (inType inp) := by
  unfold inType
  infer_instance

instance : Inside b inp (inConcreteType inp) := by
  refine Inside.seq fun type => ?_
  cases concreteType? type <;> infer_instance

instance : Inside b inp (inInlineSig inp) := by
  refine Inside.seq fun type => ?_
  cases concreteType? type <;> infer_instance

instance : Inside b inp (inStr inp) := by
  unfold inStr
  infer_instance

instance : Inside b inp (inBytes inp) := by
  unfold inBytes
  infer_instance

instance (index : Nat) : Inside b inp (readInitExpr inp index) := by
  unfold readInitExpr
  infer_instance

instance : Inside b inp (readTable inp) := by
  unfold readTable
  infer_instance

instance : Inside b inp (readMemory inp) := by
  unfold readMemory
  infer_instance

instance : Inside b inp (readGlobalHeader inp) := by
  unfold readGlobalHeader
  infer_instance

instance (opcode : WasmOpcode) : Inside b inp (readInstr inp opcode) := by
  unfold readInstr
  split <;> infer_instance

instance inside_readOpcodes (endOffset : Nat) : ∀ n seen, Inside b inp (readOpcodes inp endOffset n seen)
  | 0, seen => Inside.pure seen
  | n + 1, seen => by
      have ih : ∀ seen, Inside b inp (readOpcodes inp endOffset n seen) :=
        inside_readOpcodes endOffset n
      refine Inside.seq fun c => ?_
      split
      · refine Inside.seq fun opcode => Inside.seq fun _ => ?_
        cases WasmOpcode.ofCode? opcode <;> infer_instance
      · infer_instance

instance (endOffset : Nat) : Inside b inp (readFunctionBody inp endOffset) := by
  unfold readFunctionBody
  infer_instance

instance (i : Nat) : Inside b inp (readFunctionNames inp i) := by
  unfold readFunctionNames
  infer_instance

/-- `ctx->offset = ctx->read_end`. -/
instance : Inside b inp (Emit.modify fun c => { c with offset := c.readEnd } : ReadM Unit) where
  events _ _ he := by cases he
  ends hc := ⟨⟨rfl, hc.offset⟩, ⟨Nat.le_refl _, hc.readEnd⟩⟩

instance (sectionSize : Nat) : Inside b inp (readCustomSection inp sectionSize) := by
  refine .seq fun sectionName => .seq fun _ => .seq fun c => ?_
  show Inside b inp (if _ then _ else _)
  split
  · exact .seq fun _ => .seq fun _ => .seq fun _ => inferInstance
  · infer_instance

instance (i : Nat) : Inside b inp (readSignature inp i) := by
  unfold readSignature
  infer_instance

instance (sectionSize : Nat) : Inside b inp (readTypeSection inp sectionSize) :=
  .seq fun _ => .seq fun _ => .andThen (.modify (fun _ => rfl) fun _ => rfl) fun _ => inferInstance

instance (i : Nat) : Inside b inp (readImport inp i) := by
  refine .seq fun _ => .seq fun _ => .seq fun _ => .seq fun kind => ?_
  split_ifs
  · exact .seq fun _ => .seq fun _ => .seq fun _ => .seq fun _ => .modify (fun _ => rfl) fun _ => rfl
  · exact .seq fun _ => .seq fun _ => .modify (fun _ => rfl) fun _ => rfl
  · exact .seq fun _ => .seq fun _ => .modify (fun _ => rfl) fun _ => rfl
  · exact .seq fun _ => .seq fun _ => .modify (fun _ => rfl) fun _ => rfl
  · infer_instance

instance (sectionSize : Nat) : Inside b inp (readImportSection inp sectionSize) :=
  .seq fun _ => .seq fun _ => .andThen (.modify (fun _ => rfl) fun _ => rfl) fun _ => inferInstance

instance (sectionSize : Nat) : Inside b inp (readFunctionSection inp sectionSize) :=
  .seq fun _ => .seq fun _ => .andThen (.modify (fun _ => rfl) fun _ => rfl) fun _ => inferInstance

instance (sectionSize : Nat) : Inside b inp (readTableSection inp sectionSize) :=
  .seq fun _ => .seq fun _ => .andThen (.modify (fun _ => rfl) fun _ => rfl) fun _ => inferInstance

instance (sectionSize : Nat) : Inside b inp (readMemorySection inp sectionSize) :=
  .seq fun _ => .seq fun _ => .andThen (.modify (fun _ => rfl) fun _ => rfl) fun _ => inferInstance

instance (i : Nat) : Inside b inp (readGlobal inp i) :=
  .seq fun ⟨_, _⟩ => inferInstance

instance (sectionSize : Nat) : Inside b inp (readGlobalSection inp sectionSize) :=
  .seq fun _ => .seq fun _ => .andThen (.modify (fun _ => rfl) fun _ => rfl) fun _ => inferInstance

instance (i : Nat) : Inside b inp (readExport inp i) :=
  .seq fun _ => .seq fun _ => .seq fun _ => .seq fun _ => .seq fun _ => inferInstance

instance (sectionSize : Nat) : Inside b inp (readExportSection inp sectionSize) :=
  .seq fun _ => .seq fun _ => .andThen (.modify (fun _ => rfl) fun _ => rfl) fun _ => inferInstance

instance (sectionSize : Nat) : Inside b inp (readStartSection inp sectionSize) := by
  unfold readStartSection
  infer_instance

instance (i : Nat) : Inside b inp (readElemSegment inp i) :=
  .seq fun _ => .seq fun _ => .seq fun _ => .seq fun _ => inferInstance

instance (sectionSize : Nat) : Inside b inp (readElemSection inp sectionSize) := by
  unfold readElemSection
  infer_instance

instance (i : Nat) : Inside b inp (readLocalDecl inp i) := by
  unfold readLocalDecl
  infer_instance

instance (i : Nat) : Inside b inp (readDataSegment inp i) :=
  .seq fun _ => .seq fun _ => .seq fun _ => .seq fun _ => inferInstance

instance (sectionSize : Nat) : Inside b inp (readDataSection inp sectionSize) := by
  unfold readDataSection
  infer_instance

theorem inside_readSectionPayload {code : Nat} (hcode : code ≠ 10) (size : Nat) :
    Inside b inp (readSectionPayload inp code size) := by
  unfold readSectionPayload
  split
  all_goals first | exact absurd rfl hcode | infer_instance

/-- In an input of less than 2^32 bytes the offset is not cut. -/
theorem inside_cut (hlen : inp.data.length < maxU32) :
    Inside b inp (Emit.modify fun c => { c with offset := u32 c.offset } : ReadM Unit) where
  events _ _ he := by cases he
  ends {c} hc := by
    have hcut : ({ c with offset := u32 c.offset } : Context) = c := by
      rw [u32_of_lt (Nat.lt_of_le_of_lt (hc.offset.trans hc.readEnd) hlen)]
    show Onward c { c with offset := u32 c.offset } ∧ Within inp { c with offset := u32 c.offset }
    rw [hcut]
    exact ⟨.refl c, hc⟩

theorem inside_readFunctionBodyEntry (hlen : inp.data.length < maxU32) (i : Nat) :
    Inside true inp (readFunctionBodyEntry inp i) :=
  .andThen (inside_cut hlen) fun _ => .seq fun _ => .seq fun _ => .seq fun _ => .seq fun _ =>
    inferInstance

theorem inside_readCodeSection (hlen : inp.data.length < maxU32) (sectionSize : Nat) :
    Inside true inp (readCodeSection inp sectionSize) := by
  have hbody := fun i => inside_readFunctionBodyEntry hlen i
  exact .seq fun _ => .seq fun _ => .andThen (.modify (fun _ => rfl) fun _ => rfl) fun _ =>
    inferInstance

theorem inside_payload (hlen : inp.data.length < maxU32) (code size : Nat) :
    Inside true inp (readSectionPayload inp code size) := by
  by_cases hcode : code = 10
  · subst hcode
    exact inside_readCodeSection hlen size
  · exact inside_readSectionPayload hcode size

end functions

/-! ## The frame of a read -/

/-- Where the reader is: what it is in, where that is declared to end, and the last known
section. -/
inductive Frame
  | header
  | section_ (sectionEnd last : Nat)
  | body (bodyEnd sectionEnd last : Nat)
  /-- The section is not one the reader knows, or the size of the body cannot be read. -/
  | broken
  | finished
  deriving DecidableEq, Repr

/-- A section or a body begins where the last one is declared to end. -/
def frameStep (data : List UInt8) (p : Frame) (e : Nat × Event) : Option Frame :=
  match p, e.2 with
  | .header, .beginModule _ =>
      if e.1 = 8 ∧ data.take 8 = emptyModule then some (.section_ 8 numBinarySections) else none
  | .section_ sectionEnd last, .beginSection code size =>
      match sectionHeader? (data.drop sectionEnd) with
      | some h =>
          if h.code = code ∧ h.size = size ∧ e.1 = sectionEnd + h.length ∧
              (last = numBinarySections ∨ code = 0 ∨ last < code) then
            if code < numBinarySections then
              some (.section_ (sectionEnd + h.total) (h.last last))
            else some .broken
          else none
      | none => none
  | .section_ sectionEnd last, .beginFunctionBody _ =>
      if e.1 ≤ sectionEnd then
        match wasmReadU32Leb128 (data.drop e.1) with
        | some (size, n) => some (.body (e.1 + n + size) sectionEnd last)
        | none => some .broken
      else none
  | .body bodyEnd sectionEnd last, .endFunctionBody _ =>
      if e.1 = bodyEnd ∧ bodyEnd ≤ sectionEnd then some (.section_ sectionEnd last) else none
  | .section_ sectionEnd _, .endModule =>
      if e.1 = sectionEnd ∧ sectionEnd = data.length then some .finished else none
  | .section_ sectionEnd last, e' =>
      if e.1 ≤ sectionEnd ∧ isFraming e' = false then some (.section_ sectionEnd last) else none
  | .body bodyEnd sectionEnd last, e' =>
      if e.1 ≤ sectionEnd ∧ isFraming e' = false then some (.body bodyEnd sectionEnd last) else none
  | _, _ => none

section frame

variable {inp : Input} {c : Context}

/-- The events of `m` are accepted, and `Q` holds at the end. -/
abbrev FollowsFrame (inp : Input) (p : Frame) {α : Type} (m : ReadM α) (c : Context)
    (Q : α → Context → Frame → Prop) : Prop :=
  Emit.Follows (frameStep inp.data) p m c Q

theorem accept_inside {data : List UInt8} {p : Frame} {end_ : Nat}
    (hp : (∃ last, p = .section_ end_ last) ∨ ∃ bodyEnd last, p = .body bodyEnd end_ last) :
    ∀ {es : List (Nat × Event)}, (∀ e ∈ es, e.1 ≤ end_ ∧ isFraming e.2 = false) →
      Emit.accept (frameStep data) p es = some p
  | [], _ => rfl
  | e :: es, h => by
      obtain ⟨hle, hplain⟩ := h e List.mem_cons_self
      have hstep : frameStep data p e = some p := by
        obtain ⟨offset, e⟩ := e
        rcases hp with ⟨last, rfl⟩ | ⟨bodyEnd, last, rfl⟩ <;> cases e <;>
          first | exact if_pos ⟨hle, rfl⟩ | cases hplain
      rw [Emit.accept_cons, hstep, Option.bind_some]
      exact accept_inside hp fun e he => h e (List.mem_cons_of_mem _ he)

/-- A reader that stays inside of its section or body. -/
theorem follows_inside {α : Type} {m : ReadM α} [hm : Inside false inp m] {p : Frame}
    (hc : Within inp c)
    (hp : (∃ last, p = .section_ c.readEnd last) ∨ ∃ bodyEnd last, p = .body bodyEnd c.readEnd last) :
    FollowsFrame inp p m c fun a d p' =>
      p' = p ∧ (Onward c d ∧ Within inp d) ∧ (m c).2 = .ok (a, d) := by
  refine ⟨p, accept_inside hp fun e he => ?_, fun a d hrun => ⟨rfl, ?_, hrun⟩⟩
  · obtain ⟨hle, hplain⟩ := hm.events hc e he
    exact ⟨hle, by simpa using hplain⟩
  · have hends := hm.ends hc
    rw [hrun] at hends
    exact hends

theorem follows_bind_frame {α β : Type} {m : ReadM α} {f : α → ReadM β} {p : Frame}
    {Q : β → Context → Frame → Prop}
    (h : FollowsFrame inp p m c fun a d p' => FollowsFrame inp p' (f a) d Q) :
    FollowsFrame inp p (m >>= f) c Q := Emit.Follows.bind h

theorem follows_callback_frame {e : Event} {p p' : Frame} {Q : Unit → Context → Frame → Prop}
    (he : frameStep inp.data p (c.offset, e) = some p') (h : Q () c p') :
    FollowsFrame inp p (callback e) c Q := by
  refine ⟨p', ?_, fun a d hrun => ?_⟩
  · show Emit.accept _ p [(c.offset, e)] = some p'
    rw [Emit.accept_cons, he]
    rfl
  · cases hrun
    exact h

/-- The body ends where it is declared to, in its section. -/
theorem readFunctionBodyEntry_framed (hlen : inp.data.length < maxU32) {i last : Nat}
    (hc : Within inp c) :
    FollowsFrame inp (.section_ c.readEnd last) (readFunctionBodyEntry inp i) c fun _ d p' =>
      p' = .section_ c.readEnd last ∧ Onward c d ∧ Within inp d := by
  have hoffset := hc.offset
  have hreadEnd := hc.readEnd
  refine follows_bind_frame (Emit.Follows.modify ?_)
  have hcut : ({ c with offset := u32 c.offset } : Context) = c := by rw [u32_of_lt (by omega)]
  rw [hcut]
  have hbegin : frameStep inp.data (.section_ c.readEnd last) (c.offset, .beginFunctionBody i) =
      match wasmReadU32Leb128 (inp.data.drop c.offset) with
      | some (size, n) => some (.body (c.offset + n + size) c.readEnd last)
      | none => some .broken := if_pos hoffset
  cases hread : wasmReadU32Leb128 (inp.window c) with
  | none =>
    have hsize : inU32Leb128 inp c = ([], .error .error) := by
      simp only [inU32Leb128, inLeb_eq, hread]
    obtain ⟨p', hp'⟩ : ∃ p', frameStep inp.data (.section_ c.readEnd last)
        (c.offset, .beginFunctionBody i) = some p' := by
      rw [hbegin]
      cases wasmReadU32Leb128 (inp.data.drop c.offset) <;> exact ⟨_, rfl⟩
    refine follows_bind_frame (follows_callback_frame hp' ⟨p', ?_, fun a d hrun => ?_⟩)
    · rw [Emit.bind_eq, Emit.bind_error hsize]
      rfl
    · rw [Emit.bind_eq, Emit.bind_error hsize] at hrun
      cases hrun
  | some result =>
    obtain ⟨size, n⟩ := result
    rw [wasmReadU32Leb128_of_window hread] at hbegin
    refine follows_bind_frame (follows_callback_frame hbegin ?_)
    obtain ⟨hpos, hle⟩ := lebReader_u32 _ _ _ hread
    have hlt := wasmReadU32Leb128_lt hread
    have hwindow : (inp.window c).length ≤ c.readEnd - c.offset := List.length_take_le _ _
    have hsize : inU32Leb128 inp c = ([], .ok (size, { c with offset := c.offset + n })) := by
      simp only [inU32Leb128, inLeb_eq, hread]
    refine follows_bind_frame ⟨_, by rw [hsize]; rfl, fun a d hrun => ?_⟩
    rw [hsize] at hrun
    cases hrun
    have hin : ∀ {d : Context}, d.readEnd = c.readEnd →
        (∃ last', Frame.body (c.offset + n + size) c.readEnd last = .section_ d.readEnd last') ∨
          ∃ bodyEnd last', Frame.body (c.offset + n + size) c.readEnd last =
            .body bodyEnd d.readEnd last' := fun h => .inr ⟨_, _, by rw [h]⟩
    have hc₁ : Within inp { c with offset := c.offset + n } :=
      ⟨by dsimp only; omega, hreadEnd⟩
    refine follows_bind_frame (Emit.Follows.get ?_)
    refine follows_bind_frame ((follows_inside hc₁ (hin rfl)).mono ?_)
    rintro count c₂ _ ⟨rfl, ⟨hmove₂, hc₂⟩, -⟩
    refine follows_bind_frame ((follows_inside hc₂ (hin hmove₂.readEnd)).mono ?_)
    rintro _ c₃ _ ⟨rfl, ⟨hmove₃, hc₃⟩, -⟩
    have hmove₃ := hmove₂.trans hmove₃
    refine follows_bind_frame ((follows_inside hc₃ (hin hmove₃.readEnd)).mono ?_)
    rintro _ c₄ _ ⟨rfl, ⟨hmove₄, hc₄⟩, -⟩
    have hmove₄ := hmove₃.trans hmove₄
    refine follows_bind_frame ((follows_inside hc₄ (hin hmove₄.readEnd)).mono ?_)
    rintro _ d _ ⟨rfl, ⟨hmove, hd⟩, hrun⟩
    have hmove := hmove₄.trans hmove
    have hend := readFunctionBody_eq_ok (Prod.ext rfl hrun)
    have hwithin := hd.offset
    have hsame := hmove.readEnd
    have hstart := hmove.offset
    dsimp only at hsame hstart hend
    -- an end that overflows is before the start
    have hbodyEnd : d.offset = c.offset + n + size := by
      rw [u32_of_lt (show c.offset + n < maxU32 by omega)] at hend
      unfold u32 at hend
      unfold maxU32 at *
      omega
    refine follows_callback_frame (if_pos ⟨hbodyEnd, by omega⟩) ⟨rfl, ⟨hsame, by omega⟩, hd⟩

theorem readCodeSection_framed (hlen : inp.data.length < maxU32) {size last : Nat}
    (hc : Within inp c) :
    FollowsFrame inp (.section_ c.readEnd last) (readCodeSection inp size) c fun _ d p' =>
      p' = .section_ c.readEnd last ∧ Onward c d ∧ Within inp d := by
  have hin : ∀ {d : Context}, d.readEnd = c.readEnd →
      (∃ last', Frame.section_ c.readEnd last = .section_ d.readEnd last') ∨
        ∃ bodyEnd last', Frame.section_ c.readEnd last = .body bodyEnd d.readEnd last' :=
    fun h => .inl ⟨last, by rw [h]⟩
  refine follows_bind_frame ((follows_inside hc (hin rfl)).mono ?_)
  rintro _ c₁ _ ⟨rfl, ⟨hmove₁, hc₁⟩, -⟩
  refine follows_bind_frame ((follows_inside hc₁ (hin hmove₁.readEnd)).mono ?_)
  rintro count c₂ _ ⟨rfl, ⟨hmove₂, hc₂⟩, -⟩
  have hmove₂ := hmove₁.trans hmove₂
  refine follows_bind_frame (Emit.Follows.modify ?_)
  refine follows_bind_frame (Emit.Follows.get ?_)
  refine follows_bind_frame (Emit.Follows.check fun _ => ?_)
  have hc₃ : Within inp { c₂ with numFunctionBodies := count } := ⟨hc₂.offset, hc₂.readEnd⟩
  have hmove₃ : Onward c { c₂ with numFunctionBodies := count } := ⟨hmove₂.readEnd, hmove₂.offset⟩
  refine follows_bind_frame ((follows_inside hc₃ (hin hmove₃.readEnd)).mono ?_)
  rintro _ c₄ _ ⟨rfl, ⟨hmove₄, hc₄⟩, -⟩
  have hmove₄ := hmove₃.trans hmove₄
  refine follows_bind_frame ((Emit.Follows.forFrom (N := count) (I := fun _ d p' =>
    p' = .section_ c.readEnd last ∧ Onward c d ∧ Within inp d) ?_ (by omega)
    ⟨rfl, hmove₄, hc₄⟩).mono ?_)
  · rintro i d _ _ ⟨rfl, hmove, hd⟩
    rw [← hmove.readEnd]
    refine (readFunctionBodyEntry_framed hlen hd).mono ?_
    rintro _ e _ ⟨rfl, hmove', he⟩
    exact ⟨rfl, hmove.trans hmove', he⟩
  · rintro _ d _ ⟨rfl, hmove, hd⟩
    refine (follows_inside hd (hin hmove.readEnd)).mono ?_
    rintro _ e _ ⟨rfl, ⟨hmove', he⟩, -⟩
    exact ⟨rfl, hmove.trans hmove', he⟩

theorem readSectionPayload_framed (hlen : inp.data.length < maxU32) {code size last : Nat}
    (hc : Within inp c) :
    FollowsFrame inp (.section_ c.readEnd last) (readSectionPayload inp code size) c fun _ _ p' =>
      p' = .section_ c.readEnd last := by
  by_cases hcode : code = 10
  · subst hcode
    exact (readCodeSection_framed hlen hc).mono fun _ _ _ h => h.1
  · have hinside : Inside false inp (readSectionPayload inp code size) :=
      inside_readSectionPayload hcode size
    exact (follows_inside hc (.inl ⟨last, rfl⟩)).mono fun _ _ _ h => h.1

theorem follows_run {α : Type} {m : ReadM α} {p : Frame} {Q : α → Context → Frame → Prop}
    (h : FollowsFrame inp p m c Q) :
    FollowsFrame inp p m c fun a d p' => Q a d p' ∧ (m c).2 = .ok (a, d) := by
  obtain ⟨p', hp, hQ⟩ := h
  exact ⟨p', hp, fun a d hrun => ⟨hQ a d hrun, hrun⟩⟩

theorem follows_of_error {α : Type} {m : ReadM α} {p : Frame} {Q : α → Context → Frame → Prop}
    {err : ReadFailure} (h : m c = ([], .error err)) : FollowsFrame inp p m c Q := by
  refine ⟨p, by rw [h]; rfl, fun a d hrun => ?_⟩
  rw [h] at hrun
  cases hrun

/-- A section begins at the end of the last one and ends where it is declared to. -/
theorem readSection_frames (hlen : inp.data.length < maxU32) :
    FollowsFrame inp (.section_ c.offset c.lastKnownSectionCode) (readSection inp) c fun _ d p' =>
      p' = .section_ d.offset d.lastKnownSectionCode ∧ d.offset ≤ inp.data.length ∧
        c.offset < d.offset := by
  cases hheader : sectionHeader? (inp.data.drop c.offset) with
  | none => exact follows_of_error (readSection_none hheader)
  | some h =>
    obtain ⟨hpos, htotal⟩ := sectionHeader?_spec hheader
    rw [List.length_drop] at htotal
    have hlength : 0 < h.total := Nat.add_pos_left hpos _
    have hfollows : FollowsFrame inp (.section_ c.offset c.lastKnownSectionCode)
        (readFramed inp h.code h.size) (c.enter h) fun _ _ p' =>
          p' = .section_ (c.offset + h.total) (h.last c.lastKnownSectionCode) := by
      refine follows_bind_frame (Emit.Follows.get ?_)
      refine follows_bind_frame (Emit.Follows.check fun horder => ?_)
      have horder : c.lastKnownSectionCode = numBinarySections ∨ h.code = 0 ∨
        c.lastKnownSectionCode < h.code := of_decide_eq_true horder
      have hstep : frameStep inp.data (.section_ c.offset c.lastKnownSectionCode)
          (c.offset + h.length, .beginSection h.code h.size) =
            if h.code < numBinarySections then
              some (.section_ (c.offset + h.total) (h.last c.lastKnownSectionCode))
            else some .broken := by
        unfold frameStep
        dsimp only
        rw [hheader]
        exact if_pos ⟨rfl, rfl, rfl, horder⟩
      by_cases hknown : h.code < numBinarySections
      case neg =>
        rw [if_neg hknown] at hstep
        refine follows_bind_frame (follows_callback_frame hstep ?_)
        have hraise : readSectionPayload inp h.code h.size = raiseError := by
          unfold readSectionPayload
          split <;> first | rfl | exact absurd (by assumption) (by simp only [numBinarySections] at hknown; omega)
        rw [hraise]
        exact follows_bind_frame Emit.Follows.fail
      rw [if_pos hknown] at hstep
      refine follows_bind_frame (follows_callback_frame hstep ?_)
      have hwithin : Within inp (c.enter h) := by
        refine ⟨?_, ?_⟩
        · simp only [Context.enter, SectionHeader.total]
          omega
        · show c.offset + h.total ≤ inp.data.length
          omega
      refine follows_bind_frame ((readSectionPayload_framed hlen hwithin).mono ?_)
      rintro _ d _ rfl
      refine follows_bind_frame (Emit.Follows.get ?_)
      refine follows_bind_frame (Emit.Follows.check fun _ => ?_)
      split
      · exact Emit.Follows.modify rfl
      · exact Emit.Follows.pure rfl
    rw [FollowsFrame, Emit.Follows, ← readSection_some hheader] at hfollows
    refine (follows_run hfollows).mono ?_
    rintro _ d _ ⟨rfl, hrun⟩
    obtain ⟨hoffset, -, hlast, -⟩ := readSection_eq_ok hheader (Prod.ext rfl hrun)
    exact ⟨by rw [hoffset, hlast], by omega, by omega⟩

theorem readSections_frames (hlen : inp.data.length < maxU32) :
    ∀ {n : Nat} {c : Context}, c.offset ≤ inp.data.length → inp.data.length ≤ c.offset + n →
      FollowsFrame inp (.section_ c.offset c.lastKnownSectionCode) (readSections inp n) c
        fun _ d p' => p' = .section_ d.offset d.lastKnownSectionCode ∧
          d.offset = inp.data.length
  | 0, c, hle, hn => Emit.Follows.pure ⟨rfl, by omega⟩
  | n + 1, c, hle, hn => by
      refine follows_bind_frame (Emit.Follows.get ?_)
      split
      · refine follows_bind_frame ((readSection_frames hlen).mono ?_)
        rintro _ d _ ⟨rfl, hd, hmore⟩
        exact readSections_frames hlen hd (by omega)
      · exact Emit.Follows.pure ⟨rfl, by omega⟩

theorem leNat_inj : ∀ {bs bs' : List UInt8}, bs.length = bs'.length → leNat bs = leNat bs' →
    bs = bs'
  | [], [], _, _ => rfl
  | b :: bs, b' :: bs', hlen, h => by
      have hb := b.toNat_lt
      have hb' := b'.toNat_lt
      simp only [leNat] at h
      obtain rfl : b = b' := UInt8.toNat_inj.mp (by omega)
      rw [leNat_inj (by simpa using hlen) (by omega : leNat bs = leNat bs')]

theorem inU32_frames {p : Frame} {Q : Nat → Context → Frame → Prop}
    (hend : c.readEnd = inp.data.length)
    (h : c.offset + 4 ≤ inp.data.length →
      Q (leNat ((inp.data.drop c.offset).take 4)) { c with offset := c.offset + 4 } p) :
    FollowsFrame inp p (inU32 inp) c Q := by
  by_cases hle : c.offset + 4 ≤ inp.data.length
  · refine ⟨p, by rw [inU32_of_le hend hle]; rfl, fun a d hrun => ?_⟩
    rw [inU32_of_le hend hle] at hrun
    cases hrun
    exact h hle
  · refine @follows_of_error _ _ _ _ _ _ .error ?_
    rw [inU32, Emit.bind_eq, Emit.bind_error (inRaw_of_lt (by omega))]

theorem eq_of_leNat {bs bs' : List UInt8} {n : Nat} (hlen : bs.length = bs'.length)
    (h : decide (leNat bs = n) = true) (h' : leNat bs' = n) : bs = bs' :=
  leNat_inj hlen ((of_decide_eq_true h).trans h'.symm)

theorem readHeader_frames :
    FollowsFrame inp .header (readHeader inp) (initialContext inp) fun _ d p' =>
      p' = .section_ 8 numBinarySections ∧ d = afterHeader inp ∧ 8 ≤ inp.data.length := by
  refine follows_bind_frame (inU32_frames rfl fun hmagicLen => ?_)
  refine follows_bind_frame (Emit.Follows.check fun hmagic => ?_)
  refine follows_bind_frame (inU32_frames rfl fun hversionLen => ?_)
  refine follows_bind_frame (Emit.Follows.check fun hversion => ?_)
  have hlen : 8 ≤ inp.data.length := hversionLen
  have hword : ∀ n, n + 4 ≤ inp.data.length → ((inp.data.drop n).take 4).length = 4 := by
    intro n hn
    rw [List.length_take, List.length_drop]
    omega
  have hmagic : (inp.data.drop 0).take 4 = emptyModule.take 4 :=
    eq_of_leNat (hword 0 (by omega)) hmagic rfl
  have hversion : (inp.data.drop 4).take 4 = emptyModule.drop 4 :=
    eq_of_leNat (hword 4 hlen) hversion rfl
  have htake : inp.data.take 8 = emptyModule := by
    have hsplit : inp.data.take (4 + 4) = inp.data.take 4 ++ (inp.data.drop 4).take 4 := List.take_add
    rw [show (8 : Nat) = 4 + 4 from rfl, hsplit, hversion]
    rw [List.drop_zero] at hmagic
    rw [hmagic, List.take_append_drop]
  exact follows_callback_frame (if_pos ⟨rfl, htake⟩) ⟨rfl, rfl, hlen⟩

/-- The callbacks of a read keep to the frame, and an accepted input is framed to its end. -/
theorem trace_framed (hlen : inp.data.length < maxU32) :
    ∃ p, Emit.accept (frameStep inp.data) .header (trace inp) = some p ∧
      (Accepts inp → p = .finished) := by
  have hfollows : FollowsFrame inp .header (readModule inp) (initialContext inp) fun _ _ p' =>
      p' = .finished := by
    rw [readModule_eq]
    refine follows_bind_frame (readHeader_frames.mono ?_)
    rintro _ _ _ ⟨rfl, rfl, hheader⟩
    refine follows_bind_frame ((readSections_frames hlen (c := afterHeader inp) hheader
      (Nat.le_add_left _ _)).mono ?_)
    rintro _ d _ ⟨rfl, hd⟩
    exact follows_callback_frame (if_pos ⟨rfl, hd⟩) rfl
  obtain ⟨p, hp, hdone⟩ := hfollows
  exact ⟨p, hp, fun ⟨d, hrun⟩ => hdone () d hrun⟩

/-! ## What the frame says of the input -/

/-- The codes of the sections that are not custom ones. -/
def knownCodes (hs : List SectionHeader) : List Nat :=
  (hs.map SectionHeader.code).filter (· ≠ 0)

theorem wasmReadU32Leb128_take {bs : List UInt8} {value n m : Nat}
    (h : wasmReadU32Leb128 bs = some (value, n)) (hm : n ≤ m) :
    wasmReadU32Leb128 (bs.take m) = some (value, n) := by
  obtain ⟨bytes, rest, rfl, hlen, henc, hvalue⟩ := wasmReadU32Leb128_iff.mp h
  refine wasmReadU32Leb128_iff.mpr ⟨bytes, rest.take (m - bytes.length), ?_, hlen, henc, hvalue⟩
  rw [List.take_append, List.take_of_length_le (by omega)]

theorem sectionHeader?_take {bs : List UInt8} {h : SectionHeader}
    (hheader : sectionHeader? bs = some h) : sectionHeader? (bs.take h.total) = some h := by
  have hspec := sectionHeader?_spec hheader
  unfold sectionHeader? at hheader ⊢
  cases hcode : wasmReadU32Leb128 bs with
  | none => simp [hcode] at hheader
  | some code =>
    obtain ⟨code, n⟩ := code
    cases hsize : wasmReadU32Leb128 (bs.drop n) with
    | none => simp [hcode, hsize] at hheader
    | some size =>
      obtain ⟨size, m⟩ := size
      simp only [hcode, hsize] at hheader
      split at hheader
      · cases hheader
        simp only [SectionHeader.total] at hspec ⊢
        rw [wasmReadU32Leb128_take hcode (by omega)]
        dsimp only
        rw [List.drop_take, wasmReadU32Leb128_take hsize (by omega)]
        exact if_pos (by rw [List.length_take]; omega)
      · cases hheader

/-- Where the section that the reader is in ends, and the last known section. -/
def Frame.ends? : Frame → Option (Nat × Nat)
  | .section_ sectionEnd last | .body _ sectionEnd last => some (sectionEnd, last)
  | _ => none

theorem frameStep_header {data : List UInt8} {p : Frame} {e : Nat × Event}
    (hstep : frameStep data .header e = some p) :
    data.take 8 = emptyModule ∧ p = .section_ 8 numBinarySections := by
  unfold frameStep at hstep
  split at hstep
  case h_1 =>
    split at hstep
    case isTrue h =>
      cases hstep
      exact ⟨h.2, rfl⟩
    case isFalse => cases hstep
  all_goals contradiction

theorem frameStep_plain {data : List UInt8} {p : Frame} {e : Nat × Event} {end_ last : Nat}
    (hp : p.ends? = some (end_, last)) (hplain : isFraming e.2 = false) :
    frameStep data p e = if e.1 ≤ end_ then some p else none := by
  obtain ⟨offset, e⟩ := e
  have hcond : ∀ (q : Frame), (if offset ≤ end_ ∧ isFraming e = false then some q else none) =
      if offset ≤ end_ then some q else none := by
    intro q
    have hiff : offset ≤ end_ ∧ isFraming e = false ↔ offset ≤ end_ := and_iff_left hplain
    simp only [hiff]
  rw [← hcond]
  cases p <;> cases hp <;> cases e <;> first | rfl | cases hplain

/-- One callback stays in the section, or begins the next one at its end. -/
theorem frameStep_ends {data : List UInt8} {p p' : Frame} {e : Nat × Event} {end_ last : Nat}
    (hp : p.ends? = some (end_, last)) (hstep : frameStep data p e = some p') :
    p'.ends? = some (end_, last) ∨ p' = .broken ∨ p' = .finished ∧ end_ = data.length ∨
      ∃ h, sectionHeader? (data.drop end_) = some h ∧
        (last = numBinarySections ∨ h.code = 0 ∨ last < h.code) ∧ h.code < numBinarySections ∧
          p'.ends? = some (end_ + h.total, h.last last) := by
  cases hplain : isFraming e.2 with
  | false =>
    rw [frameStep_plain hp hplain] at hstep
    split at hstep <;> cases hstep
    exact .inl hp
  | true =>
    obtain ⟨offset, e⟩ := e
    have hno : ∀ {q : Frame}, (if offset ≤ end_ ∧ true = false then some q else none) = some p' →
        False := fun h => by simp at h
    cases p <;> cases hp <;> cases e <;> cases hplain
    · exact (hno hstep).elim
    · -- the end of the module
      have hstep : (if offset = end_ ∧ end_ = data.length then some Frame.finished else none) =
        some p' := hstep
      split at hstep
      case isTrue h =>
        cases hstep
        exact .inr (.inr (.inl ⟨rfl, h.2⟩))
      case isFalse => cases hstep
    · -- the next section
      unfold frameStep at hstep
      dsimp only at hstep
      cases hheader : sectionHeader? (data.drop end_) with
      | none =>
        rw [hheader] at hstep
        cases hstep
      | some h =>
        rw [hheader] at hstep
        dsimp only at hstep
        split at hstep
        case isFalse => cases hstep
        case isTrue hcond =>
          obtain ⟨hcode, -, -, horder⟩ := hcond
          split at hstep <;> cases hstep
          case isTrue hknown =>
            exact .inr (.inr (.inr ⟨h, rfl, by rw [hcode]; exact horder, by rw [hcode]; exact hknown,
              rfl⟩))
          case isFalse => exact .inr (.inl rfl)
    · -- a body
      unfold frameStep at hstep
      dsimp only at hstep
      split at hstep
      · split at hstep <;> cases hstep
        · exact .inl rfl
        · exact .inr (.inl rfl)
      · cases hstep
    · exact (hno hstep).elim
    · exact (hno hstep).elim
    · exact (hno hstep).elim
    · exact (hno hstep).elim
    · exact (hno hstep).elim
    · -- the end of a body
      rename_i bodyEnd _
      have hstep : (if offset = bodyEnd ∧ bodyEnd ≤ end_ then some (Frame.section_ end_ last)
        else none) = some p' := hstep
      split at hstep <;> cases hstep
      exact .inl rfl

theorem accept_sections {data : List UInt8} : ∀ {es : List (Nat × Event)} {p : Frame}
    {end_ last : Nat}, p.ends? = some (end_, last) →
      Emit.accept (frameStep data) p es = some .finished →
        ∃ hs, Framed hs (data.drop end_) ∧ (knownCodes hs).Pairwise (· < ·) ∧
          (last ≠ numBinarySections → ∀ code ∈ knownCodes hs, last < code)
  | [], p, end_, last, hp, h => by
      cases h
      cases hp
  | e :: es, p, end_, last, hp, h => by
      obtain ⟨p', hstep, h⟩ := Option.bind_eq_some_iff.mp h
      rcases frameStep_ends hp hstep with hp' | rfl | ⟨rfl, hend⟩ | ⟨header, hheader, horder, hknown, hp'⟩
      · exact accept_sections hp' h
      · cases es with
        | nil => cases h
        | cons e es => cases h
      · rw [hend, List.drop_length]
        exact ⟨[], .nil, .nil, fun _ _ hmem => by cases hmem⟩
      · obtain ⟨hs, hframed, hsorted, hfirst⟩ := accept_sections hp' h
        obtain ⟨hpos, htotal⟩ := sectionHeader?_spec hheader
        have hframed' : Framed (header :: hs) (data.drop end_) := by
          rw [← List.take_append_drop header.total (data.drop end_), List.drop_drop]
          exact .cons (sectionHeader?_take hheader)
            (by rw [List.length_take]; omega) hframed
        by_cases hcode : header.code = 0
        · have hcodes : knownCodes (header :: hs) = knownCodes hs := by
            simp [knownCodes, hcode]
          have hlast : header.last last = last := if_pos hcode
          rw [hlast] at hfirst
          exact ⟨header :: hs, hframed', by rw [hcodes]; exact hsorted, by rw [hcodes]; exact hfirst⟩
        · have hcodes : knownCodes (header :: hs) = header.code :: knownCodes hs := by
            simp [knownCodes, hcode]
          have hlast : header.last last = header.code := if_neg hcode
          rw [hlast] at hfirst
          have hmore := hfirst (by omega)
          refine ⟨header :: hs, hframed', ?_, fun hlast code hmem => ?_⟩
          · rw [hcodes]
            exact List.pairwise_cons.mpr ⟨hmore, hsorted⟩
          · have hlt : last < header.code := by omega
            rw [hcodes] at hmem
            rcases List.mem_cons.mp hmem with rfl | hmem
            · exact hlt
            · exact hlt.trans (hmore code hmem)

/-! ## Reads outside of the input -/

/-- The reader does not read outside of the input. -/
def NoOverrun {α : Type} (r : Except ReadFailure (α × Context)) : Prop := r ≠ .error .overrun

theorem Ends.noOverrun {α : Type} {r : Except ReadFailure (α × Context)} (h : Ends inp c r) :
    NoOverrun r := by
  rintro rfl
  cases h

theorem NoOverrun.bind {α β : Type} {m : ReadM α} {f : α → ReadM β} (hm : NoOverrun (m c).2)
    (hf : ∀ es a d, m c = (es, .ok (a, d)) → NoOverrun (f a d).2) : NoOverrun ((m >>= f) c).2 := by
  rw [Emit.bind_eq]
  rcases hrun : m c with ⟨es, err | ⟨a, d⟩⟩
  · rw [hrun] at hm
    rw [Emit.bind_error hrun]
    rintro ⟨⟩
    exact hm rfl
  · rw [Emit.bind_ok hrun]
    exact hf es a d hrun

theorem inside_readFramed (hlen : inp.data.length < maxU32) (code size : Nat) :
    Inside true inp (readFramed inp code size) := by
  refine .seq fun _ => .seq fun _ => .seq fun _ => .andThen (inside_payload hlen code size) fun _ =>
    .seq fun _ => .seq fun _ => ?_
  split
  · exact .modify (fun _ => rfl) fun _ => rfl
  · infer_instance

theorem readSection_noOverrun (hlen : inp.data.length < maxU32) : NoOverrun (readSection inp c).2 := by
  cases hheader : sectionHeader? (inp.data.drop c.offset) with
  | none =>
    rw [readSection_none hheader]
    rintro ⟨⟩
  | some h =>
    obtain ⟨hpos, htotal⟩ := sectionHeader?_spec hheader
    rw [List.length_drop] at htotal
    have hlength : 0 < h.total := Nat.add_pos_left hpos _
    have hwithin : Within inp (c.enter h) := by
      refine ⟨?_, ?_⟩
      · simp only [Context.enter, SectionHeader.total]
        omega
      · show c.offset + h.total ≤ inp.data.length
        omega
    rw [readSection_some hheader]
    exact ((inside_readFramed hlen h.code h.size).ends hwithin).noOverrun

theorem readSections_noOverrun (hlen : inp.data.length < maxU32) : ∀ {n : Nat} {c : Context},
    NoOverrun (readSections inp n c).2
  | 0, _ => by rintro ⟨⟩
  | n + 1, c => by
      by_cases hlt : c.offset < inp.data.length
      · rw [readSections_succ hlt]
        exact .bind (readSection_noOverrun hlen) fun _ _ _ _ => readSections_noOverrun hlen
      · rw [readSections_done hlt]
        rintro ⟨⟩

theorem readModule_noOverrun (hlen : inp.data.length < maxU32) :
    NoOverrun (readModule inp (initialContext inp)).2 := by
  have hheader : Inside true inp (readHeader inp) := by
    unfold readHeader
    infer_instance
  rw [readModule_eq]
  refine .bind (hheader.ends ⟨Nat.zero_le _, Nat.le_refl _⟩).noOverrun fun _ _ _ _ =>
    .bind (readSections_noOverrun hlen) fun _ _ _ _ => ?_
  rintro ⟨⟩

/-- What is read of a section is known from the bytes below its end. -/
theorem readSectionPayload_below {inp' : Input} (hlen : inp.data.length < maxU32)
    (hc : Within inp c) (hoptions : inp'.options = inp.options)
    (hbytes : inp'.data.take c.readEnd = inp.data.take c.readEnd) (code size : Nat) :
    Emit.Alike Prod.snd (readSectionPayload inp code size) (readSectionPayload inp' code size) c c
      fun a a' d d' => a = a' ∧ d = d' := by
  have hwindow : Window inp inp' 0 c c := by
    refine ⟨rfl, ?_, hc.offset⟩
    have hcut : ∀ bs : List UInt8, (bs.drop c.offset).take (c.readEnd - c.offset) =
        (bs.take c.readEnd).drop c.offset := fun bs => by rw [List.drop_take]
    rw [Input.window, Input.window, hcut, hcut, hbytes]
  have hend : c.readEnd + 0 < maxU32 := Nat.lt_of_le_of_lt hc.readEnd hlen
  have hstays : Emit.Assured (fun _ => True) (StaysAt inp 0) (readSectionPayload inp code size) c :=
    ⟨fun _ _ => trivial, .inr fun e _ => staysAt_zero e⟩
  refine (readSectionPayload_alike hoptions hwindow size code (fun _ => hend) hstays).mono ?_
  rintro a a' d d' ⟨rfl, hd, -⟩
  exact ⟨rfl, hd.shift.symm⟩

/-- An accepted input is a header and whole sections in the order of their codes; every section and
every body is read exactly to where it is declared to end; nothing at `read_end` or past it is
read. -/
theorem framing {options : ReadBinaryOptions} {data : List UInt8} (hlen : data.length < maxU32) :
    (Accepts { data, options } → data.take 8 = emptyModule ∧
      ∃ hs, Framed hs (data.drop 8) ∧ (knownCodes hs).Pairwise (· < ·)) ∧
    (∃ p, Emit.accept (frameStep data) .header (trace { data, options }) = some p ∧
      (Accepts { data, options } → p = .finished)) ∧
    NoOverrun (readModule { data, options } (initialContext { data, options })).2 ∧
    ∀ (code size : Nat) (c : Context) (data' : List UInt8), Within { data, options } c →
      data'.take c.readEnd = data.take c.readEnd →
        Emit.Alike Prod.snd (readSectionPayload { data, options } code size)
          (readSectionPayload { data := data', options } code size) c c
            fun a a' d d' => a = a' ∧ d = d' := by
  obtain ⟨p, hp, hdone⟩ := @trace_framed { data, options } hlen
  refine ⟨fun haccepts => ?_, ⟨p, hp, hdone⟩, readModule_noOverrun hlen, ?_⟩
  · obtain rfl := hdone haccepts
    -- the first callback is that of the header
    cases htrace : trace { data, options } with
    | nil =>
      rw [htrace] at hp
      cases hp
    | cons e es =>
      rw [htrace] at hp
      obtain ⟨p', hstep, hrest⟩ := Option.bind_eq_some_iff.mp hp
      obtain ⟨htake, rfl⟩ := frameStep_header hstep
      obtain ⟨hs, hframed, hsorted, -⟩ := accept_sections rfl hrest
      exact ⟨htake, hs, hframed, hsorted⟩
  · intro code size c data' hc hbytes
    exact readSectionPayload_below hlen hc (by rfl) hbytes code size

/-- A module with a function of no parameters and no instructions. -/
def emptyFunction : List UInt8 :=
  emptyModule ++ [0x01, 0x04, 0x01, 0x60, 0x00, 0x00, 0x03, 0x02, 0x01, 0x00, 0x0a, 0x04, 0x01, 0x02,
    0x00, 0x0b]

theorem framing_emptyFunction : ∃ hs, Framed hs (emptyFunction.drop 8) ∧
    (knownCodes hs).Pairwise (· < ·) := by
  have hok : ((readModule { data := emptyFunction, options := { readDebugNames := true } }
      (initialContext { data := emptyFunction, options := { readDebugNames := true } })).2.isOk) =
        true := by decide +kernel
  have haccepts : Accepts { data := emptyFunction, options := { readDebugNames := true } } := by
    unfold Accepts
    generalize (readModule _ _).2 = r at hok ⊢
    cases r with
    | error err => cases hok
    | ok r => exact ⟨r.2, rfl⟩
  exact ((framing (by decide)).1 haccepts).2

end frame

end BinaryReader

end SexprWasm
