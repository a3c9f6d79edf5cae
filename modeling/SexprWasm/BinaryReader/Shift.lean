import SexprWasm.BinaryReader.Reader
import SexprWasm.Lib.EmitPair

/-!
# A reader knows its bytes by their distance from the offset

Inside of a section the reader looks at the bytes from `offset` up to
`read_end` and at no others, and where in the input they are matters
only for the offsets its callbacks are called with. `Shifts` says so for
two readers: on equal bytes, `k` apart, they make the same callbacks and
come to the same result, `k` apart again. With `k = 0` this says that
the bytes at `read_end` and past it are not looked at.
-/

namespace SexprWasm

namespace BinaryReader

/-- The same place, `k` bytes later. -/
@[reducible] def Context.shift (k : Nat) (c : Context) : Context :=
  { c with offset := c.offset + k, readEnd := c.readEnd + k }

/-- The bytes from the offset to `read_end`. -/
def Input.window (inp : Input) (c : Context) : List UInt8 :=
  (inp.data.drop c.offset).take (c.readEnd - c.offset)

variable {inp inp' : Input} {k : Nat} {α β : Type}

theorem inRaw_of_lt {c : Context} {size : Nat} (h : c.readEnd < c.offset + size) :
    inRaw inp size c = ([], .error .error) := if_pos h

theorem inRaw_of_le {c : Context} {size : Nat} (h : c.offset + size ≤ c.readEnd) :
    inRaw inp size c =
      if ((inp.window c).take size).length = size then
        ([], .ok ((inp.window c).take size, { c with offset := c.offset + size }))
      else ([], .error .overrun) := by
  have htake : (inp.window c).take size = (inp.data.drop c.offset).take size := by
    rw [Input.window, List.take_take, Nat.min_eq_left (by omega)]
  rw [htake]
  exact if_neg (Nat.not_lt.mpr h)

theorem inLeb_eq (read : List UInt8 → Option (Nat × Nat)) (c : Context) :
    inLeb inp read c =
      match read (inp.window c) with
      | none => ([], .error .error)
      | some (value, bytesRead) => ([], .ok (value, { c with offset := c.offset + bytesRead })) := rfl

/-- `c'` has the bytes of `c` before it, `k` bytes later. -/
structure Window (inp inp' : Input) (k : Nat) (c c' : Context) : Prop where
  shift : c' = c.shift k
  bytes : inp'.window c' = inp.window c
  le : c.offset ≤ c.readEnd

/-- Where a reader that was at `c` may be: further on, under the same `read_end`. -/
structure Onward (c d : Context) : Prop where
  readEnd : d.readEnd = c.readEnd
  offset : c.offset ≤ d.offset

theorem Onward.refl (c : Context) : Onward c c := ⟨rfl, Nat.le_refl _⟩

theorem Onward.trans {c d e : Context} (h : Onward c d) (h' : Onward d e) : Onward c e :=
  ⟨h'.readEnd.trans h.readEnd, Nat.le_trans h.offset h'.offset⟩

/-- The outcome of two readers that began at `c` and `k` bytes later. -/
def Apart (inp inp' : Input) (k : Nat) (c : Context) (a a' : α) (d d' : Context) : Prop :=
  a = a' ∧ Window inp inp' k d d' ∧ Onward c d

theorem Apart.after {c d e e' : Context} {a a' : α} (h : Apart inp inp' k d a a' e e')
    (hmove : Onward c d) : Apart inp inp' k c a a' e e' := ⟨h.1, h.2.1, hmove.trans h.2.2⟩

/-- `m` and `m'` make the same callbacks and come to the same result, `k` apart. -/
class Shifts (inp inp' : Input) (k : Nat) (m m' : ReadM α) : Prop where
  alike : ∀ {c c' : Context}, Window inp inp' k c c' →
    Emit.Alike Prod.snd m m' c c' (Apart inp inp' k c)

/-- Reading on, in both inputs. -/
theorem Window.advance {c c' : Context} (h : Window inp inp' k c c') {n : Nat}
    (hn : c.offset + n ≤ c.readEnd) :
    Window inp inp' k { c with offset := c.offset + n } { c' with offset := c'.offset + n } where
  shift := by
    rw [h.shift]
    simp only [Context.shift]
    congr 1
    omega
  bytes := by
    have hdrop : ∀ (inp : Input) (c : Context),
        inp.window { c with offset := c.offset + n } = (inp.window c).drop n := by
      intro inp c
      rw [Input.window, Input.window, List.drop_take, List.drop_drop]
      dsimp only
      congr 1
      omega
    rw [hdrop, hdrop, h.bytes]
  le := hn

theorem inRaw_alike {c c' : Context} (h : Window inp inp' k c c') (size : Nat) :
    Emit.Alike Prod.snd (inRaw inp size) (inRaw inp' size) c c' fun a a' d d' =>
      a = a' ∧ Window inp inp' k d d' ∧ Onward c d ∧ d.offset = c.offset + size := by
  obtain ⟨rfl, hbytes, hle⟩ := id h
  by_cases hend : c.offset + size ≤ c.readEnd
  · have hend' : (c.shift k).offset + size ≤ (c.shift k).readEnd := by
      show c.offset + k + size ≤ c.readEnd + k
      omega
    have hmove : Onward c { c with offset := c.offset + size } := ⟨rfl, Nat.le_add_right _ _⟩
    rw [Emit.Alike, inRaw_of_le hend, inRaw_of_le hend', hbytes]
    split
    · exact ⟨rfl, .ok ⟨rfl, h.advance hend, hmove, rfl⟩⟩
    · exact ⟨rfl, .error _⟩
  · have hend' : (c.shift k).readEnd < (c.shift k).offset + size := by
      show c.readEnd + k < c.offset + k + size
      omega
    rw [Emit.Alike, inRaw_of_lt (Nat.lt_of_not_le hend), inRaw_of_lt hend']
    exact ⟨rfl, .error _⟩

theorem inU8_alike {c c' : Context} (h : Window inp inp' k c c') :
    Emit.Alike Prod.snd (inU8 inp) (inU8 inp') c c' fun a a' d d' =>
      a = a' ∧ Window inp inp' k d d' ∧ Onward c d ∧ d.offset = c.offset + 1 :=
  .bind ((inRaw_alike h 1).mono fun _ _ _ _ ⟨ha, hd⟩ => .pure ⟨congrArg leNat ha, hd⟩)

theorem inLeb_alike {c c' : Context} (h : Window inp inp' k c c')
    {read : List UInt8 → Option (Nat × Nat)} (hread : LebReader read) :
    Emit.Alike Prod.snd (inLeb inp read) (inLeb inp' read) c c' fun a a' d d' =>
      a = a' ∧ Window inp inp' k d d' ∧ Onward c d ∧ ∃ n, 0 < n ∧
        read (inp.window c) = some (a, n) ∧ d = { c with offset := c.offset + n } := by
  have hlen : (inp.window c).length ≤ c.readEnd - c.offset := List.length_take_le _ _
  rw [Emit.Alike, inLeb_eq, inLeb_eq, h.bytes]
  cases hr : read (inp.window c) with
  | none => exact ⟨rfl, .error _⟩
  | some result =>
    obtain ⟨value, bytesRead⟩ := result
    obtain ⟨hpos, hle⟩ := hread _ _ _ hr
    have hnext := h.advance (n := bytesRead) (by have := h.le; omega)
    exact ⟨rfl, .ok ⟨rfl, hnext, ⟨rfl, Nat.le_add_right _ _⟩, bytesRead, hpos, rfl, rfl⟩⟩

namespace Shifts

instance pure (a : α) : Shifts inp inp' k (Pure.pure a : ReadM α) (Pure.pure a) where
  alike h := .pure ⟨rfl, h, .refl _⟩

instance bind {m m' : ReadM α} {f f' : α → ReadM β} [hm : Shifts inp inp' k m m']
    [hf : ∀ a, Shifts inp inp' k (f a) (f' a)] : Shifts inp inp' k (m >>= f) (m' >>= f') where
  alike h := .bind ((hm.alike h).mono fun a a' d d' ⟨ha, hd, hmove⟩ => by
    subst ha
    exact ((hf a).alike hd).mono fun _ _ _ _ he => he.after hmove)

/-- `bind` for a program whose second part is still to be looked at. -/
theorem seq {m m' : ReadM α} {f f' : α → ReadM β} [Shifts inp inp' k m m']
    (hf : ∀ a, Shifts inp inp' k (f a) (f' a)) : Shifts inp inp' k (m >>= f) (m' >>= f') := bind

theorem andThen {m m' : ReadM α} {f f' : α → ReadM β} (hm : Shifts inp inp' k m m')
    (hf : ∀ a, Shifts inp inp' k (f a) (f' a)) : Shifts inp inp' k (m >>= f) (m' >>= f') := bind

/-- A program that looks at its context. -/
theorem get {f f' : Context → ReadM β} (hf : ∀ c, Shifts inp inp' k (f c) (f' (c.shift k))) :
    Shifts inp inp' k (Emit.get >>= f) (Emit.get >>= f') where
  alike {c c'} h := .bind (.get (by
    obtain rfl := h.shift
    exact (hf c).alike h))

instance callback (e : Event) : Shifts inp inp' k (BinaryReader.callback e) (BinaryReader.callback e) where
  alike h := ⟨rfl, .ok ⟨rfl, h, .refl _⟩⟩

instance raiseError : Shifts inp inp' k (BinaryReader.raiseError : ReadM α) BinaryReader.raiseError where
  alike _ := .fail

instance raiseErrorUnless (c : Bool) : Shifts inp inp' k (BinaryReader.raiseErrorUnless c) (BinaryReader.raiseErrorUnless c) where
  alike h := .check fun _ => ⟨rfl, h, .refl _⟩

/-- A check against the counters of the context. -/
theorem getCheck {m m' : ReadM α} (f : Context → Bool) (hf : ∀ c, f (c.shift k) = f c)
    (hm : Shifts inp inp' k m m') :
    Shifts inp inp' k (Emit.get >>= fun c => BinaryReader.raiseErrorUnless (f c) >>= fun _ => m)
      (Emit.get >>= fun c => BinaryReader.raiseErrorUnless (f c) >>= fun _ => m') :=
  get fun c => by
    rw [hf]
    exact seq fun _ => hm

instance ite {c : Prop} [Decidable c] {m m' n n' : ReadM α} [Shifts inp inp' k m m']
    [Shifts inp inp' k n n'] :
    Shifts inp inp' k (if c then m else n) (if c then m' else n') := by
  split <;> infer_instance

/-- A change of the counters. -/
theorem modify {f : Context → Context} (hshift : ∀ c, f (c.shift k) = (f c).shift k)
    (hoffset : ∀ c, (f c).offset = c.offset) (hend : ∀ c, (f c).readEnd = c.readEnd) :
    Shifts inp inp' k (Emit.modify f) (Emit.modify f) where
  alike {c c'} h := .modify (by
    obtain rfl := h.shift
    have hwindow : ∀ (inp : Input) c, inp.window (f c) = inp.window c := fun inp c => by
      rw [Input.window, Input.window, hoffset, hend]
    exact ⟨rfl, ⟨hshift c, by rw [hwindow, hwindow, h.bytes], by rw [hoffset, hend]; exact h.le⟩,
      hend c, Nat.le_of_eq (hoffset c).symm⟩)

instance forFrom {body body' : Nat → ReadM Unit} [hbody : ∀ i, Shifts inp inp' k (body i) (body' i)]
    (i n : Nat) : Shifts inp inp' k (Emit.forFrom body i n) (Emit.forFrom body' i n) where
  alike {c c'} h := ((Emit.Alike.forFrom
    (I := fun _ d d' => Window inp inp' k d d' ∧ Onward c d) (fun i d d' ⟨hd, hmove⟩ =>
      ((hbody i).alike hd).mono fun _ _ e e' ⟨_, he, hmove'⟩ => ⟨he, hmove.trans hmove'⟩)
    ⟨h, .refl c⟩).mono fun _ _ _ _ hd => ⟨rfl, hd⟩)

instance collect {m m' : ReadM α} [hm : Shifts inp inp' k m m'] (n : Nat) :
    Shifts inp inp' k (Emit.collect m n) (Emit.collect m' n) where
  alike {c c'} h := Emit.Alike.collect (I := fun d d' => Window inp inp' k d d' ∧ Onward c d)
    (fun d d' ⟨hd, hmove⟩ => (hm.alike hd).mono fun a a' e e' ⟨ha, he, hmove'⟩ =>
      ⟨ha, he, hmove.trans hmove'⟩) ⟨h, .refl c⟩

instance inRaw (size : Nat) : Shifts inp inp' k (BinaryReader.inRaw inp size)
    (BinaryReader.inRaw inp' size) where
  alike h := (inRaw_alike h size).mono fun _ _ _ _ ⟨ha, hd, hmove, _⟩ => ⟨ha, hd, hmove⟩

theorem inLeb {read : List UInt8 → Option (Nat × Nat)} (hread : LebReader read) :
    Shifts inp inp' k (BinaryReader.inLeb inp read) (BinaryReader.inLeb inp' read) where
  alike h := (inLeb_alike h hread).mono fun _ _ _ _ ⟨ha, hd, hmove, _⟩ => ⟨ha, hd, hmove⟩

end Shifts

/-! ## The functions of the reader -/

section functions

instance : Shifts inp inp' k (inU8 inp) (inU8 inp') := by
  unfold inU8
  infer_instance

instance : Shifts inp inp' k (inU32 inp) (inU32 inp') := by
  unfold inU32
  infer_instance

instance : Shifts inp inp' k (inF32 inp) (inF32 inp') := by
  unfold inF32
  infer_instance

instance : Shifts inp inp' k (inF64 inp) (inF64 inp') := by
  unfold inF64
  infer_instance

instance : Shifts inp inp' k (inU32Leb128 inp) (inU32Leb128 inp') := .inLeb lebReader_u32

instance : Shifts inp inp' k (inI32Leb128 inp) (inI32Leb128 inp') := .inLeb lebReader_i32

instance : Shifts inp inp' k (inI64Leb128 inp) (inI64Leb128 inp') := .inLeb lebReader_i64

instance : Shifts inp inp' k (inType inp) (inType inp') := by
  unfold inType
  infer_instance

instance : Shifts inp inp' k (inConcreteType inp) (inConcreteType inp') := by
  refine Shifts.seq fun type => ?_
  cases concreteType? type <;> infer_instance

instance : Shifts inp inp' k (inInlineSig inp) (inInlineSig inp') := by
  refine Shifts.seq fun type => ?_
  cases concreteType? type <;> infer_instance

instance : Shifts inp inp' k (inStr inp) (inStr inp') := by
  unfold inStr
  infer_instance

instance : Shifts inp inp' k (inBytes inp) (inBytes inp') := by
  unfold inBytes
  infer_instance

instance (index : Nat) : Shifts inp inp' k (readInitExpr inp index) (readInitExpr inp' index) := by
  unfold readInitExpr
  infer_instance

instance : Shifts inp inp' k (readTable inp) (readTable inp') := by
  unfold readTable
  infer_instance

instance : Shifts inp inp' k (readMemory inp) (readMemory inp') := by
  unfold readMemory
  infer_instance

instance : Shifts inp inp' k (readGlobalHeader inp) (readGlobalHeader inp') := by
  unfold readGlobalHeader
  infer_instance

instance (opcode : WasmOpcode) : Shifts inp inp' k (readInstr inp opcode) (readInstr inp' opcode) := by
  unfold readInstr
  split
  case h_22 =>
    exact .seq fun funcIndex => .getCheck _ (fun _ => rfl) inferInstance
  case h_23 =>
    exact .seq fun sigIndex => .getCheck _ (fun _ => rfl) inferInstance
  all_goals infer_instance

theorem readOpcodes_done {endOffset : Nat} {c : Context} (h : ¬ c.offset < endOffset) (seen : Bool) :
    ∀ n, readOpcodes inp endOffset n seen c = ([], .ok (seen, c))
  | 0 => rfl
  | n + 1 => by
      rw [readOpcodes, Emit.bind_eq, Emit.bind_ok (Emit.get_run c), if_neg h]
      rfl

/-- The number of iterations allowed for does not matter once it is enough. -/
theorem readOpcodes_alike {endOffset : Nat} : ∀ {n n' : Nat} {seen : Bool} {c c' : Context},
    Window inp inp' k c c' → endOffset ≤ c.offset + n → endOffset ≤ c.offset + n' →
      Emit.Alike Prod.snd (readOpcodes inp endOffset n seen)
        (readOpcodes inp' (endOffset + k) n' seen) c c' (Apart inp inp' k c) := by
  intro n
  induction n with
  | zero =>
    intro n' seen c c' h hn hn'
    obtain rfl := h.shift
    rw [Emit.Alike, readOpcodes_done (by omega),
      readOpcodes_done (c := c.shift k) (by show ¬ c.offset + k < endOffset + k; omega)]
    exact ⟨rfl, .ok ⟨rfl, h, .refl c⟩⟩
  | succ n ih =>
    intro n' seen c c' h hn hn'
    obtain rfl := h.shift
    by_cases hlt : c.offset < endOffset
    · obtain ⟨n', rfl⟩ : ∃ i, n' = i + 1 := ⟨n' - 1, by omega⟩
      have hlt' : (c.shift k).offset < endOffset + k := Nat.add_lt_add_right hlt k
      refine .bind (.get ?_)
      rw [if_pos hlt, if_pos hlt']
      refine .bind ((inU8_alike h).mono fun opcode _ d d' ⟨ha, hd, hmove, hoffset⟩ => ?_)
      subst ha
      refine .bind (((Shifts.callback (.onOpcode opcode)).alike hd).mono
        fun _ _ e e' ⟨_, he, hmove₁⟩ => ?_)
      have hoffset₁ := hmove₁.offset
      cases WasmOpcode.ofCode? opcode with
      | none => exact .fail
      | some op =>
        refine .bind (.get ?_)
        obtain rfl := he.shift
        have hend : (op.group = .end_ ∧ (e.shift k).offset = endOffset + k) ↔
            (op.group = .end_ ∧ e.offset = endOffset) :=
          and_congr_right fun _ => Nat.add_right_cancel_iff
        by_cases hseen : op.group = .end_ ∧ e.offset = endOffset
        · rw [if_pos hseen, if_pos (hend.mpr hseen)]
          exact (ih he (by omega) (by omega)).mono fun _ _ _ _ hf =>
            hf.after (hmove.trans hmove₁)
        · rw [if_neg hseen, if_neg (mt hend.mp hseen)]
          have hinstr : Shifts inp inp' k (readInstr inp op) (readInstr inp' op) := inferInstance
          refine .bind ((hinstr.alike he).mono fun _ _ f f' ⟨_, hf, hmove₂⟩ => ?_)
          have hoffset₂ := hmove₂.offset
          exact (ih hf (by omega) (by omega)).mono fun _ _ _ _ hg =>
            hg.after ((hmove.trans hmove₁).trans hmove₂)
    · rw [Emit.Alike, readOpcodes_done hlt,
        readOpcodes_done (c := c.shift k) (by show ¬ c.offset + k < endOffset + k; omega)]
      exact ⟨rfl, .ok ⟨rfl, h, .refl c⟩⟩

instance (endOffset : Nat) :
    Shifts inp inp' k (readFunctionBody inp endOffset) (readFunctionBody inp' (endOffset + k)) := by
  have hopcodes : Shifts inp inp' k (readOpcodes inp endOffset endOffset false)
      (readOpcodes inp' (endOffset + k) (endOffset + k) false) :=
    ⟨fun h => readOpcodes_alike h (by omega) (by omega)⟩
  refine .andThen hopcodes fun seenEndOpcode => .get fun c => ?_
  have hend : decide ((c.shift k).offset = endOffset + k) = decide (c.offset = endOffset) :=
    decide_eq_decide.mpr Nat.add_right_cancel_iff
  rw [hend]
  infer_instance

instance (i : Nat) : Shifts inp inp' k (readFunctionNames inp i) (readFunctionNames inp' i) := by
  unfold readFunctionNames
  infer_instance

/-- `ctx->offset = ctx->read_end`. -/
theorem shifts_skip : Shifts inp inp' k (Emit.modify fun c => { c with offset := c.readEnd })
    (Emit.modify fun c => { c with offset := c.readEnd }) where
  alike {c c'} h := .modify (by
    obtain rfl := h.shift
    have hempty : ∀ (inp : Input) (c : Context), inp.window { c with offset := c.readEnd } = [] := by
      intro inp c
      simp [Input.window]
    exact ⟨rfl, ⟨rfl, by rw [hempty, hempty], Nat.le_refl _⟩, rfl, h.le⟩)

theorem shifts_readCustomSection (hoptions : inp'.options = inp.options) (sectionSize : Nat) :
    Shifts inp inp' k (readCustomSection inp sectionSize) (readCustomSection inp' sectionSize) := by
  unfold readCustomSection
  refine .seq fun sectionName => .seq fun _ => .get fun c => ?_
  rw [hoptions]
  split
  · exact .seq fun _ => .seq fun numFunctions =>
      .andThen (.raiseErrorUnless (numFunctions ≤ c.numTotalFuncs)) fun _ => inferInstance
  · exact .andThen shifts_skip fun _ => inferInstance

instance (i : Nat) : Shifts inp inp' k (readSignature inp i) (readSignature inp' i) := by
  unfold readSignature
  infer_instance

instance (sectionSize : Nat) :
    Shifts inp inp' k (readTypeSection inp sectionSize) (readTypeSection inp' sectionSize) :=
  .seq fun _ => .seq fun _ => .andThen (.modify (fun _ => rfl) (fun _ => rfl) fun _ => rfl)
    fun _ => inferInstance

instance (i : Nat) : Shifts inp inp' k (readImport inp i) (readImport inp' i) := by
  refine .seq fun _ => .seq fun _ => .seq fun _ => .seq fun kind => ?_
  split_ifs
  · exact .seq fun _ => .getCheck _ (fun _ => rfl)
      (.seq fun _ => .modify (fun _ => rfl) (fun _ => rfl) fun _ => rfl)
  · exact .seq fun _ => .seq fun _ => .modify (fun _ => rfl) (fun _ => rfl) fun _ => rfl
  · exact .seq fun _ => .seq fun _ => .modify (fun _ => rfl) (fun _ => rfl) fun _ => rfl
  · exact .seq fun _ => .seq fun _ => .modify (fun _ => rfl) (fun _ => rfl) fun _ => rfl
  · infer_instance

instance (sectionSize : Nat) :
    Shifts inp inp' k (readImportSection inp sectionSize) (readImportSection inp' sectionSize) :=
  .seq fun _ => .seq fun _ => .andThen (.modify (fun _ => rfl) (fun _ => rfl) fun _ => rfl)
    fun _ => inferInstance

instance (sectionSize : Nat) :
    Shifts inp inp' k (readFunctionSection inp sectionSize) (readFunctionSection inp' sectionSize) := by
  have hentry : ∀ i, Shifts inp inp' k
      (do
        let sigIndex ← inU32Leb128 inp
        let c ← Emit.get
        raiseErrorUnless (sigIndex < c.numSignatures)
        callback (.onFunctionSignature i sigIndex))
      (do
        let sigIndex ← inU32Leb128 inp'
        let c ← Emit.get
        raiseErrorUnless (sigIndex < c.numSignatures)
        callback (.onFunctionSignature i sigIndex)) := fun i =>
    .seq fun _ => .getCheck _ (fun _ => rfl) inferInstance
  exact .seq fun _ => .seq fun _ => .andThen (.modify (fun _ => rfl) (fun _ => rfl) fun _ => rfl)
    fun _ => inferInstance

instance (sectionSize : Nat) :
    Shifts inp inp' k (readTableSection inp sectionSize) (readTableSection inp' sectionSize) :=
  .seq fun _ => .seq fun _ => .andThen (.modify (fun _ => rfl) (fun _ => rfl) fun _ => rfl)
    fun _ => inferInstance

instance (sectionSize : Nat) :
    Shifts inp inp' k (readMemorySection inp sectionSize) (readMemorySection inp' sectionSize) :=
  .seq fun _ => .seq fun _ => .andThen (.modify (fun _ => rfl) (fun _ => rfl) fun _ => rfl)
    fun _ => inferInstance

instance (i : Nat) : Shifts inp inp' k (readGlobal inp i) (readGlobal inp' i) :=
  .seq fun ⟨_, _⟩ => inferInstance

instance (sectionSize : Nat) :
    Shifts inp inp' k (readGlobalSection inp sectionSize) (readGlobalSection inp' sectionSize) :=
  .seq fun _ => .seq fun _ => .andThen (.modify (fun _ => rfl) (fun _ => rfl) fun _ => rfl)
    fun _ => inferInstance

instance (i : Nat) : Shifts inp inp' k (readExport inp i) (readExport inp' i) := by
  refine .seq fun _ => .seq fun _ => .seq fun _ => .seq fun itemIndex => .get fun c => ?_
  show Shifts inp inp' k _ (if _ then raiseErrorUnless (itemIndex < c.numTotalFuncs) >>= _ else
    if _ then raiseErrorUnless (itemIndex < c.numTotalTables) >>= _ else
    if _ then raiseErrorUnless (itemIndex < c.numTotalMemories) >>= _ else
      raiseErrorUnless (itemIndex < c.numTotalGlobals) >>= _)
  infer_instance

instance (sectionSize : Nat) :
    Shifts inp inp' k (readExportSection inp sectionSize) (readExportSection inp' sectionSize) :=
  .seq fun _ => .seq fun _ => .andThen (.modify (fun _ => rfl) (fun _ => rfl) fun _ => rfl)
    fun _ => inferInstance

instance (sectionSize : Nat) :
    Shifts inp inp' k (readStartSection inp sectionSize) (readStartSection inp' sectionSize) :=
  .seq fun _ => .seq fun _ => .getCheck _ (fun _ => rfl) inferInstance

instance (i : Nat) : Shifts inp inp' k (readElemSegment inp i) (readElemSegment inp' i) :=
  .seq fun _ => .seq fun _ => .seq fun _ => .seq fun _ => inferInstance

instance (sectionSize : Nat) :
    Shifts inp inp' k (readElemSection inp sectionSize) (readElemSection inp' sectionSize) :=
  .seq fun _ => .seq fun _ => .seq fun _ => .getCheck _ (fun _ => rfl) inferInstance

instance (i : Nat) : Shifts inp inp' k (readLocalDecl inp i) (readLocalDecl inp' i) := by
  unfold readLocalDecl
  infer_instance

instance (i : Nat) : Shifts inp inp' k (readDataSegment inp i) (readDataSegment inp' i) := by
  unfold readDataSegment
  infer_instance

instance (sectionSize : Nat) :
    Shifts inp inp' k (readDataSection inp sectionSize) (readDataSection inp' sectionSize) :=
  .seq fun _ => .seq fun _ => .seq fun _ => .getCheck _ (fun _ => rfl) inferInstance

end functions

end BinaryReader

end SexprWasm
