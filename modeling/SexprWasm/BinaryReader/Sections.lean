import SexprWasm.BinaryReader.ProtocolSound
import SexprWasm.BinaryReader.Shift
import SexprWasm.Leb128Sound

/-!
# The sections of a binary

`read_sections` reads a header, narrows `read_end` to the payload and
reads on behind it. What it does with a section is known from the bytes
of the section: `readSection_alike` compares two inputs that have the
same section, `k` bytes apart. The one thing that is not known from
them is whether the `uint32_t` in which the end of a function body is
kept overflows, which is where the body is in the input; `BodyStays`
says that it overflows in both inputs or in none.
-/

namespace SexprWasm

namespace BinaryReader

/-! ## Headers -/

/-- What `read_sections` reads before the payload of a section. -/
structure SectionHeader where
  code : Nat
  size : Nat
  /-- The number of bytes of the header itself. -/
  length : Nat
  deriving DecidableEq, Repr

/-- The number of bytes of the section. -/
def SectionHeader.total (h : SectionHeader) : Nat := h.length + h.size

/-- The header at the start of the bytes, if the section does not extend past their end. -/
def sectionHeader? (bs : List UInt8) : Option SectionHeader :=
  match wasmReadU32Leb128 bs with
  | none => none
  | some (code, n) =>
    match wasmReadU32Leb128 (bs.drop n) with
    | none => none
    | some (size, m) =>
      if n + m + size ≤ bs.length then some { code, size, length := n + m } else none

theorem wasmReadU32Leb128_append {bs : List UInt8} {value n : Nat}
    (h : wasmReadU32Leb128 bs = some (value, n)) (rest : List UInt8) :
    wasmReadU32Leb128 (bs ++ rest) = some (value, n) := by
  obtain ⟨bytes, rest', rfl, hlen, henc, hvalue⟩ := wasmReadU32Leb128_iff.mp h
  exact wasmReadU32Leb128_iff.mpr
    ⟨bytes, rest' ++ rest, List.append_assoc .., hlen, henc, hvalue⟩

theorem sectionHeader?_spec {bs : List UInt8} {h : SectionHeader}
    (hheader : sectionHeader? bs = some h) : 0 < h.length ∧ h.total ≤ bs.length := by
  unfold sectionHeader? at hheader
  cases hcode : wasmReadU32Leb128 bs with
  | none => simp [hcode] at hheader
  | some code =>
    obtain ⟨code, n⟩ := code
    cases hsize : wasmReadU32Leb128 (bs.drop n) with
    | none => simp [hcode, hsize] at hheader
    | some size =>
      obtain ⟨size, m⟩ := size
      obtain ⟨hpos, -⟩ := lebReader_u32 _ _ _ hcode
      simp only [hcode, hsize] at hheader
      split at hheader
      · cases hheader
        exact ⟨Nat.add_pos_left hpos m, ‹_›⟩
      · cases hheader

theorem sectionHeader?_append {bs : List UInt8} {h : SectionHeader}
    (hheader : sectionHeader? bs = some h) (rest : List UInt8) :
    sectionHeader? (bs ++ rest) = some h := by
  unfold sectionHeader? at hheader ⊢
  cases hcode : wasmReadU32Leb128 bs with
  | none => simp [hcode] at hheader
  | some code =>
    obtain ⟨code, n⟩ := code
    obtain ⟨-, hn⟩ := lebReader_u32 _ _ _ hcode
    cases hsize : wasmReadU32Leb128 (bs.drop n) with
    | none => simp [hcode, hsize] at hheader
    | some size =>
      obtain ⟨size, m⟩ := size
      simp only [hcode, hsize] at hheader
      have hdrop : (bs ++ rest).drop n = bs.drop n ++ rest := List.drop_append_of_le_length hn
      split at hheader
      · cases hheader
        simp only [wasmReadU32Leb128_append hcode, hdrop, wasmReadU32Leb128_append hsize]
        rw [if_pos (by rw [List.length_append]; omega)]
      · cases hheader

/-! ## A section by its header -/

variable {inp inp' : Input} {k : Nat}

theorem window_of_end {c : Context} (hend : c.readEnd = inp.data.length) :
    inp.window c = inp.data.drop c.offset := by
  rw [Input.window, hend]
  exact List.take_of_length_le (by rw [List.length_drop])

/-- `read_sections` from the payload of a section on. -/
def readFramed (inp : Input) (code size : Nat) : ReadM Unit := do
  let c ← Emit.get
  raiseErrorUnless (c.lastKnownSectionCode = numBinarySections ∨ code = 0 ∨
    c.lastKnownSectionCode < code)
  callback (.beginSection code size)
  readSectionPayload inp code size
  let c ← Emit.get
  raiseErrorUnless (c.offset = c.readEnd)
  if code ≠ 0 then
    Emit.modify fun c => { c with lastKnownSectionCode := code }

/-- The context at the payload. -/
def Context.enter (c : Context) (h : SectionHeader) : Context :=
  { c with offset := c.offset + h.length, readEnd := c.offset + h.total }

/-- A LEB128 value where `read_end` is the end of the input. -/
theorem inU32Leb128_none {c : Context} (hend : c.readEnd = inp.data.length)
    (h : wasmReadU32Leb128 (inp.data.drop c.offset) = none) :
    inU32Leb128 inp c = ([], .error .error) := by
  rw [← window_of_end hend] at h
  simp only [inU32Leb128, inLeb_eq, h]

theorem inU32Leb128_some {c : Context} {value n : Nat} (hend : c.readEnd = inp.data.length)
    (h : wasmReadU32Leb128 (inp.data.drop c.offset) = some (value, n)) :
    inU32Leb128 inp c = ([], .ok (value, { c with offset := c.offset + n })) := by
  rw [← window_of_end hend] at h
  simp only [inU32Leb128, inLeb_eq, h]

/-- `read_sections` up to the payload, where the section extends past the end or does not. -/
theorem readSection_of_header {c : Context} {code n size m : Nat}
    (hcode : wasmReadU32Leb128 (inp.data.drop c.offset) = some (code, n))
    (hsize : wasmReadU32Leb128 ((inp.data.drop c.offset).drop n) = some (size, m)) :
    readSection inp c = ((raiseErrorUnless (c.offset + n + m + size ≤ inp.data.length)).bind
      fun _ => readFramed inp code size)
        { c with offset := c.offset + n + m, readEnd := c.offset + n + m + size } := by
  rw [List.drop_drop] at hsize
  rw [readSection, Emit.bind_eq, Emit.bind_ok (Emit.modify_run _ c), List.nil_append, Emit.bind_eq,
    Emit.bind_ok (inU32Leb128_some (c := { c with readEnd := inp.data.length }) rfl hcode),
    List.nil_append, Emit.bind_eq, Emit.bind_ok (inU32Leb128_some
      (c := { c with offset := c.offset + n, readEnd := inp.data.length }) rfl hsize)]
  show (raiseErrorUnless (c.offset + n + m + size ≤ inp.data.length)).bind _ _ = _
  by_cases hle : c.offset + n + m + size ≤ inp.data.length
  · have hpass : ∀ s, raiseErrorUnless (c.offset + n + m + size ≤ inp.data.length) s =
        ([], .ok ((), s)) := fun s => by
      rw [decide_eq_true hle]
      rfl
    rw [Emit.bind_ok (hpass _), Emit.bind_ok (hpass _)]
    rfl
  · have hfail : ∀ s, raiseErrorUnless (c.offset + n + m + size ≤ inp.data.length) s =
        ([], .error .error) := fun s => by
      rw [decide_eq_false hle]
      rfl
    rw [Emit.bind_error (hfail _), Emit.bind_error (hfail _)]

theorem readSection_none {c : Context} (h : sectionHeader? (inp.data.drop c.offset) = none) :
    readSection inp c = ([], .error .error) := by
  unfold sectionHeader? at h
  cases hcode : wasmReadU32Leb128 (inp.data.drop c.offset) with
  | none =>
    rw [readSection, Emit.bind_eq, Emit.bind_ok (Emit.modify_run _ c), List.nil_append,
      Emit.bind_eq, Emit.bind_error
        (inU32Leb128_none (c := { c with readEnd := inp.data.length }) rfl hcode)]
  | some code =>
    obtain ⟨code, n⟩ := code
    cases hsize : wasmReadU32Leb128 ((inp.data.drop c.offset).drop n) with
    | none =>
      rw [List.drop_drop] at hsize
      rw [readSection, Emit.bind_eq, Emit.bind_ok (Emit.modify_run _ c), List.nil_append,
        Emit.bind_eq, Emit.bind_ok
          (inU32Leb128_some (c := { c with readEnd := inp.data.length }) rfl hcode),
        List.nil_append, Emit.bind_eq, Emit.bind_error (inU32Leb128_none
          (c := { c with offset := c.offset + n, readEnd := inp.data.length }) rfl hsize)]
    | some size =>
      obtain ⟨size, m⟩ := size
      obtain ⟨-, hn⟩ := lebReader_u32 _ _ _ hcode
      obtain ⟨hpos, hm⟩ := lebReader_u32 _ _ _ hsize
      have hlong : ¬ c.offset + n + m + size ≤ inp.data.length := by
        simp only [hcode, hsize, List.length_drop] at h
        rw [List.length_drop, List.length_drop] at hm
        split at h
        · cases h
        · omega
      rw [readSection_of_header hcode hsize, decide_eq_false hlong]
      rfl

/-- The section with its header read. -/
theorem readSection_some {c : Context} {h : SectionHeader}
    (hheader : sectionHeader? (inp.data.drop c.offset) = some h) :
    readSection inp c = readFramed inp h.code h.size (c.enter h) := by
  unfold sectionHeader? at hheader
  cases hcode : wasmReadU32Leb128 (inp.data.drop c.offset) with
  | none => simp [hcode] at hheader
  | some code =>
    obtain ⟨code, n⟩ := code
    cases hsize : wasmReadU32Leb128 ((inp.data.drop c.offset).drop n) with
    | none =>
      simp only [hcode, hsize] at hheader
      cases hheader
    | some size =>
      obtain ⟨size, m⟩ := size
      obtain ⟨hpos, hn⟩ := lebReader_u32 _ _ _ hcode
      simp only [hcode, hsize, List.length_drop] at hheader
      rw [List.length_drop] at hn
      split at hheader
      · cases hheader
        have hshort : c.offset + n + m + size ≤ inp.data.length := by omega
        rw [readSection_of_header hcode hsize, decide_eq_true hshort, Context.enter,
          SectionHeader.total, Nat.add_assoc c.offset n m, Nat.add_assoc c.offset (n + m) size]
        rfl
      · cases hheader

/-! ## Function bodies -/

/-- The body whose size is at the offset is declared to end beyond `uint32_t` with `k` bytes
before it only if it is without them. -/
def BodyStays (inp : Input) (k offset : Nat) : Prop :=
  ∀ size n, wasmReadU32Leb128 (inp.data.drop offset) = some (size, n) →
    offset + n + size < maxU32 → offset + n + size + k < maxU32

/-- The code section ends below `uint32_t` with `k` bytes before it. -/
def CodeBelow (k : Nat) : Nat × Event → Prop
  | (offset, .beginSection code size) => code = 10 → offset + size + k < maxU32
  | _ => True

/-- The function bodies of the callbacks stay. -/
def StaysAt (inp : Input) (k : Nat) : Nat × Event → Prop
  | (offset, .beginFunctionBody _) => BodyStays inp k offset
  | _ => True

/-- A reader stays below `read_end`. -/
theorem Shifts.onward (inp : Input) {α : Type} {m : ReadM α} [hm : Shifts inp inp 0 m m] {c d : Context}
    {es : List (Nat × Event)} {a : α} (hle : c.offset ≤ c.readEnd)
    (hrun : m c = (es, .ok (a, d))) : Onward c d ∧ d.offset ≤ d.readEnd := by
  obtain ⟨-, hres⟩ := @Shifts.alike α inp inp 0 m m hm c c ⟨rfl, rfl, hle⟩
  rw [hrun] at hres
  cases hres with
  | ok hapart => exact ⟨hapart.2.2, hapart.2.1.le⟩

theorem mem_callback_bind {e : Event} {f : Unit → ReadM Unit} {c : Context} :
    (c.offset, e) ∈ ((callback e).bind f c).1 := List.mem_cons_self

theorem raiseErrorUnless_eq_ok {b : Bool} {c d : Context} {es : List (Nat × Event)} {u : Unit}
    (hrun : raiseErrorUnless b c = (es, .ok (u, d))) : b = true ∧ c = d := by
  cases b with
  | false => cases hrun
  | true =>
    cases hrun
    exact ⟨rfl, rfl⟩

theorem readFunctionBody_eq_ok {endOffset : Nat} {c d : Context} {es : List (Nat × Event)} {u : Unit}
    (hrun : readFunctionBody inp endOffset c = (es, .ok (u, d))) : d.offset = endOffset := by
  obtain ⟨seen, c₁, _, _, -, hrest, -⟩ := Emit.bind_eq_ok hrun
  obtain ⟨_, _, _, _, hget, hrest, -⟩ := Emit.bind_eq_ok hrest
  cases hget
  obtain ⟨_, _, _, _, hoffset, hseen, -⟩ := Emit.bind_eq_ok hrest
  obtain ⟨hdone, rfl⟩ := raiseErrorUnless_eq_ok hoffset
  obtain ⟨-, rfl⟩ := raiseErrorUnless_eq_ok hseen
  exact of_decide_eq_true hdone

/-- Under which `read_end` a reader is. -/
def Under (e : Nat) (c : Context) : Prop := c.readEnd = e ∧ c.offset ≤ e

theorem Shifts.under (inp : Input) {α : Type} {m : ReadM α} [hm : Shifts inp inp 0 m m] {c d : Context}
    {es : List (Nat × Event)} {a : α} {e : Nat} (h : Under e c) (hrun : m c = (es, .ok (a, d))) :
    Under e d := by
  obtain ⟨rfl, hle⟩ := h
  obtain ⟨hmove, hle'⟩ := Shifts.onward inp hle hrun
  exact ⟨hmove.readEnd, hmove.readEnd ▸ hle'⟩

theorem shifts_readFunctionBody (endOffset : Nat) :
    Shifts inp inp 0 (readFunctionBody inp endOffset) (readFunctionBody inp endOffset) :=
  (inferInstance : Shifts inp inp 0 (readFunctionBody inp endOffset)
    (readFunctionBody inp (endOffset + 0)))

theorem readFunctionBodyEntry_under {c d : Context} {es : List (Nat × Event)} {i e : Nat} {u : Unit}
    (h : Under e c) (hrun : readFunctionBodyEntry inp i c = (es, .ok (u, d))) : Under e d := by
  unfold readFunctionBodyEntry at hrun
  obtain ⟨_, _, _, _, hmodify, hrest, -⟩ := Emit.bind_eq_ok hrun
  cases hmodify
  have hcut : Under e { c with offset := u32 c.offset } := ⟨h.1, (Nat.mod_le _ _).trans h.2⟩
  have hbody : ∀ endOffset, Shifts inp inp 0
      (do
        let numLocalDecls ← inU32Leb128 inp
        callback (.onLocalDeclCount numLocalDecls)
        Emit.forFrom (readLocalDecl inp) 0 numLocalDecls
        readFunctionBody inp endOffset
        callback (.endFunctionBody i))
      (do
        let numLocalDecls ← inU32Leb128 inp
        callback (.onLocalDeclCount numLocalDecls)
        Emit.forFrom (readLocalDecl inp) 0 numLocalDecls
        readFunctionBody inp endOffset
        callback (.endFunctionBody i)) := fun endOffset =>
    have : Shifts inp inp 0 (readFunctionBody inp endOffset) (readFunctionBody inp endOffset) :=
      shifts_readFunctionBody endOffset
    inferInstance
  obtain ⟨_, _, _, _, hcallback, hrest, -⟩ := Emit.bind_eq_ok hrest
  cases hcallback
  obtain ⟨size, c₁, _, _, hsize, hrest, -⟩ := Emit.bind_eq_ok hrest
  have h₁ := Shifts.under inp hcut hsize
  obtain ⟨_, _, _, _, hget, hrest, -⟩ := Emit.bind_eq_ok hrest
  cases hget
  exact @Shifts.under inp _ _ (hbody _) _ _ _ _ _ h₁ hrest

/-- A function body that is read ends where it is declared to, below `read_end`. -/
theorem readFunctionBodyEntry_eq_ok {c d : Context} {es : List (Nat × Event)} {i : Nat} {u : Unit}
    (hle : c.offset ≤ c.readEnd) (hend : c.readEnd < maxU32)
    (hrun : readFunctionBodyEntry inp i c = (es, .ok (u, d))) :
    ∃ size n, wasmReadU32Leb128 (inp.window c) = some (size, n) ∧
      d.offset = c.offset + n + size ∧ d.offset ≤ c.readEnd ∧ d.readEnd = c.readEnd := by
  unfold readFunctionBodyEntry at hrun
  obtain ⟨_, _, _, _, hmodify, hrest, -⟩ := Emit.bind_eq_ok hrun
  cases hmodify
  dsimp only at hrest
  rw [u32_of_lt (by omega)] at hrest
  obtain ⟨_, _, _, _, hcallback, hrest, -⟩ := Emit.bind_eq_ok hrest
  cases hcallback
  obtain ⟨size, c₁, _, _, hsize, hrest, -⟩ := Emit.bind_eq_ok hrest
  obtain ⟨hmove, hle₁⟩ := Shifts.onward inp hle hsize
  obtain ⟨_, _, _, _, hget, hrest, -⟩ := Emit.bind_eq_ok hrest
  cases hget
  obtain ⟨numLocalDecls, c₂, _, _, hcount, hrest, -⟩ := Emit.bind_eq_ok hrest
  obtain ⟨hmove₂, hle₂⟩ := Shifts.onward inp hle₁ hcount
  obtain ⟨_, _, _, _, hcallback, hrest, -⟩ := Emit.bind_eq_ok hrest
  cases hcallback
  obtain ⟨_, c₃, _, _, hdecls, hrest, -⟩ := Emit.bind_eq_ok hrest
  obtain ⟨hmove₃, hle₃⟩ := Shifts.onward inp hle₂ hdecls
  obtain ⟨_, c₄, _, _, hbody, hcallback, -⟩ := Emit.bind_eq_ok hrest
  cases hcallback
  obtain ⟨hmove₄, hle₄⟩ := @Shifts.onward inp _ _ (shifts_readFunctionBody _) _ _ _ _ hle₃ hbody
  have hoffset := readFunctionBody_eq_ok hbody
  have hreadEnd := ((hmove.trans hmove₂).trans hmove₃).trans hmove₄
  rw [inU32Leb128, inLeb_eq] at hsize
  cases hread : wasmReadU32Leb128 (inp.window c) with
  | none =>
    rw [hread] at hsize
    cases hsize
  | some result =>
    obtain ⟨value, n⟩ := result
    rw [hread] at hsize
    cases hsize
    have hlt := wasmReadU32Leb128_lt hread
    have hstart : c.offset + n ≤ d.offset := (hmove₂.trans hmove₃).trans hmove₄ |>.offset
    have hsameEnd := hreadEnd.readEnd
    have hcurrent : u32 (c.offset + n) = c.offset + n := u32_of_lt (by dsimp only at hle₁; omega)
    dsimp only at hoffset
    rw [hcurrent] at hoffset
    refine ⟨size, n, rfl, ?_, by omega, hsameEnd⟩
    -- an end that overflows is before the start
    unfold u32 at hoffset
    unfold maxU32 at *
    omega

theorem wasmReadU32Leb128_of_window {c : Context} {value n : Nat}
    (h : wasmReadU32Leb128 (inp.window c) = some (value, n)) :
    wasmReadU32Leb128 (inp.data.drop c.offset) = some (value, n) := by
  rw [← List.take_append_drop (c.readEnd - c.offset) (inp.data.drop c.offset)]
  exact wasmReadU32Leb128_append h _

theorem u32_add_of_stays {offset size k : Nat} (hoffset : offset + k < maxU32)
    (hsize : size < maxU32) (hstays : offset + size < maxU32 → offset + size + k < maxU32) :
    u32 (offset + k + size) = u32 (offset + size) + k := by
  unfold u32
  unfold maxU32 at *
  omega

theorem readFunctionBodyEntry_alike {P : Nat × Event → Prop} {c c' : Context}
    (h : Window inp inp' k c c') (hend : c.readEnd + k < maxU32) (i : Nat)
    (hstays : Emit.Assured P (StaysAt inp k) (readFunctionBodyEntry inp i) c) :
    Emit.Alike Prod.snd (readFunctionBodyEntry inp i) (readFunctionBodyEntry inp' i) c c'
      (Apart inp inp' k c) := by
  obtain rfl := h.shift
  have hle := h.le
  have hcut : { c with offset := u32 c.offset } = c := by rw [u32_of_lt (by omega)]
  have hcut' : { c.shift k with offset := u32 (c.shift k).offset } = c.shift k := by
    rw [u32_of_lt (by show c.offset + k < maxU32; omega)]
  have hstart : BodyStays inp k c.offset := by
    rcases hstays.2 with ⟨⟨_, d⟩, hok⟩ | hall
    · obtain ⟨size, n, hread, hoffset, hwithin, -⟩ :=
        readFunctionBodyEntry_eq_ok h.le (by omega) (Prod.ext rfl hok)
      intro size' n' hread' _
      rw [wasmReadU32Leb128_of_window hread] at hread'
      cases hread'
      omega
    · refine hall (c.offset, .beginFunctionBody i) ?_
      rw [readFunctionBodyEntry, Emit.bind_eq, Emit.bind_ok (Emit.modify_run _ c), hcut,
        List.nil_append, Emit.bind_eq]
      dsimp only
      exact mem_callback_bind
  refine .bind (.modify ?_)
  rw [hcut, hcut']
  refine .bind ⟨rfl, .ok ?_⟩
  refine .bind ((inLeb_alike h lebReader_u32).mono ?_)
  rintro size _ d d' ⟨rfl, hd, hmove, n, -, hread, hdeq⟩
  refine .bind (.get ?_)
  obtain rfl := hd.shift
  have hoffset : d.offset = c.offset + n := by rw [hdeq]
  have hdle := hd.le
  rw [hmove.readEnd] at hdle
  have hbodyEnd : u32 (u32 (d.shift k).offset + size) = u32 (u32 d.offset + size) + k := by
    have hcurrent : u32 d.offset = d.offset := u32_of_lt (by omega)
    have hcurrent' : u32 (d.offset + k) = d.offset + k := u32_of_lt (by omega)
    show u32 (u32 (d.offset + k) + size) = _
    rw [hcurrent, hcurrent']
    refine u32_add_of_stays (by omega) (wasmReadU32Leb128_lt hread) fun hlt => ?_
    rw [hoffset] at hlt ⊢
    exact hstart size n (wasmReadU32Leb128_of_window hread) hlt
  dsimp only
  rw [hbodyEnd]
  have hbody : Shifts inp inp' k
      (do
        let numLocalDecls ← inU32Leb128 inp
        callback (.onLocalDeclCount numLocalDecls)
        Emit.forFrom (readLocalDecl inp) 0 numLocalDecls
        readFunctionBody inp (u32 (u32 d.offset + size))
        callback (.endFunctionBody i))
      (do
        let numLocalDecls ← inU32Leb128 inp'
        callback (.onLocalDeclCount numLocalDecls)
        Emit.forFrom (readLocalDecl inp') 0 numLocalDecls
        readFunctionBody inp' (u32 (u32 d.offset + size) + k)
        callback (.endFunctionBody i)) := inferInstance
  exact (hbody.alike hd).mono fun _ _ _ _ he => he.after hmove

theorem readCodeSection_alike {P : Nat × Event → Prop} {c c' : Context}
    (h : Window inp inp' k c c') (hend : c.readEnd + k < maxU32) (size : Nat)
    (hstays : Emit.Assured P (StaysAt inp k) (readCodeSection inp size) c) :
    Emit.Alike Prod.snd (readCodeSection inp size) (readCodeSection inp' size) c c'
      (Apart inp inp' k c) := by
  refine .bindOf hstays (((Shifts.callback _).alike h).mono ?_)
  rintro _ _ d d' ⟨-, hd, hmove⟩ hstays
  refine .bindOf hstays (((inferInstance : Shifts inp inp' k _ _).alike hd).mono ?_)
  rintro count _ e e' ⟨rfl, he, hmove₁⟩ hstays
  have hcount : Shifts inp inp' k (Emit.modify fun c => { c with numFunctionBodies := count })
      (Emit.modify fun c => { c with numFunctionBodies := count }) :=
    .modify (fun _ => rfl) (fun _ => rfl) fun _ => rfl
  refine .bindOf hstays ((hcount.alike he).mono ?_)
  rintro _ _ f f' ⟨-, hf, hmove₂⟩ hstays
  refine .bindOf hstays (.get fun hstays => ?_)
  obtain rfl := hf.shift
  refine .bindOf hstays (.check fun _ hstays => ?_)
  refine .bindOf hstays (((Shifts.callback _).alike hf).mono ?_)
  rintro _ _ g g' ⟨-, hg, hmove₃⟩ hstays
  have hmoved := ((hmove.trans hmove₁).trans hmove₂).trans hmove₃
  refine .bind ((Emit.Alike.forFromOf (I := fun d d' => Window inp inp' k d d' ∧ Onward c d) ?_
    ⟨hg, hmoved⟩ hstays.left).mono ?_)
  · rintro i d d' ⟨hd, hmoved⟩ hstays
    refine (readFunctionBodyEntry_alike hd (by rw [hmoved.readEnd]; exact hend) i hstays).mono ?_
    rintro _ _ e e' ⟨-, he, hmove⟩
    exact ⟨he, hmoved.trans hmove⟩
  · rintro _ _ x x' ⟨hx, hmoved⟩
    exact ((Shifts.callback _).alike hx).mono fun _ _ _ _ hy => hy.after hmoved

/-! ## Sections in two inputs -/

theorem readSectionPayload_alike {P : Nat × Event → Prop} (hoptions : inp'.options = inp.options)
    {c c' : Context} (h : Window inp inp' k c c') (size : Nat) :
    ∀ code, (code = 10 → c.readEnd + k < maxU32) →
      Emit.Assured P (StaysAt inp k) (readSectionPayload inp code size) c →
      Emit.Alike Prod.snd (readSectionPayload inp code size) (readSectionPayload inp' code size) c c'
        (Apart inp inp' k c)
  | 0, _, _ => (shifts_readCustomSection hoptions size).alike h
  | 1, _, _ => (inferInstance :
      Shifts inp inp' k (readTypeSection inp size) (readTypeSection inp' size)).alike h
  | 2, _, _ => (inferInstance :
      Shifts inp inp' k (readImportSection inp size) (readImportSection inp' size)).alike h
  | 3, _, _ => (inferInstance :
      Shifts inp inp' k (readFunctionSection inp size) (readFunctionSection inp' size)).alike h
  | 4, _, _ => (inferInstance :
      Shifts inp inp' k (readTableSection inp size) (readTableSection inp' size)).alike h
  | 5, _, _ => (inferInstance :
      Shifts inp inp' k (readMemorySection inp size) (readMemorySection inp' size)).alike h
  | 6, _, _ => (inferInstance :
      Shifts inp inp' k (readGlobalSection inp size) (readGlobalSection inp' size)).alike h
  | 7, _, _ => (inferInstance :
      Shifts inp inp' k (readExportSection inp size) (readExportSection inp' size)).alike h
  | 8, _, _ => (inferInstance :
      Shifts inp inp' k (readStartSection inp size) (readStartSection inp' size)).alike h
  | 9, _, _ => (inferInstance :
      Shifts inp inp' k (readElemSection inp size) (readElemSection inp' size)).alike h
  | 10, hend, hstays => readCodeSection_alike h (hend rfl) size hstays
  | 11, _, _ => (inferInstance :
      Shifts inp inp' k (readDataSection inp size) (readDataSection inp' size)).alike h
  | _ + 12, _, _ => .fail

/-- A section is read up to its end. -/
theorem readFramed_alike (hoptions : inp'.options = inp.options) {c c' : Context}
    (h : Window inp inp' k c c') {code size : Nat} (hsize : c.readEnd = c.offset + size)
    (hstays : Emit.Assured (CodeBelow k) (StaysAt inp k) (readFramed inp code size) c) :
    Emit.Alike Prod.snd (readFramed inp code size) (readFramed inp' code size) c c'
      fun _ _ d d' => d' = d.shift k ∧ d.offset = c.readEnd ∧ d.readEnd = c.readEnd := by
  unfold readFramed at hstays ⊢
  refine .bindOf hstays (.get fun hstays => ?_)
  obtain rfl := h.shift
  refine .bindOf hstays (.check fun _ hstays => ?_)
  have hend : code = 10 → c.readEnd + k < maxU32 := by
    rw [hsize]
    exact hstays.1 (c.offset, .beginSection code size) mem_callback_bind
  refine .bindOf hstays (((Shifts.callback _).alike h).mono ?_)
  rintro _ _ d d' ⟨-, hd, hmove⟩ hstays
  refine .bindOf hstays ((readSectionPayload_alike hoptions hd size code
    (by rw [hmove.readEnd]; exact hend) hstays.left).mono ?_)
  rintro _ _ e e' ⟨-, he, hmove₁⟩ _
  have hreadEnd := hmove₁.readEnd.trans hmove.readEnd
  refine .bind (.get ?_)
  obtain rfl := he.shift
  have hcheck : decide ((e.shift k).offset = (e.shift k).readEnd) = decide (e.offset = e.readEnd) :=
    decide_eq_decide.mpr Nat.add_right_cancel_iff
  rw [hcheck]
  refine .bind (.check fun hdone => ?_)
  have hoffset : e.offset = c.readEnd := (of_decide_eq_true hdone).trans hreadEnd
  split
  · exact .modify ⟨rfl, hoffset, hreadEnd⟩
  · exact .pure ⟨rfl, hoffset, hreadEnd⟩

theorem readCodeSection_under {c d : Context} {es : List (Nat × Event)} {size e : Nat} {u : Unit}
    (h : Under e c) (hrun : readCodeSection inp size c = (es, .ok (u, d))) : Under e d := by
  unfold readCodeSection at hrun
  obtain ⟨_, _, _, _, hcallback, hrest, -⟩ := Emit.bind_eq_ok hrun
  cases hcallback
  obtain ⟨count, c₁, _, _, hcount, hrest, -⟩ := Emit.bind_eq_ok hrest
  have h₁ : Under e c₁ := Shifts.under inp h hcount
  obtain ⟨_, _, _, _, hmodify, hrest, -⟩ := Emit.bind_eq_ok hrest
  cases hmodify
  obtain ⟨_, _, _, _, hget, hrest, -⟩ := Emit.bind_eq_ok hrest
  cases hget
  obtain ⟨_, _, _, _, hcheck, hrest, -⟩ := Emit.bind_eq_ok hrest
  obtain ⟨-, rfl⟩ := raiseErrorUnless_eq_ok hcheck
  obtain ⟨_, _, _, _, hcallback, hrest, -⟩ := Emit.bind_eq_ok hrest
  cases hcallback
  obtain ⟨_, c₂, _, _, hbodies, hcallback, -⟩ := Emit.bind_eq_ok hrest
  cases hcallback
  have hcounted : Under e { c₁ with numFunctionBodies := count } := h₁
  exact Emit.forFrom_eq_ok (I := Under e)
    (fun _ _ _ _ _ h hrun => @readFunctionBodyEntry_under inp _ _ _ _ _ _ h hrun) hcounted hbodies

theorem readSectionPayload_under {c d : Context} {es : List (Nat × Event)} {code size e : Nat}
    {u : Unit} (h : Under e c) (hrun : readSectionPayload inp code size c = (es, .ok (u, d))) :
    Under e d := by
  by_cases hcode : code = 10
  · subst hcode
    exact readCodeSection_under h hrun
  · have hwindow : Window inp inp 0 c c := ⟨rfl, rfl, h.1 ▸ h.2⟩
    have hpayload : Shifts inp inp 0 (readSectionPayload inp code size)
        (readSectionPayload inp code size) := by
      unfold readSectionPayload
      split
      · exact shifts_readCustomSection rfl size
      all_goals first | exact absurd rfl hcode | infer_instance
    exact Shifts.under inp h hrun

theorem readSectionPayload_last {c d : Context} {es : List (Nat × Event)} {code size : Nat}
    {u : Unit} (hrun : readSectionPayload inp code size c = (es, .ok (u, d))) :
    d.lastKnownSectionCode = c.lastKnownSectionCode := by
  -- the automaton in the phase in which the payload is read
  let p (phase : Phase) : Proto :=
    { phase, sectionCode := code, numSignatures := c.numSignatures,
      numFuncImports := c.numFuncImports, numTableImports := c.numTableImports,
      numMemoryImports := c.numMemoryImports, numGlobalImports := c.numGlobalImports,
      numFunctionSignatures := c.numFunctionSignatures, numTables := c.numTables,
      numMemories := c.numMemories, numGlobals := c.numGlobals }
  have hat : ∀ phase, At c.lastKnownSectionCode code phase c (p phase) := fun _ =>
    ⟨rfl, rfl, rfl, rfl, rfl, rfl, rfl, rfl, rfl, rfl, rfl, rfl⟩
  by_cases hcode : code = 0
  · subst hcode
    have hfollows : FollowsProto inp (p .custom) (readCustomSection inp size) c _ :=
      readCustomSection_follows inp (hat .custom)
    obtain ⟨_, -, hdone⟩ := hfollows
    exact (hdone u d (congrArg Prod.snd hrun)).last_eq
  · have hfollows : FollowsProto inp (p .opened) (readSectionPayload inp code size) c _ :=
      readSectionPayload_follows inp hcode (hat .opened)
    obtain ⟨_, -, hdone⟩ := hfollows
    exact (hdone u d (congrArg Prod.snd hrun)).last_eq

/-- The last known section after a section. -/
def SectionHeader.last (h : SectionHeader) (last : Nat) : Nat := if h.code = 0 then last else h.code

/-- A section that is read ends where it is declared to. -/
theorem readSection_eq_ok {c d : Context} {es : List (Nat × Event)} {h : SectionHeader} {u : Unit}
    (hheader : sectionHeader? (inp.data.drop c.offset) = some h)
    (hrun : readSection inp c = (es, .ok (u, d))) :
    d.offset = c.offset + h.total ∧ d.readEnd = c.offset + h.total ∧
      d.lastKnownSectionCode = h.last c.lastKnownSectionCode ∧
      (c.lastKnownSectionCode = numBinarySections ∨ h.code = 0 ∨
        c.lastKnownSectionCode < h.code) := by
  rw [readSection_some hheader] at hrun
  have hunder : Under (c.offset + h.total) (c.enter h) := by
    refine ⟨rfl, ?_⟩
    simp only [Context.enter, SectionHeader.total]
    omega
  unfold readFramed at hrun
  obtain ⟨_, _, _, _, hget, hrest, -⟩ := Emit.bind_eq_ok hrun
  cases hget
  obtain ⟨_, _, _, _, hcheck, hrest, -⟩ := Emit.bind_eq_ok hrest
  obtain ⟨horder, rfl⟩ := raiseErrorUnless_eq_ok hcheck
  obtain ⟨_, _, _, _, hcallback, hrest, -⟩ := Emit.bind_eq_ok hrest
  cases hcallback
  obtain ⟨_, c₁, _, _, hpayload, hrest, -⟩ := Emit.bind_eq_ok hrest
  obtain ⟨hend, -⟩ := readSectionPayload_under hunder hpayload
  have hlast : c₁.lastKnownSectionCode = (c.enter h).lastKnownSectionCode :=
    readSectionPayload_last hpayload
  obtain ⟨_, _, _, _, hget, hrest, -⟩ := Emit.bind_eq_ok hrest
  cases hget
  obtain ⟨_, _, _, _, hcheck, hrest, -⟩ := Emit.bind_eq_ok hrest
  obtain ⟨hdone, rfl⟩ := raiseErrorUnless_eq_ok hcheck
  have hoffset : c₁.offset = c.offset + h.total := (of_decide_eq_true hdone).trans hend
  have horder := of_decide_eq_true horder
  unfold SectionHeader.last
  split at hrest
  · cases hrest
    exact ⟨hoffset, hend, (if_neg ‹_›).symm, horder⟩
  · cases hrest
    exact ⟨hoffset, hend, by rw [if_pos (by omega)]; exact hlast, horder⟩

/-- One context is the other `k` bytes later; what `read_end` was does not matter between two
sections. -/
def Aligned (k : Nat) (c c' : Context) : Prop := c' = { c.shift k with readEnd := c'.readEnd }

theorem Aligned.enter {c c' : Context} (h : Aligned k c c') (header : SectionHeader) :
    c'.enter header = (c.enter header).shift k := by
  rw [Aligned] at h
  rw [h, Context.enter, Context.enter]
  simp only [Context.shift]
  congr 1 <;> omega

/-- The same section, `k` bytes apart. -/
theorem readSection_alike (hoptions : inp'.options = inp.options) {c c' : Context}
    (h : Aligned k c c') {header : SectionHeader}
    (hheader : sectionHeader? (inp.data.drop c.offset) = some header)
    (hheader' : sectionHeader? (inp'.data.drop c'.offset) = some header)
    (hpayload : (inp'.data.drop (c'.offset + header.length)).take header.size =
      (inp.data.drop (c.offset + header.length)).take header.size)
    (hstays : Emit.Assured (CodeBelow k) (StaysAt inp k) (readSection inp) c) :
    Emit.Alike Prod.snd (readSection inp) (readSection inp') c c' fun _ _ d d' =>
      d' = d.shift k ∧ d.offset = c.offset + header.total ∧ d.readEnd = d.offset := by
  have hwindow : Window inp inp' k (c.enter header) (c'.enter header) := by
    have hsize : ∀ c : Context, (c.enter header).readEnd - (c.enter header).offset = header.size := by
      intro c
      simp only [Context.enter, SectionHeader.total]
      omega
    refine ⟨h.enter header, ?_, ?_⟩
    · rw [Input.window, Input.window, hsize, hsize]
      exact hpayload
    · simp only [Context.enter, SectionHeader.total]
      omega
  rw [Emit.Assured, readSection_some hheader] at hstays
  rw [Emit.Alike, readSection_some hheader, readSection_some hheader']
  refine (readFramed_alike hoptions hwindow ?_ hstays).mono ?_
  · simp only [Context.enter, SectionHeader.total]
    omega
  rintro _ _ d d' ⟨hshift, hoffset, hreadEnd⟩
  exact ⟨hshift, hoffset, hreadEnd.trans hoffset.symm⟩

/-- The rest of the input is the same, `k` bytes apart. -/
structure Behind (inp inp' : Input) (k : Nat) (c c' : Context) : Prop where
  aligned : Aligned k c c'
  rest : inp'.data.drop c'.offset = inp.data.drop c.offset
  length : inp'.data.length = inp.data.length + k

theorem Aligned.offset {c c' : Context} (h : Aligned k c c') : c'.offset = c.offset + k := by
  rw [Aligned] at h
  rw [h]

theorem Aligned.of_shift {c c' : Context} (h : c' = c.shift k) : Aligned k c c' := by
  rw [Aligned, h]

/-- The loop ends at the end of the input. -/
theorem readSections_done {c : Context} (h : ¬ c.offset < inp.data.length) :
    ∀ n, readSections inp n c = ([], .ok ((), c))
  | 0 => rfl
  | n + 1 => by
      rw [readSections, Emit.bind_eq, Emit.bind_ok (Emit.get_run c), if_neg h]
      rfl

theorem readSections_succ {c : Context} (h : c.offset < inp.data.length) (n : Nat) :
    readSections inp (n + 1) c = ((readSection inp).bind fun _ => readSections inp n) c := by
  rw [readSections, Emit.bind_eq, Emit.bind_ok (Emit.get_run c), if_pos h]
  rfl

/-- The number of iterations allowed for does not matter once it is enough. -/
theorem readSections_enough : ∀ {n n' : Nat} {c : Context}, inp.data.length ≤ c.offset + n →
    inp.data.length ≤ c.offset + n' → readSections inp n c = readSections inp n' c := by
  intro n
  induction n with
  | zero =>
    intro n' c hn hn'
    rw [readSections_done (by omega), readSections_done (by omega)]
  | succ n ih =>
    intro n' c hn hn'
    by_cases hlt : c.offset < inp.data.length
    · obtain ⟨n', rfl⟩ : ∃ i, n' = i + 1 := ⟨n' - 1, by omega⟩
      rw [readSections_succ hlt, readSections_succ hlt]
      cases hheader : sectionHeader? (inp.data.drop c.offset) with
      | none => rw [Emit.bind_error (readSection_none hheader),
          Emit.bind_error (readSection_none hheader)]
      | some header =>
        obtain ⟨hpos, -⟩ := sectionHeader?_spec hheader
        rcases hrun : readSection inp c with ⟨es, err | ⟨u, d⟩⟩
        · rw [Emit.bind_error hrun, Emit.bind_error hrun]
        · obtain ⟨hoffset, -⟩ := readSection_eq_ok hheader hrun
          have htotal : 0 < header.total := Nat.add_pos_left hpos _
          rw [Emit.bind_ok hrun, Emit.bind_ok hrun,
            ih (c := d) (by omega) (by omega : inp.data.length ≤ d.offset + n')]
    · rw [readSections_done hlt, readSections_done hlt]

theorem readSections_alike (hoptions : inp'.options = inp.options) :
    ∀ {n n' : Nat} {c c' : Context}, Behind inp inp' k c c' →
      inp.data.length ≤ c.offset + n → inp'.data.length ≤ c'.offset + n' →
      Emit.Assured (CodeBelow k) (StaysAt inp k) (readSections inp n) c →
      Emit.Alike Prod.snd (readSections inp n) (readSections inp' n') c c'
        fun _ _ d d' => Aligned k d d' := by
  intro n
  induction n with
  | zero =>
    intro n' c c' h hn hn' _
    have hoffset := h.aligned.offset
    have hlen := h.length
    rw [Emit.Alike, readSections_done (by omega), readSections_done (by omega)]
    exact ⟨rfl, .ok h.aligned⟩
  | succ n ih =>
    intro n' c c' h hn hn' hstays
    have hoffset := h.aligned.offset
    have hlen := h.length
    by_cases hlt : c.offset < inp.data.length
    · obtain ⟨n', rfl⟩ : ∃ i, n' = i + 1 := ⟨n' - 1, by omega⟩
      rw [readSections, Emit.bind_eq] at hstays
      refine .bindOf hstays (.get fun hstays => ?_)
      rw [if_pos hlt] at hstays ⊢
      rw [if_pos (by omega)]
      cases hheader : sectionHeader? (inp.data.drop c.offset) with
      | none =>
        have hheader' : sectionHeader? (inp'.data.drop c'.offset) = none := by rw [h.rest, hheader]
        rw [Emit.Alike, Emit.bind_eq, Emit.bind_error (readSection_none hheader), Emit.bind_eq,
          Emit.bind_error (readSection_none hheader')]
        exact ⟨rfl, .error _⟩
      | some header =>
        obtain ⟨hpos, htotal⟩ := sectionHeader?_spec hheader
        rw [List.length_drop] at htotal
        have hdrop : ∀ m, inp'.data.drop (c'.offset + m) = inp.data.drop (c.offset + m) := by
          intro m
          rw [← List.drop_drop, h.rest, List.drop_drop]
        refine .bindOf hstays ((readSection_alike hoptions h.aligned hheader
          (by rw [h.rest, hheader]) (by rw [hdrop]) hstays.left).mono ?_)
        rintro _ _ d d' ⟨hshift, hmoved, -⟩ hstays
        have htotalPos : 0 < header.total := Nat.add_pos_left hpos _
        have hbehind : Behind inp inp' k d d' := by
          refine ⟨.of_shift hshift, ?_, hlen⟩
          rw [hshift]
          show inp'.data.drop (d.offset + k) = _
          rw [hmoved, ← hdrop, hoffset]
          congr 1
          omega
        exact ih hbehind (by omega) (by rw [hbehind.aligned.offset]; omega) hstays
    · rw [Emit.Alike, readSections_done hlt, readSections_done (by omega)]
      exact ⟨rfl, .ok h.aligned⟩

end BinaryReader

end SexprWasm
