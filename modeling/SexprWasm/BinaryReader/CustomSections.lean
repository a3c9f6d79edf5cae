import SexprWasm.BinaryReader.Sections

/-!
# Custom sections put between the others

What a custom section does to the callbacks of the sections around it.
A custom section that the reader skips moves what is behind it and
changes nothing else, so the reader comes to the same result and makes
the same other callbacks (`Transparent`). Which custom sections are
skipped is decided by `strncmp` over the length of the section's own
name, so the names section is not the only one that is read as one
(`TakenForNames`).
-/

namespace SexprWasm

namespace BinaryReader

/-! ## Section boundaries -/

/-- The bytes are whole sections with these headers. -/
inductive Framed : List SectionHeader → List UInt8 → Prop
  | nil : Framed [] []
  | cons {h : SectionHeader} {hs : List SectionHeader} {section_ bs : List UInt8}
      (header : sectionHeader? section_ = some h) (length : section_.length = h.total)
      (rest : Framed hs bs) : Framed (h :: hs) (section_ ++ bs)

/-- The magic number, the version and whole sections. -/
structure Boundary (hs : List SectionHeader) (pre : List UInt8) : Prop where
  length : 8 ≤ pre.length
  framed : Framed hs (pre.drop 8)

/-- The last known section after these sections. -/
def lastKnown (hs : List SectionHeader) (last : Nat) : Nat :=
  hs.foldl (fun last h => h.last last) last

/-! ## The custom section -/

/-- A custom section; its LEB128 values may take more bytes than they need. -/
structure CustomSection where
  code : List UInt8
  size : List UInt8
  nameLength : List UInt8
  name : List UInt8
  contents : List UInt8
  code_value : wasmReadU32Leb128 code = some (0, code.length)
  size_value : wasmReadU32Leb128 size =
    some (nameLength.length + name.length + contents.length, size.length)
  nameLength_value : wasmReadU32Leb128 nameLength = some (name.length, nameLength.length)

namespace CustomSection

variable (s : CustomSection)

def payload : List UInt8 := s.nameLength ++ s.name ++ s.contents

def bytes : List UInt8 := s.code ++ s.size ++ s.payload

def header : SectionHeader where
  code := 0
  size := s.payload.length
  length := s.code.length + s.size.length

theorem length_payload :
    s.payload.length = s.nameLength.length + s.name.length + s.contents.length := by
  simp only [payload, List.length_append]

theorem length_bytes : s.bytes.length = s.header.total := by
  simp only [bytes, header, SectionHeader.total, List.length_append]

theorem sectionHeader?_bytes : sectionHeader? s.bytes = some s.header := by
  have hcode : wasmReadU32Leb128 s.bytes = some (0, s.code.length) := by
    rw [bytes, List.append_assoc]
    exact wasmReadU32Leb128_append s.code_value _
  have hdrop : s.bytes.drop s.code.length = s.size ++ s.payload := by
    rw [bytes, List.append_assoc, List.drop_left]
  have hsize : wasmReadU32Leb128 (s.size ++ s.payload) = some (s.payload.length, s.size.length) := by
    rw [length_payload]
    exact wasmReadU32Leb128_append s.size_value _
  have hle : s.code.length + s.size.length + s.payload.length ≤ s.bytes.length := by
    rw [length_bytes]
    exact Nat.le_refl _
  rw [sectionHeader?, hcode]
  simp only [hdrop, hsize]
  rw [if_pos hle, header]

theorem framed : Framed [s.header] s.bytes := by
  have h := Framed.cons s.sectionHeader?_bytes s.length_bytes .nil
  rwa [List.append_nil] at h

end CustomSection

/-! ## Reading up to a boundary -/

variable {inp inp' : Input} {k : Nat}

/-- `wasm_read_binary` up to the first section. -/
def readHeader (inp : Input) : ReadM Unit := do
  let magic ← inU32 inp
  raiseErrorUnless (magic = binaryMagic)
  let version ← inU32 inp
  raiseErrorUnless (version = binaryVersion)
  callback (.beginModule version)

theorem readModule_eq : readModule inp = readHeader inp >>= fun _ =>
    readSections inp inp.data.length >>= fun _ => callback .endModule := by
  simp only [readModule, readHeader, Emit.bind_bind]

/-- `n` sections. -/
def readSectionsN (inp : Input) : Nat → ReadM Unit
  | 0 => return ()
  | n + 1 => do
    readSection inp
    readSectionsN inp n

theorem sectionHeader?_left {section_ bs : List UInt8} {h : SectionHeader}
    (hheader : sectionHeader? section_ = some h) {c : Context}
    (hdrop : inp.data.drop c.offset = section_ ++ bs) :
    sectionHeader? (inp.data.drop c.offset) = some h := by
  rw [hdrop]
  exact sectionHeader?_append hheader bs

theorem readSectionsN_eq_ok {hs : List SectionHeader} {bs : List UInt8} (hframed : Framed hs bs) :
    ∀ {c d : Context} {es : List (Nat × Event)} {u : Unit} {post : List UInt8},
      inp.data.drop c.offset = bs ++ post → readSectionsN inp hs.length c = (es, .ok (u, d)) →
        d.offset = c.offset + bs.length ∧
          d.lastKnownSectionCode = lastKnown hs c.lastKnownSectionCode := by
  induction hframed with
  | nil =>
    intro c d es u post _ hrun
    cases hrun
    exact ⟨rfl, rfl⟩
  | @cons h hs section_ bs hheader hlength _ ih =>
    intro c d es u post hdrop hrun
    rw [List.append_assoc] at hdrop
    obtain ⟨_, d₁, _, _, hfirst, hrest, -⟩ := Emit.bind_eq_ok hrun
    obtain ⟨hoffset, -, hlast, -⟩ := readSection_eq_ok (sectionHeader?_left hheader hdrop) hfirst
    have hdrop₁ : inp.data.drop d₁.offset = bs ++ post := by
      rw [hoffset, ← List.drop_drop, hdrop, ← hlength, List.drop_left]
    obtain ⟨hoffset₁, hlast₁⟩ := ih hdrop₁ hrest
    refine ⟨?_, ?_⟩
    · rw [hoffset₁, hoffset, List.length_append, hlength, Nat.add_assoc]
    · rw [hlast₁, hlast]
      rfl

/-- `read_sections` is in front of whole sections. -/
theorem readSections_framed {hs : List SectionHeader} {bs : List UInt8} (hframed : Framed hs bs) :
    ∀ {c : Context} {post : List UInt8} {n m : Nat}, inp.data.drop c.offset = bs ++ post →
      inp.data.length ≤ c.offset + n → inp.data.length ≤ c.offset + bs.length + m →
        readSections inp n c =
          ((readSectionsN inp hs.length).bind fun _ => readSections inp m) c := by
  induction hframed with
  | nil =>
    intro c post n m _ hn hm
    exact readSections_enough hn hm
  | @cons h hs section_ bs hheader hlength _ ih =>
    intro c post n m hdrop hn hm
    rw [List.append_assoc] at hdrop
    have hheader' := sectionHeader?_left hheader hdrop
    obtain ⟨hpos, hle⟩ := sectionHeader?_spec hheader'
    have htotal : 0 < h.total := Nat.add_pos_left hpos _
    rw [List.length_drop] at hle
    obtain ⟨n, rfl⟩ : ∃ i, n = i + 1 := ⟨n - 1, by omega⟩
    have hstep : (readSectionsN inp (h :: hs).length).bind (fun _ => readSections inp m) =
        (readSection inp).bind fun _ =>
          (readSectionsN inp hs.length).bind fun _ => readSections inp m :=
      Emit.bind_bind (readSection inp) (fun _ => readSectionsN inp hs.length) _
    rw [readSections_succ (by omega), hstep]
    rcases hrun : readSection inp c with ⟨es, err | ⟨u, d⟩⟩
    · rw [Emit.bind_error hrun, Emit.bind_error hrun]
    · obtain ⟨hoffset, -⟩ := readSection_eq_ok hheader' hrun
      have hdrop₁ : inp.data.drop d.offset = bs ++ post := by
        rw [hoffset, ← List.drop_drop, hdrop, ← hlength, List.drop_left]
      rw [List.length_append, hlength] at hm
      rw [Emit.bind_ok hrun, Emit.bind_ok hrun, ih hdrop₁ (m := m) (by omega) (by omega)]

/-- The same sections in both inputs. -/
theorem readSectionsN_alike (hoptions : inp'.options = inp.options) {hs : List SectionHeader}
    {bs : List UInt8} (hframed : Framed hs bs) :
    ∀ {c c' : Context} {post post' : List UInt8}, Aligned 0 c c' →
      inp.data.drop c.offset = bs ++ post → inp'.data.drop c'.offset = bs ++ post' →
      Emit.Assured (CodeBelow 0) (StaysAt inp 0) (readSectionsN inp hs.length) c →
      Emit.Alike Prod.snd (readSectionsN inp hs.length) (readSectionsN inp' hs.length) c c'
        fun _ _ d d' => Aligned 0 d d' := by
  induction hframed with
  | nil => exact fun h _ _ _ => .pure h
  | @cons h hs section_ bs hheader hlength _ ih =>
    intro c c' post post' halign hdrop hdrop' hstays
    rw [List.append_assoc] at hdrop hdrop'
    have hpayload : ∀ {inp : Input} {c : Context} {post : List UInt8},
        inp.data.drop c.offset = section_ ++ (bs ++ post) →
          (inp.data.drop (c.offset + h.length)).take h.size =
            (section_.drop h.length).take h.size := by
      intro inp c post hdrop
      rw [SectionHeader.total] at hlength
      rw [← List.drop_drop, hdrop, List.drop_append_of_le_length (by omega),
        List.take_append_of_le_length (by rw [List.length_drop]; omega)]
    refine .bindOf hstays ((readSection_alike hoptions halign (sectionHeader?_left hheader hdrop)
      (sectionHeader?_left hheader hdrop') (by rw [hpayload hdrop, hpayload hdrop'])
      hstays.left).mono ?_)
    rintro _ _ d d' ⟨hshift, hoffset, -⟩ hstays
    have hdrop₁ : inp.data.drop d.offset = bs ++ post := by
      rw [hoffset, ← List.drop_drop, hdrop, ← hlength, List.drop_left]
    have hdrop₁' : inp'.data.drop d'.offset = bs ++ post' := by
      rw [hshift]
      show inp'.data.drop (d.offset + 0) = _
      rw [hoffset, Nat.add_right_comm, ← halign.offset, ← List.drop_drop, hdrop', ← hlength,
        List.drop_left]
    exact ih (.of_shift hshift) hdrop₁ hdrop₁' hstays

theorem inU32_of_le {c : Context} (hend : c.readEnd = inp.data.length)
    (h : c.offset + 4 ≤ inp.data.length) :
    inU32 inp c = ([], .ok (leNat ((inp.data.drop c.offset).take 4),
      { c with offset := c.offset + 4 })) := by
  have hlen : ((inp.data.drop c.offset).take 4).length = 4 := by
    rw [List.length_take, List.length_drop]
    omega
  have hread : inRaw inp 4 c = ([], .ok ((inp.data.drop c.offset).take 4,
      { c with offset := c.offset + 4 })) := by
    unfold inRaw
    rw [if_neg (by omega)]
    exact if_pos hlen
  rw [inU32, Emit.bind_eq, Emit.bind_ok hread]
  rfl

/-- The context behind the header. -/
def afterHeader (inp : Input) : Context := { initialContext inp with offset := 8 }

theorem readHeader_alike (h : inp'.data.take 8 = inp.data.take 8) (hlen : 8 ≤ inp.data.length)
    (hlen' : 8 ≤ inp'.data.length) :
    Emit.Alike Prod.snd (readHeader inp) (readHeader inp') (initialContext inp) (initialContext inp')
      fun _ _ d d' => d = afterHeader inp ∧ d' = afterHeader inp' := by
  have hword : ∀ n, n + 4 ≤ 8 → (inp'.data.drop n).take 4 = (inp.data.drop n).take 4 := by
    intro n hn
    have hcut : ∀ bs : List UInt8, (bs.drop n).take 4 = ((bs.take 8).drop n).take 4 := by
      intro bs
      rw [List.drop_take, List.take_take, Nat.min_eq_left (by omega)]
    rw [hcut, h, ← hcut]
  have hread : ∀ {c c' : Context}, c.readEnd = inp.data.length → c'.readEnd = inp'.data.length →
      c'.offset = c.offset → c.offset + 4 ≤ 8 →
        Emit.Alike Prod.snd (inU32 inp) (inU32 inp') c c' fun a a' d d' =>
          a = a' ∧ d = { c with offset := c.offset + 4 } ∧
            d' = { c' with offset := c.offset + 4 } := by
    intro c c' hend hend' hoffset hle
    rw [Emit.Alike, inU32_of_le hend (by omega), inU32_of_le hend' (by omega), hoffset, hword _ hle]
    exact ⟨rfl, .ok ⟨rfl, rfl, rfl⟩⟩
  refine .bind ((@hread (initialContext inp) (initialContext inp') rfl rfl rfl
    (by show 0 + 4 ≤ 8; omega)).mono ?_)
  rintro magic _ c c' ⟨rfl, rfl, rfl⟩
  refine .bind (.check fun _ => ?_)
  refine .bind ((@hread { initialContext inp with offset := 4 }
    { initialContext inp' with offset := 4 } rfl rfl rfl (Nat.le_refl 8)).mono ?_)
  rintro version _ c c' ⟨rfl, rfl, rfl⟩
  refine .bind (.check fun _ => ?_)
  exact ⟨rfl, .ok ⟨rfl, rfl⟩⟩

/-- The reader up to the section `n`. -/
def readUpTo (inp : Input) (n : Nat) : ReadM Unit := do
  readHeader inp
  readSectionsN inp n

section boundary

variable {hs : List SectionHeader} {pre post post' : List UInt8}

theorem drop_afterHeader (hpre : Boundary hs pre) (hdata : inp.data = pre ++ post) :
    inp.data.drop (afterHeader inp).offset = pre.drop 8 ++ post := by
  rw [hdata]
  exact List.drop_append_of_le_length hpre.length

theorem readHeader_eq_ok {c : Context} {es : List (Nat × Event)} {u : Unit}
    (hlen : 8 ≤ inp.data.length) (hrun : readHeader inp (initialContext inp) = (es, .ok (u, c))) :
    c = afterHeader inp := by
  obtain ⟨-, hres⟩ := @readHeader_alike inp inp rfl hlen hlen
  rw [hrun] at hres
  cases hres with
  | ok h => exact h.1

theorem readModule_split (hpre : Boundary hs pre) (hdata : inp.data = pre ++ post) {n : Nat}
    (hn : post.length ≤ n) :
    readModule inp (initialContext inp) = ((readUpTo inp hs.length).bind fun _ =>
      (readSections inp n).bind fun _ => callback .endModule) (initialContext inp) := by
  have hlen : 8 ≤ inp.data.length := by
    rw [hdata, List.length_append]
    exact hpre.length.trans (Nat.le_add_right _ _)
  have hassoc : (readUpTo inp hs.length).bind (fun _ =>
      (readSections inp n).bind fun _ => callback .endModule) =
        (readHeader inp).bind fun _ => ((readSectionsN inp hs.length).bind fun _ =>
          readSections inp n).bind fun _ => callback .endModule := by
    have hinner := Emit.bind_bind (readSectionsN inp hs.length) (fun _ => readSections inp n)
      fun _ => callback .endModule
    simp only [Emit.bind_eq] at hinner
    rw [hinner]
    exact Emit.bind_bind (readHeader inp) (fun _ => readSectionsN inp hs.length) _
  rw [readModule_eq, hassoc, Emit.bind_eq]
  rcases hrun : readHeader inp (initialContext inp) with ⟨es, err | ⟨u, c⟩⟩
  · rw [Emit.bind_error hrun, Emit.bind_error hrun]
  · obtain rfl := readHeader_eq_ok hlen hrun
    have hsections := readSections_framed hpre.framed (drop_afterHeader hpre hdata)
      (n := inp.data.length) (m := n) (by omega) (by
        have hoffset : (afterHeader inp).offset = 8 := rfl
        rw [hdata, List.length_append, List.length_drop, hoffset]
        omega)
    rw [Emit.bind_ok hrun, Emit.bind_ok hrun, Emit.bind_eq, Emit.bind, Emit.bind, hsections]

theorem readUpTo_eq_ok (hpre : Boundary hs pre) (hdata : inp.data = pre ++ post) {c : Context}
    {es : List (Nat × Event)} {u : Unit}
    (hrun : readUpTo inp hs.length (initialContext inp) = (es, .ok (u, c))) :
    c.offset = pre.length ∧ c.lastKnownSectionCode = lastKnown hs numBinarySections := by
  have hlen : 8 ≤ inp.data.length := by
    rw [hdata, List.length_append]
    exact hpre.length.trans (Nat.le_add_right _ _)
  obtain ⟨_, _, _, _, hheader, hsections, -⟩ := Emit.bind_eq_ok hrun
  obtain rfl := readHeader_eq_ok hlen hheader
  obtain ⟨hoffset, hlast⟩ := readSectionsN_eq_ok hpre.framed (drop_afterHeader hpre hdata) hsections
  refine ⟨?_, hlast⟩
  have hlength := hpre.length
  have hstart : (afterHeader inp).offset = 8 := rfl
  rw [hoffset, List.length_drop, hstart]
  omega

theorem readUpTo_alike (hoptions : inp'.options = inp.options) (hpre : Boundary hs pre)
    (hdata : inp.data = pre ++ post) (hdata' : inp'.data = pre ++ post')
    (hstays : Emit.Assured (CodeBelow 0) (StaysAt inp 0) (readUpTo inp hs.length)
      (initialContext inp)) :
    Emit.Alike Prod.snd (readUpTo inp hs.length) (readUpTo inp' hs.length) (initialContext inp)
      (initialContext inp') fun _ _ d d' => Aligned 0 d d' := by
  have htake : inp'.data.take 8 = inp.data.take 8 := by
    rw [hdata, hdata', List.take_append_of_le_length hpre.length,
      List.take_append_of_le_length hpre.length]
  have hlen : ∀ {inp : Input} {post : List UInt8}, inp.data = pre ++ post → 8 ≤ inp.data.length := by
    intro inp post hdata
    rw [hdata, List.length_append]
    exact hpre.length.trans (Nat.le_add_right _ _)
  refine .bindOf hstays ((readHeader_alike htake (hlen hdata) (hlen hdata')).mono ?_)
  rintro _ _ c c' ⟨rfl, rfl⟩ hstays
  exact readSectionsN_alike hoptions hpre.framed rfl (drop_afterHeader hpre hdata)
    (drop_afterHeader hpre hdata') hstays

end boundary

/-! ## Reading the custom section -/

/-- The callbacks at the beginning and the end of a custom section. -/
def isCustomEvent : Event → Bool
  | .beginSection code _ => code = 0
  | .beginCustomSection .. | .endCustomSection => true
  | _ => false

/-- `m` changes nothing but the offset. -/
def Moves {α : Type} (m : ReadM α) : Prop :=
  ∀ c es a d, m c = (es, .ok (a, d)) → ∃ o, d = { c with offset := o }

namespace Moves

variable {α β : Type}

theorem of_quiet {m : ReadM α} {R : α → Prop} (h : Quiet m R) : Moves m := by
  intro c es a d hrun
  exact ((h c).2 a d (by rw [hrun])).2

theorem pure (a : α) : Moves (Pure.pure a : ReadM α) := by
  rintro c _ _ _ ⟨⟩
  exact ⟨c.offset, rfl⟩

theorem callback (e : Event) : Moves (BinaryReader.callback e) := by
  rintro c _ _ _ ⟨⟩
  exact ⟨c.offset, rfl⟩

theorem bind {m : ReadM α} {f : α → ReadM β} (hm : Moves m) (hf : ∀ a, Moves (f a)) :
    Moves (m >>= f) := by
  intro c es b e hrun
  obtain ⟨a, d, _, _, hfirst, hrest, -⟩ := Emit.bind_eq_ok hrun
  obtain ⟨o, rfl⟩ := hm c _ a d hfirst
  obtain ⟨o', rfl⟩ := hf a _ _ b e hrest
  exact ⟨o', rfl⟩

theorem forFrom {body : Nat → ReadM Unit} (hbody : ∀ i, Moves (body i)) (i n : Nat) :
    Moves (Emit.forFrom body i n) := by
  intro c es u d hrun
  refine Emit.forFrom_eq_ok (I := fun d => ∃ o, d = { c with offset := o }) ?_ ⟨c.offset, rfl⟩ hrun
  rintro i d e es u ⟨o, rfl⟩ hrun
  obtain ⟨o', rfl⟩ := hbody i _ es u e hrun
  exact ⟨o', rfl⟩

theorem get {f : Context → ReadM β} (hf : ∀ c, Moves (f c)) : Moves (Emit.get >>= f) :=
  bind (fun c _ _ _ h => by
    cases h
    exact ⟨c.offset, rfl⟩) hf

theorem skip : Moves (Emit.modify fun c => { c with offset := c.readEnd }) := by
  rintro c _ _ _ ⟨⟩
  exact ⟨c.readEnd, rfl⟩

end Moves

theorem moves_readCustomSection (size : Nat) : Moves (readCustomSection inp size) := by
  refine .bind (.of_quiet (quiet_inStr inp)) fun name => .bind (.callback _) fun _ => .get fun c => ?_
  split
  · refine .bind (.callback _) fun _ => .bind (.of_quiet (quiet_inU32Leb128 inp)) fun count =>
      .bind (.of_quiet (quiet_raiseErrorUnless _)) fun _ => .bind (.callback _) fun _ =>
        .bind (.forFrom (fun i => ?_) 0 count) fun _ => .bind (.callback _) fun _ => .callback _
    refine .bind (.of_quiet (quiet_inStr inp)) fun name => .bind (.callback _) fun _ =>
      .bind (.of_quiet (quiet_inU32Leb128 inp)) fun locals => .bind (.callback _) fun _ =>
        .forFrom (fun j => .bind (.of_quiet (quiet_inStr inp)) fun _ => .callback _) 0 locals
  · exact .bind .skip fun _ => .callback _

theorem moves_readFramed (size : Nat) : Moves (readFramed inp 0 size) :=
  .get fun _ => .bind (.of_quiet (quiet_raiseErrorUnless _)) fun _ => .bind (.callback _) fun _ =>
    .bind (moves_readCustomSection size) fun _ => .get fun _ =>
      .bind (.of_quiet (quiet_raiseErrorUnless _)) fun _ => .pure ()

theorem raiseErrorUnless_true {b : Bool} (h : b = true) (c : Context) :
    raiseErrorUnless b c = ([], .ok ((), c)) := by
  subst h
  rfl

theorem readFramed_custom {size : Nat} {c d : Context} {es : List (Nat × Event)}
    (hrun : readCustomSection inp size c = (es, .ok ((), d))) (hend : d.offset = d.readEnd) :
    readFramed inp 0 size c = ((c.offset, .beginSection 0 size) :: es, .ok ((), d)) := by
  have hbegin : callback (.beginSection 0 size) c = ([(c.offset, .beginSection 0 size)], .ok ((), c)) :=
    rfl
  have hpayload : readSectionPayload inp 0 size c = (es, .ok ((), d)) := hrun
  unfold readFramed
  rw [Emit.bind_eq, Emit.bind_ok (Emit.get_run c), Emit.bind_eq,
    Emit.bind_ok (raiseErrorUnless_true (decide_eq_true (.inr (.inl rfl))) c), Emit.bind_eq,
    Emit.bind_ok hbegin, Emit.bind_eq, Emit.bind_ok hpayload, Emit.bind_eq,
    Emit.bind_ok (Emit.get_run d), Emit.bind_eq,
    Emit.bind_ok (raiseErrorUnless_true (decide_eq_true hend) d), if_neg (by decide)]
  simp only [Emit.pure_run, List.nil_append, List.append_nil, List.singleton_append]

/-- The context at the end of a section. -/
def Context.endAt (c : Context) (e : Nat) : Context := { c with offset := e, readEnd := e }

/-- The custom section is read as a names section. -/
def readsNames (inp : Input) (name : List UInt8) (c : Context) : Prop :=
  inp.options.readDebugNames ∧ c.lastKnownSectionCode ≥ 2 ∧ strncmpEq name binarySectionName

namespace CustomSection

variable (s : CustomSection) {post : List UInt8} {c : Context}

theorem drop_enter (hdrop : inp.data.drop c.offset = s.bytes ++ post) :
    inp.data.drop (c.enter s.header).offset = s.payload ++ post := by
  show inp.data.drop (c.offset + (s.code.length + s.size.length)) = _
  rw [← List.drop_drop, hdrop, bytes, List.append_assoc, ← List.length_append, List.drop_left]

theorem window_enter (hdrop : inp.data.drop c.offset = s.bytes ++ post) :
    inp.window (c.enter s.header) = s.payload := by
  have hsize : (c.enter s.header).readEnd - (c.enter s.header).offset = s.payload.length := by
    simp only [Context.enter, header, SectionHeader.total]
    omega
  rw [Input.window, hsize, s.drop_enter hdrop, List.take_left]

/-- The reader at the contents of the section. -/
def contentsAt (c : Context) : Context :=
  { c.enter s.header with
    offset := (c.enter s.header).offset + s.nameLength.length + s.name.length }

theorem inStr_name (hdrop : inp.data.drop c.offset = s.bytes ++ post) :
    inStr inp (c.enter s.header) = ([], .ok (s.name, s.contentsAt c)) := by
  have hwindow := s.window_enter hdrop
  have hlength : inU32Leb128 inp (c.enter s.header) = ([], .ok (s.name.length,
      { c.enter s.header with offset := (c.enter s.header).offset + s.nameLength.length })) := by
    have hread : wasmReadU32Leb128 (inp.window (c.enter s.header)) =
        some (s.name.length, s.nameLength.length) := by
      rw [hwindow, payload, List.append_assoc]
      exact wasmReadU32Leb128_append s.nameLength_value _
    simp only [inU32Leb128, inLeb_eq, hread]
  have hname : (inp.data.drop ((c.enter s.header).offset + s.nameLength.length)).take
      s.name.length = s.name := by
    rw [← List.drop_drop, s.drop_enter hdrop, payload, List.append_assoc, List.append_assoc,
      List.drop_left, List.take_left]
  have hend : ¬ (c.enter s.header).offset + s.nameLength.length + s.name.length >
      (c.enter s.header).readEnd := by
    have hpayload := s.length_payload
    simp only [Context.enter, header, SectionHeader.total]
    omega
  rw [inStr, Emit.bind_eq, Emit.bind_ok hlength]
  simp only [inRaw, hname, if_neg hend, if_true]
  rfl

/-- The section is skipped: nothing but its own callbacks. -/
theorem readSection_skipped (hdrop : inp.data.drop c.offset = s.bytes ++ post)
    (hnames : ¬ readsNames inp s.name c) :
    ∃ es, readSection inp c = (es, .ok ((), c.endAt (c.offset + s.bytes.length))) ∧
      ∀ e ∈ es, isCustomEvent e.2 := by
  have hcustom : readCustomSection inp s.header.size (c.enter s.header) =
      ([((s.contentsAt c).offset, .beginCustomSection s.header.size s.name),
        (c.offset + s.header.total, .endCustomSection)],
        .ok ((), c.endAt (c.offset + s.header.total))) := by
    rw [readCustomSection, Emit.bind_eq, Emit.bind_ok (s.inStr_name hdrop)]
    simp only [Emit.bind_eq, Emit.bind, callback, Emit.get]
    have hskip : ¬ (inp.options.readDebugNames ∧ (s.contentsAt c).lastKnownSectionCode ≥ 2 ∧
      strncmpEq s.name binarySectionName) := hnames
    rw [if_neg hskip]
    rfl
  have hrun := (readSection_some (sectionHeader?_left s.sectionHeader?_bytes hdrop)).trans
    (readFramed_custom hcustom rfl)
  rw [← length_bytes] at hrun
  refine ⟨_, hrun, fun e he => ?_⟩
  simp only [List.mem_cons, List.not_mem_nil, or_false] at he
  rcases he with rfl | rfl | rfl <;> rfl

/-- The section is read as a names section, which shows. -/
theorem readSection_names (hdrop : inp.data.drop c.offset = s.bytes ++ post)
    (hnames : readsNames inp s.name c) {d : Context} {es : List (Nat × Event)} {u : Unit}
    (hrun : readSection inp c = (es, .ok (u, d))) :
    d = c.endAt (c.offset + s.bytes.length) ∧ ∃ e ∈ es, isCustomEvent e.2 = false := by
  have hheader := sectionHeader?_left s.sectionHeader?_bytes hdrop
  obtain ⟨hoffset, -, -, -⟩ := readSection_eq_ok hheader hrun
  rw [readSection_some hheader] at hrun
  obtain ⟨o, rfl⟩ := moves_readFramed s.header.size (c.enter s.header) es u d hrun
  have hend : o = c.offset + s.bytes.length := by
    rw [length_bytes]
    exact hoffset
  subst hend
  refine ⟨by rw [Context.endAt, Context.enter, length_bytes], ?_⟩
  unfold readFramed at hrun
  obtain ⟨_, _, es₁, _, hget, hrest, rfl⟩ := Emit.bind_eq_ok hrun
  cases hget
  obtain ⟨_, _, es₂, _, hcheck, hrest, rfl⟩ := Emit.bind_eq_ok hrest
  obtain ⟨-, rfl⟩ := raiseErrorUnless_eq_ok hcheck
  obtain ⟨_, _, es₃, _, hcallback, hrest, rfl⟩ := Emit.bind_eq_ok hrest
  cases hcallback
  obtain ⟨_, _, es₄, _, hpayload, -, rfl⟩ := Emit.bind_eq_ok hrest
  have hbegin : ((s.contentsAt c).offset, Event.beginNamesSection s.header.size) ∈
      (readCustomSection inp s.header.size (c.enter s.header)).1 := by
    rw [readCustomSection, Emit.bind_eq, Emit.bind_ok (s.inStr_name hdrop), Emit.bind_eq,
      Emit.bind_ok (rfl : callback _ (s.contentsAt c) = (_, .ok ((), s.contentsAt c))), Emit.bind_eq,
      Emit.bind_ok (Emit.get_run _)]
    have hread : inp.options.readDebugNames ∧ (s.contentsAt c).lastKnownSectionCode ≥ 2 ∧
      strncmpEq s.name binarySectionName := hnames
    rw [if_pos hread]
    exact List.mem_append_right _ (List.mem_append_right _ (List.mem_append_right _
      mem_callback_bind))
  have hpayload : readCustomSection inp s.header.size (c.enter s.header) = (es₄, _) := hpayload
  rw [hpayload] at hbegin
  exact ⟨_, List.mem_append_right _ (List.mem_append_right _ (List.mem_append_right _
    (List.mem_append_left _ hbegin))), rfl⟩

end CustomSection

/-! ## The input with the section put in -/

/-- The callbacks other than those of custom sections. -/
def otherEvents (es : List (Nat × Event)) : List Event :=
  (es.map Prod.snd).filter fun e => !isCustomEvent e

/-- The reader accepts the input. -/
def Accepts (inp : Input) : Prop := ∃ c, (readModule inp (initialContext inp)).2 = .ok ((), c)

/-- The reader comes to the same result on both inputs, with the same other callbacks. -/
structure Transparent (inp inp' : Input) : Prop where
  result : (readModule inp' (initialContext inp')).2.map Prod.fst =
    (readModule inp (initialContext inp)).2.map Prod.fst
  events : otherEvents (trace inp') = otherEvents (trace inp)

/-- A client that does not look at custom sections ends the same. -/
theorem Transparent.client {σ : Type} {reader : Event → Callback σ Unit} (h : Transparent inp inp')
    (hignores : ∀ e s, isCustomEvent e → reader e s = .ok () s) (st : σ) :
    wasmReadBinary reader inp'.options inp'.data st =
      wasmReadBinary reader inp.options inp.data st := by
  have hskip : ∀ e s, (!isCustomEvent e) = false → reader e s = .ok () s := fun e s he =>
    hignores e s (by simpa using he)
  have hevents : runEvents reader (BinaryReader.events inp') st =
      runEvents reader (BinaryReader.events inp) st := by
    rw [← runEvents_filter hskip, ← runEvents_filter hskip (BinaryReader.events inp)]
    exact congrArg (runEvents reader · st) h.events
  have hresult := h.result
  unfold wasmReadBinary
  dsimp only
  rw [hevents]
  generalize (readModule inp' (initialContext inp')).2 = r' at hresult ⊢
  generalize (readModule inp (initialContext inp)).2 = r at hresult ⊢
  cases runEvents reader (BinaryReader.events inp) st with
  | error s => rfl
  | abort => rfl
  | ok u s => cases r <;> cases r' <;> cases hresult <;> rfl

/-- The reader takes the custom section behind these sections for the names section. -/
def TakenForNames (options : ReadBinaryOptions) (hs : List SectionHeader) (s : CustomSection) :
    Prop :=
  options.readDebugNames ∧ lastKnown hs numBinarySections ≥ 2 ∧
    strncmpEq s.name binarySectionName

theorem otherEvents_append (es es' : List (Nat × Event)) :
    otherEvents (es ++ es') = otherEvents es ++ otherEvents es' := by
  simp only [otherEvents, List.map_append, List.filter_append]

theorem otherEvents_congr {es es' : List (Nat × Event)} (h : es.map Prod.snd = es'.map Prod.snd) :
    otherEvents es = otherEvents es' := by
  rw [otherEvents, otherEvents, h]

theorem otherEvents_custom {es : List (Nat × Event)} (h : ∀ e ∈ es, isCustomEvent e.2) :
    otherEvents es = [] := by
  rw [otherEvents, List.filter_eq_nil_iff]
  intro e he
  obtain ⟨read, hread, rfl⟩ := List.mem_map.mp he
  simp [h read hread]

theorem otherEvents_ne_nil {es : List (Nat × Event)} (h : ∃ e ∈ es, isCustomEvent e.2 = false) :
    otherEvents es ≠ [] := by
  obtain ⟨e, he, hother⟩ := h
  refine List.ne_nil_of_mem (a := e.2) (List.mem_filter.mpr ⟨List.mem_map_of_mem he, ?_⟩)
  simp [hother]

/-- The rest of the module, from a section on. -/
def readRest (inp : Input) : ReadM Unit := do
  readSections inp inp.data.length
  callback .endModule

theorem readRest_alike (hoptions : inp'.options = inp.options) {c c' : Context}
    (h : Behind inp inp' k c c')
    (hstays : Emit.Assured (CodeBelow k) (StaysAt inp k) (readRest inp) c) :
    Emit.Alike Prod.snd (readRest inp) (readRest inp') c c' fun _ _ _ _ => True :=
  .bind ((readSections_alike hoptions h (by omega) (by omega) hstays.left).mono
    fun _ _ _ _ _ => ⟨rfl, .ok trivial⟩)

section insert

variable {hs : List SectionHeader} {pre post : List UInt8} {s : CustomSection}

theorem CodeBelow.zero {e : Nat × Event} (h : CodeBelow k e) : CodeBelow 0 e := by
  obtain ⟨offset, e⟩ := e
  cases e
  case beginSection code size =>
    intro hcode
    have hlt : offset + size + k < maxU32 := h hcode
    omega
  all_goals trivial

theorem staysAt_zero (e : Nat × Event) : StaysAt inp 0 e := by
  obtain ⟨offset, e⟩ := e
  cases e
  case beginFunctionBody i => exact fun size n _ h => h
  all_goals trivial

theorem mem_bind_left {α β : Type} {m : ReadM α} {f : α → ReadM β} {c : Context}
    {e : Nat × Event} (h : e ∈ (m c).1) : e ∈ ((m.bind f) c).1 := by
  rcases hm : m c with ⟨es, err | ⟨a, d⟩⟩
  · rw [Emit.bind_error hm]
    rwa [hm] at h
  · rw [Emit.bind_ok hm]
    rw [hm] at h
    exact List.mem_append_left _ h

theorem Agree.map_fst {Q : Unit → Unit → Context → Context → Prop}
    {r r' : Except ReadFailure (Unit × Context)} (h : Emit.Agree Q r r') :
    r'.map Prod.fst = r.map Prod.fst := by
  cases h <;> rfl

/-- The reader at the custom section: in one input it is to read the section and the rest, in the
other it is at the rest. -/
structure Reached (inp inp' : Input) (hs : List SectionHeader) (pre : List UInt8)
    (s : CustomSection) (es es' : List (Nat × Event)) (c c' : Context) : Prop where
  same : es.map Prod.snd = es'.map Prod.snd
  offset : c'.offset = pre.length
  last : c'.lastKnownSectionCode = lastKnown hs numBinarySections
  behind : Behind inp inp' s.bytes.length c (c'.endAt (pre.length + s.bytes.length))
  run : readModule inp (initialContext inp) = (es ++ (readRest inp c).1, (readRest inp c).2)
  run' : readModule inp' (initialContext inp') =
    (es' ++ (((readSection inp').bind fun _ => readRest inp') c').1,
      (((readSection inp').bind fun _ => readRest inp') c').2)

/-- The reader gets to the custom section, or both reads have ended before it. -/
theorem reached_or_transparent (hoptions : inp'.options = inp.options) (hpre : Boundary hs pre)
    (hdata : inp.data = pre ++ post) (hdata' : inp'.data = pre ++ (s.bytes ++ post))
    (hbelow : ∀ e ∈ trace inp, CodeBelow s.bytes.length e) :
    (∃ es es' c c', Reached inp inp' hs pre s es es' c c') ∨
      ¬ Accepts inp ∧ Transparent inp inp' := by
  have hlength : inp.data.length = pre.length + post.length := by rw [hdata, List.length_append]
  have hlength' : inp'.data.length = pre.length + (s.bytes.length + post.length) := by
    rw [hdata', List.length_append, List.length_append]
  have hsplit := readModule_split hpre hdata (n := inp.data.length) (by omega)
  have hsplit' := readModule_split hpre hdata' (n := inp'.data.length)
    (by rw [List.length_append]; omega)
  have hstays : Emit.Assured (CodeBelow 0) (StaysAt inp 0) (readUpTo inp hs.length)
      (initialContext inp) := by
    refine ⟨fun e he => (hbelow e ?_).zero, .inr fun e _ => staysAt_zero e⟩
    rw [trace, hsplit]
    exact mem_bind_left he
  obtain ⟨hes, hres⟩ := readUpTo_alike hoptions hpre hdata hdata' hstays
  rcases hrun : readUpTo inp hs.length (initialContext inp) with ⟨es, err | ⟨u, c⟩⟩
  all_goals
    rcases hrun' : readUpTo inp' hs.length (initialContext inp') with ⟨es', r'⟩
    rw [hrun, hrun'] at hes hres
    dsimp only at hes hres
    cases hres
  · have hread : readModule inp (initialContext inp) = (es, .error err) := by
      rw [hsplit, Emit.bind_error hrun]
    have hread' : readModule inp' (initialContext inp') = (es', .error err) := by
      rw [hsplit', Emit.bind_error hrun']
    refine .inr ⟨fun ⟨c, hc⟩ => ?_, ⟨?_, ?_⟩⟩
    · rw [hread] at hc
      cases hc
    · rw [hread, hread']
    · rw [trace, trace, hread, hread']
      exact otherEvents_congr hes.symm
  · rename_i u' c' halign
    obtain ⟨hoffset, hlast⟩ := readUpTo_eq_ok hpre hdata' hrun'
    have halignOffset := halign.offset
    refine .inl ⟨es, es', c, c', hes, hoffset, hlast, ⟨?_, ?_, ?_⟩, ?_, ?_⟩
    · rw [Aligned] at halign ⊢
      rw [halign, Context.endAt, ← hoffset, halignOffset]
      rfl
    · have hcut : pre.length = c.offset := by omega
      show inp'.data.drop (pre.length + s.bytes.length) = inp.data.drop c.offset
      rw [hdata, hdata', ← hcut, ← List.drop_drop, List.drop_left, List.drop_left, List.drop_left]
    · omega
    · rw [hsplit, Emit.bind_ok hrun]
      rfl
    · have hdrop : inp'.data.drop c'.offset = s.bytes ++ post := by
        rw [hdata', hoffset, List.drop_left]
      have hsections := readSections_framed s.framed hdrop (n := inp'.data.length)
        (m := inp'.data.length) (by omega) (by omega)
      have hrest : ((readSections inp' inp'.data.length).bind fun _ => callback .endModule) c' =
          ((readSection inp').bind fun _ => readRest inp') c' := by
        rw [Emit.bind, hsections]
        exact (congrFun (Emit.bind_bind (readSectionsN inp' 1) (fun _ =>
          readSections inp' inp'.data.length) fun _ => callback .endModule) c').trans
            (congrFun (Emit.bind_bind (readSection inp') (fun _ => readSectionsN inp' 0) fun _ =>
              readRest inp') c')
      rw [hsplit', Emit.bind_ok hrun', hrest]

/-- A custom section that is skipped. -/
theorem Reached.skipped (hoptions : inp'.options = inp.options) {es es' : List (Nat × Event)}
    {c c' : Context} (h : Reached inp inp' hs pre s es es' c c')
    (hdata' : inp'.data = pre ++ (s.bytes ++ post)) (hnames : ¬ TakenForNames inp.options hs s)
    (hstays : Emit.Assured (CodeBelow s.bytes.length) (StaysAt inp s.bytes.length)
      (readModule inp) (initialContext inp)) : Transparent inp inp' := by
  have hdrop : inp'.data.drop c'.offset = s.bytes ++ post := by
    rw [hdata', h.offset, List.drop_left]
  have hskip : ¬ readsNames inp' s.name c' := by
    rw [readsNames, hoptions, h.last]
    exact hnames
  obtain ⟨ces, hsection, hcustom⟩ := s.readSection_skipped hdrop hskip
  rw [h.offset] at hsection
  have hrest : Emit.Assured (CodeBelow s.bytes.length) (StaysAt inp s.bytes.length) (readRest inp)
      c := by
    rw [Emit.Assured, h.run] at hstays
    exact ⟨fun e he => hstays.1 e (List.mem_append_right _ he),
      hstays.2.imp id fun hall e he => hall e (List.mem_append_right _ he)⟩
  obtain ⟨hes, hres⟩ := readRest_alike hoptions h.behind hrest
  have hrun' := h.run'
  rw [Emit.bind_ok hsection] at hrun'
  constructor
  · rw [h.run, hrun']
    exact Agree.map_fst hres
  · rw [trace, trace, h.run, hrun']
    simp only [otherEvents_append]
    rw [otherEvents_custom hcustom, List.nil_append, otherEvents_congr hes,
      otherEvents_congr h.same]

/-- A custom section that is read as a names section. -/
theorem Reached.names (hoptions : inp'.options = inp.options) {es es' : List (Nat × Event)}
    {c c' : Context} (h : Reached inp inp' hs pre s es es' c c')
    (hdata' : inp'.data = pre ++ (s.bytes ++ post)) (hnames : TakenForNames inp.options hs s)
    (hbelow : ∀ e ∈ trace inp, CodeBelow s.bytes.length e) (haccepts : Accepts inp) :
    ¬ Transparent inp inp' := by
  intro htransparent
  have hdrop : inp'.data.drop c'.offset = s.bytes ++ post := by
    rw [hdata', h.offset, List.drop_left]
  have htaken : readsNames inp' s.name c' := by
    rw [readsNames, hoptions, h.last]
    exact hnames
  obtain ⟨d, hok⟩ := haccepts
  have hresult := htransparent.result
  have hevents := htransparent.events
  have hrun' := h.run'
  rcases hsection : readSection inp' c' with ⟨ces, err | ⟨u, d'⟩⟩
  · -- the input is no longer accepted
    rw [Emit.bind_error hsection] at hrun'
    rw [hrun', hok] at hresult
    cases hresult
  · -- the callbacks of the names section are added
    obtain ⟨rfl, hother⟩ := s.readSection_names hdrop htaken hsection
    rw [h.offset] at hsection
    rw [Emit.bind_ok hsection] at hrun'
    have hrest : Emit.Assured (CodeBelow s.bytes.length) (StaysAt inp s.bytes.length) (readRest inp)
        c := by
      have hrun := h.run
      rw [hrun] at hok
      refine ⟨fun e he => hbelow e ?_, .inl ⟨_, hok⟩⟩
      rw [trace, hrun]
      exact List.mem_append_right _ he
    obtain ⟨hes, -⟩ := readRest_alike hoptions h.behind hrest
    rw [trace, trace, h.run, hrun'] at hevents
    simp only [otherEvents_append] at hevents
    rw [otherEvents_congr hes, otherEvents_congr h.same, List.append_cancel_left_eq,
      List.append_left_eq_self] at hevents
    exact otherEvents_ne_nil hother hevents

/-- Which custom sections do not show. -/
theorem transparent_iff (options : ReadBinaryOptions) (hpre : Boundary hs pre)
    (hbelow : ∀ e ∈ trace { data := pre ++ post, options }, CodeBelow s.bytes.length e) :
    (Accepts { data := pre ++ post, options } →
      (Transparent { data := pre ++ post, options }
        { data := pre ++ (s.bytes ++ post), options } ↔ ¬ TakenForNames options hs s)) ∧
      (¬ TakenForNames options hs s →
        (∀ e ∈ trace { data := pre ++ post, options },
          StaysAt { data := pre ++ post, options } s.bytes.length e) →
        Transparent { data := pre ++ post, options }
          { data := pre ++ (s.bytes ++ post), options }) := by
  rcases @reached_or_transparent { data := pre ++ post, options }
    { data := pre ++ (s.bytes ++ post), options } _ _ _ _ rfl hpre rfl rfl hbelow with
    ⟨es, es', c, c', h⟩ | ⟨hrejects, htransparent⟩
  · refine ⟨fun haccepts => ⟨fun htransparent hnames => ?_, fun hnames => ?_⟩,
      fun hnames hstays => ?_⟩
    · exact h.names (by rfl) (by rfl) hnames hbelow haccepts htransparent
    · obtain ⟨d, hok⟩ := haccepts
      exact h.skipped (by rfl) (by rfl) hnames ⟨hbelow, .inl ⟨_, hok⟩⟩
    · exact h.skipped (by rfl) (by rfl) hnames ⟨hbelow, .inr hstays⟩
  · exact ⟨fun haccepts => absurd haccepts hrejects, fun _ _ => htransparent⟩

/-- `strncmp` over the length of the name finds the prefixes of the string, and what is the string
up to a NUL. -/
theorem strncmpEq_iff : ∀ {a b : List UInt8}, 0 ∉ b →
    (strncmpEq a b ↔ a <+: b ∨ b ++ [0] <+: a)
  | [], b, _ => by simp [strncmpEq]
  | x :: a, [], _ => by simp [strncmpEq, eq_comm]
  | x :: a, y :: b, hb => by
      simp only [List.mem_cons, not_or] at hb
      simp only [strncmpEq, Bool.and_eq_true, decide_eq_true_eq, Bool.or_eq_true,
        List.cons_append, List.cons_prefix_cons, strncmpEq_iff hb.2]
      constructor
      · rintro ⟨rfl, rfl | hrest⟩
        · exact absurd rfl hb.1
        · exact hrest.imp (fun h => ⟨rfl, h⟩) fun h => ⟨rfl, h⟩
      · rintro (⟨rfl, h⟩ | ⟨rfl, h⟩)
        · exact ⟨rfl, .inr (.inl h)⟩
        · exact ⟨rfl, .inr (.inr h)⟩

/-- The magic number and the version. -/
def emptyModule : List UInt8 := [0x00, 0x61, 0x73, 0x6d, 0x0d, 0x00, 0x00, 0x00]

theorem emptyModule_boundary : Boundary [] emptyModule := ⟨by decide, .nil⟩

/-- A custom section without contents and with a name of one byte or none. -/
def shortSection : Option UInt8 → CustomSection
  | none =>
    { code := [0], size := [1], nameLength := [0], name := [], contents := [],
      code_value := rfl, size_value := rfl, nameLength_value := rfl }
  | some b =>
    { code := [0], size := [2], nameLength := [1], name := [b], contents := [],
      code_value := rfl, size_value := rfl, nameLength_value := rfl }

theorem transparent_iff_x :
    Transparent { data := emptyModule ++ [], options := { readDebugNames := true } }
      { data := emptyModule ++ ((shortSection (some 0x78)).bytes ++ []),
        options := { readDebugNames := true } } := by
  have htrace : trace { data := emptyModule ++ [], options := { readDebugNames := true } } =
    [(8, .beginModule 0x0d), (8, .endModule)] := by rfl
  have hall : ∀ P : Nat × Event → Prop, P (8, .beginModule 0x0d) → P (8, .endModule) →
      ∀ e ∈ trace { data := emptyModule ++ [], options := { readDebugNames := true } }, P e := by
    intro P h h' e he
    rw [htrace] at he
    simp only [List.mem_cons, List.not_mem_nil, or_false] at he
    rcases he with rfl | rfl
    · exact h
    · exact h'
  refine (transparent_iff { readDebugNames := true } emptyModule_boundary
    (hall _ trivial trivial)).2 ?_ (hall _ trivial trivial)
  rintro ⟨-, -, hname⟩
  cases hname

/-- An empty name is read as that of the names section. -/
theorem emptyName_shows : ¬ ∀ (hs : List SectionHeader) (pre post : List UInt8) (s : CustomSection),
    Boundary hs pre → s.name ≠ binarySectionName →
      Transparent { data := pre ++ post, options := { readDebugNames := true } }
        { data := pre ++ (s.bytes ++ post), options := { readDebugNames := true } } := by
  intro h
  have hresult := (h [] emptyModule [] (shortSection none) emptyModule_boundary (by decide)).result
  cases hresult

end insert

end BinaryReader

end SexprWasm
