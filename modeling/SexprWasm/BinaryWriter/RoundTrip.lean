import SexprWasm.BinaryWriter.ModuleEvents

/-!
# Reading back a written module

`read_sections` goes over the sections the writer has put one after the
other, the empty ones of which are not there, and makes the callbacks
for the entries of each. `events_writeModule` puts writer and reader
together.
-/

namespace SexprWasm

namespace BinaryWriter

open Ast BinaryReader Runs

/-! ## One section -/

section Section

variable {inp : Input} {m : Module} {k : Nat} {c : BinaryReader.Context}
  {options : WriteBinaryOptions}

/-- The reader stands before a section that it accepts from the code `k` on. -/
def Before (inp : Input) (k : Nat) (c : BinaryReader.Context) (bs : List UInt8) : Prop :=
  (c.lastKnownSectionCode = numBinarySections ∨ c.lastKnownSectionCode < k) ∧
    inp.data.drop c.offset = bs

/-- The loop of `read_sections` goes over `bs`, the sections from the code `k` to `k'`. -/
def Sections (inp : Input) (m : Module) (k k' : Nat) (bs : List UInt8) (es : List Event) : Prop :=
  ∀ c rest, Before inp k c (bs ++ rest) → ∃ c' tr, Before inp k' c' rest ∧ tr.map Prod.snd = es ∧
    readSections inp inp.data.length (seen m k c) =
      (tr ++ (readSections inp inp.data.length (seen m k' c')).1,
        (readSections inp inp.data.length (seen m k' c')).2)

/-- The payload of the section with the code `k`. -/
def TakesPayload (inp : Input) (m : Module) (k : Nat) (payload : List UInt8) (es : List Event) :
    Prop :=
  ∀ c, c.readEnd < maxU32 →
    (readSectionPayload inp k payload.length).Takes inp.window Prod.snd (seen m k c) payload es ()
      (seen m (k + 1) (past c payload))

theorem Sections.append {k' k'' : Nat} {bs bs' : List UInt8} {es es' : List Event}
    (h : Sections inp m k k' bs es) (h' : Sections inp m k' k'' bs' es') :
    Sections inp m k k'' (bs ++ bs') (es ++ es') := by
  intro c rest hbefore
  rw [List.append_assoc] at hbefore
  obtain ⟨c', tr, hbefore', rfl, hrun⟩ := h c _ hbefore
  obtain ⟨c'', tr', hbefore'', rfl, hrun'⟩ := h' c' rest hbefore'
  exact ⟨c'', tr ++ tr', hbefore'', List.map_append, by rw [hrun, hrun', List.append_assoc]⟩

/-- A section without entries is not written. -/
theorem Sections.absent (h : ∀ c, seen m k c = seen m (k + 1) c) :
    Sections inp m k (k + 1) [] [] := by
  rintro c rest ⟨horder, hdata⟩
  exact ⟨c, [], ⟨horder.imp_right Nat.lt_succ_of_lt, hdata⟩, rfl, by rw [h]; rfl⟩

theorem wasmReadU32Leb128_of_unsigned {bs : List UInt8} {n : Nat} (henc : UnsignedEncoding 5 4 bs)
    (hvalue : lebUnsigned bs = n) (rest : List UInt8) :
    wasmReadU32Leb128 (bs ++ rest) = some (n, bs.length) :=
  wasmReadU32Leb128_iff.mpr ⟨bs, rest, rfl, rfl, henc, hvalue.symm⟩

theorem sectionHeader?_sectionBytes {code : Nat} (hcode : code < 0x80) {payload : List UInt8}
    (hsize : payload.length < maxU32) (rest : List UInt8) :
    sectionHeader? ([UInt8.ofNat code] ++ sized options payload ++ rest) =
      some { code, size := payload.length,
             length := 1 + (lengthLeb options payload.length).length } := by
  obtain ⟨hencCode, hvalueCode⟩ := unsigned_byte hcode
  obtain ⟨hencSize, hvalueSize⟩ := unsigned_lengthLeb options hsize
  have hdrop : ([UInt8.ofNat code] ++ (sized options payload ++ rest)).drop 1 =
      lengthLeb options payload.length ++ (payload ++ rest) := by
    rw [sized, List.append_assoc]
    rfl
  rw [List.append_assoc, sectionHeader?, wasmReadU32Leb128_of_unsigned hencCode hvalueCode]
  simp only [List.length_singleton]
  rw [hdrop, wasmReadU32Leb128_of_unsigned hencSize hvalueSize]
  simp only [List.length_append, List.length_singleton, sized]
  rw [if_pos (by omega)]

/-- The section with its header, its payload, and what the reader checks behind it. -/
theorem takes_framed {payload : List UInt8} {es : List Event} (hpos : k ≠ 0)
    (hpayload : TakesPayload inp m k payload es) (hend : c.readEnd < maxU32)
    (horder : c.lastKnownSectionCode = numBinarySections ∨ c.lastKnownSectionCode < k)
    (hsize : c.offset + payload.length = c.readEnd) :
    (readFramed inp k payload.length).Takes inp.window Prod.snd (seen m k c) payload
      (.beginSection k payload.length :: es) ()
      (seen m (k + 1) { past c payload with lastKnownSectionCode := k }) := by
  have horder' : c.lastKnownSectionCode = numBinarySections ∨ k = 0 ∨ c.lastKnownSectionCode < k :=
    horder.imp_right Or.inr
  refine .skip (.get _) (.skip (.check _ (decide_eq_true horder') _)
    (.event (takes_callback _) ?_))
  refine Emit.Takes.of_eq (Emit.Takes.bind (hpayload c hend) (.skip (.get _)
    (.skip (.check _ (decide_eq_true hsize) _) ?_))) (List.append_nil _) (List.append_nil _) rfl
  rw [if_pos hpos]
  exact Emit.Takes.modify rfl

/-- A section that is written is read. -/
theorem Sections.known {payload : List UInt8} {es : List Event} (hpos : k ≠ 0) (hk : k < 0x80)
    (hlen : inp.data.length < maxU32) (hpayload : TakesPayload inp m k payload es) :
    Sections inp m k (k + 1) ([UInt8.ofNat k] ++ sized options payload)
      (.beginSection k payload.length :: es) := by
  rintro c rest ⟨horder, hdata⟩
  have hlength := congrArg List.length hdata
  simp only [sized, List.length_append, List.length_drop, List.length_singleton] at hlength
  have hheader := @sectionHeader?_sectionBytes options k hk payload (by omega) rest
  rw [← hdata] at hheader
  have hrest : inp.data.drop (c.offset + (1 + (lengthLeb options payload.length).length)) =
      payload ++ rest := by
    rw [← List.drop_drop, hdata, sized, ← List.append_assoc, List.append_assoc _ payload rest]
    exact List.drop_left' (by rw [List.length_append, List.length_singleton])
  have hread := readSection_some (c := seen m k c) hheader
  obtain ⟨h, hdef⟩ : ∃ h : SectionHeader, h =
    { code := k, size := payload.length,
      length := 1 + (lengthLeb options payload.length).length } := ⟨_, rfl⟩
  rw [← hdef] at hread
  rw [show h.code = k by rw [hdef], show h.size = payload.length by rw [hdef]] at hread
  have hoffset : (c.enter h).offset = c.offset + (1 + (lengthLeb options payload.length).length) := by
    rw [hdef, BinaryReader.Context.enter]
  have hreadEnd : (c.enter h).readEnd = (c.enter h).offset + payload.length := by
    rw [hdef, BinaryReader.Context.enter, SectionHeader.total, Nat.add_assoc c.offset]
  have hwindow : inp.window (seen m k (c.enter h)) = payload ++ [] := by
    rw [show inp.window (seen m k (c.enter h)) = inp.window (c.enter h) from rfl, Input.window,
      hoffset, hrest, hreadEnd, hoffset, Nat.add_sub_cancel_left, List.take_left, List.append_nil]
  obtain ⟨-, tr, hrun, htr⟩ := takes_framed hpos hpayload (c := c.enter h) (by omega) horder
    hreadEnd.symm [] hwindow
  obtain ⟨n, hn⟩ : ∃ n, inp.data.length = n + 1 := ⟨inp.data.length - 1, by omega⟩
  refine ⟨{ past (c.enter h) payload with lastKnownSectionCode := k }, tr,
    ⟨.inr (Nat.lt_succ_self k), ?_⟩, htr, ?_⟩
  · show inp.data.drop ((c.enter h).offset + payload.length) = rest
    rw [hoffset, ← List.drop_drop, hrest, List.drop_left]
  · have hlt : (seen m k c).offset < inp.data.length := by
      show c.offset < inp.data.length
      omega
    have hend : inp.data.length ≤ (c.enter h).offset + payload.length + n := by omega
    rw [hn, readSections_succ hlt, Emit.bind_ok (hread.trans hrun)]
    rw [@readSections_enough inp n (n + 1) _ hend (Nat.le_succ_of_le hend)]

end Section

/-! ## Payloads -/

section Payloads

variable {inp : Input} {m : Module} {k : Nat} {c : BinaryReader.Context} {α : Type}

theorem takes_vector {entries : List α} {encode : α → List UInt8} (hne : ∀ x, encode x ≠ [])
    {begin_ : Event} {f : Nat → ReadM Unit} {es : List Event} (hend : c.readEnd < maxU32)
    (h : entries.length < maxU32 →
      (f entries.length).Takes inp.window Prod.snd (seen m k (past c (u32Leb entries.length)))
        (entries.flatMap encode) es ()
        (seen m (k + 1) (past (past c (u32Leb entries.length)) (entries.flatMap encode)))) :
    Emit.Takes inp.window Prod.snd (do
      callback begin_
      let count ← inU32Leb128 inp
      f count) (seen m k c) (u32Leb entries.length ++ entries.flatMap encode) (begin_ :: es) ()
      (seen m (k + 1) (past c (u32Leb entries.length ++ entries.flatMap encode))) := by
  intro rest hwindow
  have hfits := window_le (append_ne_nil (u32Leb_ne_nil _)) hwindow
  have hcount := @length_le_flatMap _ encode entries fun x _ => hne x
  have hreadEnd : (seen m k c).readEnd < maxU32 := hend
  rw [List.length_append] at hfits
  have hlt : entries.length < maxU32 := by omega
  rw [past_append]
  exact Emit.Takes.event (takes_callback _) (Emit.Takes.field (reads_u32 hlt) (h hlt)) rest hwindow

/-- The entries, and the callback behind them. -/
theorem takes_entries {entries : List α} {body : Nat → ReadM Unit} {encode : α → List UInt8}
    {events : Nat → α → List Event} {end_ : Event} (hend : c.readEnd < maxU32)
    (h : ∀ i c x, x ∈ entries → c.readEnd < maxU32 →
      Reads inp (body i) (seen m k c) (encode x) (events i x) ()) :
    Emit.Takes inp.window Prod.snd (do
      Emit.forFrom body 0 entries.length
      callback end_) (seen m k c) (entries.flatMap encode)
      (Emit.eventsFrom events 0 entries ++ [end_]) () (seen m k (past c (entries.flatMap encode))) :=
  Emit.Takes.of_eq (Emit.Takes.bind (reads_entries hend h) (takes_callback _)) (List.append_nil _)
    rfl rfl

/-- The payload of a section that is a vector. -/
def vectorPayload (entries : List α) (encode : α → List UInt8) : List UInt8 :=
  u32Leb entries.length ++ entries.flatMap encode

theorem takesPayload_type (h : ∀ sig ∈ m.funcTypes, sig.resultTypes.length ≤ 1) :
    TakesPayload inp m 1 (vectorPayload m.funcTypes funcTypeBytes)
      (.beginSignatureSection (vectorPayload m.funcTypes funcTypeBytes).length ::
        .onSignatureCount m.funcTypes.length ::
          (Emit.eventsFrom funcTypeEvents 0 m.funcTypes ++ [.endSignatureSection])) := by
  intro c hend
  refine takes_vector (fun _ => append_ne_nil (typeBytes_ne_nil _)) hend fun _ => ?_
  refine .skip (.modify rfl) (.event (takes_callback _) ?_)
  exact takes_entries (k := 2) hend fun i c sig hsig hend =>
    reads_funcType (c := seen m 2 c) (h sig hsig) hend i

theorem takesPayload_function (htypes : m.funcTypes.length < 2 ^ 31)
    (h : ∀ f ∈ m.funcs, DeclOk m f.decl) :
    TakesPayload inp m 3 (vectorPayload m.funcs (functionBytes m))
      (.beginFunctionSignaturesSection (vectorPayload m.funcs (functionBytes m)).length ::
        .onFunctionSignaturesCount m.funcs.length ::
          (Emit.eventsFrom (functionEvents m) 0 m.funcs ++ [.endFunctionSignaturesSection])) := by
  intro c hend
  refine takes_vector (fun _ => u32Leb_ne_nil _) hend fun _ => ?_
  refine .skip (.modify rfl) (.event (takes_callback _) ?_)
  exact takes_entries (k := 4) hend fun i c f hf _ =>
    reads_function htypes (h f hf) i (by decide)

theorem takesPayload_table (hone : m.tables.length ≤ 1) (h : ∀ t ∈ m.tables, TableOk t) :
    TakesPayload inp m 4 (vectorPayload m.tables tableBytes)
      (.beginTableSection (vectorPayload m.tables tableBytes).length ::
        .onTableCount m.tables.length ::
          (Emit.eventsFrom tableEvents 0 m.tables ++ [.endTableSection])) := by
  intro c hend
  refine takes_vector (fun _ => append_ne_nil (typeBytes_ne_nil _)) hend fun _ => ?_
  refine .skip (.modify rfl) (.skip (.check _ (decide_eq_true hone) _)
    (.event (takes_callback _) ?_))
  exact takes_entries (k := 5) hend fun i c t ht _ => (reads_table (h t ht)).last (.callback _)

theorem takesPayload_memory (hone : m.memories.length ≤ 1) (h : ∀ t ∈ m.memories, MemoryOk t) :
    TakesPayload inp m 5 (vectorPayload m.memories limitsBytes)
      (.beginMemorySection (vectorPayload m.memories limitsBytes).length ::
        .onMemoryCount m.memories.length ::
          (Emit.eventsFrom memoryEvents 0 m.memories ++ [.endMemorySection])) := by
  intro c hend
  refine takes_vector (fun _ => append_ne_nil (u32Leb_ne_nil _)) hend fun _ => ?_
  refine .skip (.modify rfl) (.skip (.check _ (decide_eq_true hone) _)
    (.event (takes_callback _) ?_))
  exact takes_entries (k := 6) hend fun i c t ht _ => (reads_memory (h t ht)).last (.callback _)

theorem takesPayload_global (h : ∀ g ∈ m.globals, InitExprOk g.initExpr) :
    TakesPayload inp m 6 (vectorPayload m.globals globalBytes)
      (.beginGlobalSection (vectorPayload m.globals globalBytes).length ::
        .onGlobalCount m.globals.length ::
          (Emit.eventsFrom globalEvents 0 m.globals ++ [.endGlobalSection])) := by
  intro c hend
  refine takes_vector (fun _ => append_ne_nil (append_ne_nil (typeBytes_ne_nil _))) hend
    fun _ => ?_
  refine .skip (.modify rfl) (.event (takes_callback _) ?_)
  exact takes_entries (k := 7) hend fun i c g hg _ => reads_global (h g hg) i

theorem takesPayload_export
    (h : ∀ e ∈ m.exports, Validator.checkVar (spaceSize m e.kind) e.var = true) :
    TakesPayload inp m 7 (vectorPayload m.exports exportBytes)
      (.beginExportSection (vectorPayload m.exports exportBytes).length ::
        .onExportCount m.exports.length ::
          (Emit.eventsFrom exportEvents 0 m.exports ++ [.endExportSection])) := by
  intro c hend
  refine takes_vector (fun _ => append_ne_nil (append_ne_nil (u32Leb_ne_nil _))) hend fun _ => ?_
  refine .skip (.modify rfl) (.event (takes_callback _) ?_)
  exact takes_entries (k := 8) hend fun i c e he hend =>
    reads_export (by decide) (h e he) hend i

theorem takesPayload_start {var : Var} (h : Validator.checkVar m.funcDecls.length var = true) :
    TakesPayload inp m 8 (u32Leb var)
      [.beginStartSection (u32Leb var).length, .onStartFunction var.toNat, .endStartSection] := by
  intro c _
  obtain ⟨hlt, hu32⟩ := toNat_lt_of_checkVar h
  refine .event (takes_callback _) (.last (reads_var hu32) (.skip (.get _) (.skip (.check _ ?_ _)
    (.event (takes_callback _) (takes_callback _)))))
  rw [(((counts_seen (m := m) (k := 8) (by decide)).past _).funcs)]
  exact decide_eq_true hlt

theorem takesPayload_elem
    (htables : ∀ s ∈ m.elemSegments, Validator.checkVar m.allTables.length s.tableVar = true)
    (hoffsets : ∀ s ∈ m.elemSegments, InitExprOk s.offset)
    (hvars : ∀ s ∈ m.elemSegments, ∀ var ∈ s.vars,
      Validator.checkVar m.funcDecls.length var = true) :
    TakesPayload inp m 9 (vectorPayload m.elemSegments elemSegmentBytes)
      (.beginElemSection (vectorPayload m.elemSegments elemSegmentBytes).length ::
        .onElemSegmentCount m.elemSegments.length ::
          (Emit.eventsFrom elemSegmentEvents 0 m.elemSegments ++ [.endElemSection])) := by
  intro c hend
  refine takes_vector (fun _ => append_ne_nil (u32Leb_ne_nil _)) hend fun _ => ?_
  refine .event (takes_callback _) (.skip (.get _) (.skip (.check _ (decide_eq_true ?_) _) ?_))
  · rcases hempty : m.elemSegments with _ | ⟨s, segments⟩
    · exact .inl rfl
    · have hlt := (toNat_lt_of_checkVar (htables s (hempty ▸ List.mem_cons_self))).1
      refine .inr ?_
      rw [(totals_seen (m := m) (k := 9) (by decide)).tables]
      exact Nat.zero_lt_of_lt hlt
  · exact takes_entries (k := 10) hend fun i c s hs hend =>
      reads_elemSegment (c := seen m 10 c) (toNat_lt_of_checkVar (htables s hs)).2 (hoffsets s hs)
        (fun var hvar => (toNat_lt_of_checkVar (hvars s hs var hvar)).2) hend i

theorem takesPayload_code {options : WriteBinaryOptions} (hlocals : ∀ f ∈ m.funcs,
      LoopsEnd f.decl.sig.paramTypes.length f.localTypes)
    (hbodies : ∀ f ∈ m.funcs, ExprListOk m f.firstExpr) :
    TakesPayload inp m 10 (vectorPayload m.funcs (functionBodyBytes options))
      (.beginFunctionBodiesSection (vectorPayload m.funcs (functionBodyBytes options)).length ::
        .onFunctionBodiesCount m.funcs.length ::
          (Emit.eventsFrom functionBodyEvents 0 m.funcs ++ [.endFunctionBodiesSection])) := by
  intro c hend
  refine takes_vector (fun _ => append_ne_nil (lengthLeb_ne_nil options _)) hend fun _ => ?_
  refine .skip (.modify rfl) (.skip (.get _) (.skip (.check _ (decide_eq_true rfl) _)
    (.event (takes_callback _) ?_)))
  exact takes_entries (k := 11) hend fun i c f hf hend =>
    reads_functionBodyEntry (by decide) (hlocals f hf) (hbodies f hf) hend i

theorem takesPayload_data
    (hmemories : ∀ s ∈ m.dataSegments, Validator.checkVar m.allMemories.length s.memoryVar = true)
    (hoffsets : ∀ s ∈ m.dataSegments, InitExprOk s.offset) :
    TakesPayload inp m 11 (vectorPayload m.dataSegments dataSegmentBytes)
      (.beginDataSection (vectorPayload m.dataSegments dataSegmentBytes).length ::
        .onDataSegmentCount m.dataSegments.length ::
          (Emit.eventsFrom dataSegmentEvents 0 m.dataSegments ++ [.endDataSection])) := by
  intro c hend
  refine takes_vector (fun _ => append_ne_nil (u32Leb_ne_nil _)) hend fun _ => ?_
  refine .event (takes_callback _) (.skip (.get _) (.skip (.check _ (decide_eq_true ?_) _) ?_))
  · rcases hempty : m.dataSegments with _ | ⟨s, segments⟩
    · exact .inl rfl
    · have hlt := (toNat_lt_of_checkVar (hmemories s (hempty ▸ List.mem_cons_self))).1
      refine .inr ?_
      rw [(totals_seen (m := m) (k := 11) (by decide)).memories]
      exact Nat.zero_lt_of_lt hlt
  · exact takes_entries (k := 12) hend fun i c s hs hend =>
      reads_dataSegment (c := seen m 12 c) (toNat_lt_of_checkVar (hmemories s hs)).2
        (hoffsets s hs) hend i

/-- The imports are counted by their kinds. -/
theorem foldl_countImport (imports : List Import) (c : BinaryReader.Context) :
    imports.foldl (fun c import_ => countImport import_.kind (past c (importBytes m import_))) c =
      { past c (imports.flatMap (importBytes m)) with
        numFuncImports := c.numFuncImports + (imports.filterMap (·.kind.func?)).length
        numTableImports := c.numTableImports + (imports.filterMap (·.kind.table?)).length
        numMemoryImports := c.numMemoryImports + (imports.filterMap (·.kind.memory?)).length
        numGlobalImports := c.numGlobalImports + (imports.filterMap (·.kind.global?)).length } := by
  induction imports generalizing c with
  | nil => rfl
  | cons import_ imports ih =>
    rw [List.foldl_cons, ih, List.flatMap_cons, past_append]
    obtain ⟨moduleName, fieldName, kind⟩ := import_
    cases kind <;> simp [countImport, past, ImportKind.func?, ImportKind.table?,
      ImportKind.memory?, ImportKind.global?, Nat.add_assoc, Nat.add_comm 1]

theorem takesPayload_import (htypes : m.funcTypes.length < 2 ^ 31)
    (h : ∀ i ∈ m.imports, ImportKindOk m i.kind) :
    TakesPayload inp m 2 (vectorPayload m.imports (importBytes m))
      (.beginImportSection (vectorPayload m.imports (importBytes m)).length ::
        .onImportCount m.imports.length ::
          (Emit.eventsFrom (importEvents m) 0 m.imports ++ [.endImportSection])) := by
  intro c hend
  have hne : ∀ import_, importBytes m import_ ≠ [] := fun _ =>
    append_ne_nil (append_ne_nil (u32Leb_ne_nil _))
  refine takes_vector hne hend fun _ => ?_
  refine .skip (.modify rfl) (.event (takes_callback _) ?_)
  refine Emit.Takes.of_eq (Emit.Takes.bind (Emit.Takes.forFrom
    (P := fun s => s.readEnd < maxU32 ∧ s.numSignatures = m.funcTypes.length) 0 ⟨hend, rfl⟩
    fun i s import_ himport hs => ⟨takes_import htypes (h import_ himport) hs.1 hs.2 i, ?_⟩)
      (takes_callback _)) (List.append_nil _) rfl ?_
  · cases import_.kind <;> exact hs
  · rw [foldl_countImport]
    simp [seen, past, Module.funcImports, Module.tableImports, Module.memoryImports,
      Module.globalImports]

end Payloads

/-! ## The module -/

section Events

variable (options : WriteBinaryOptions) (m : Module)

/-- The callbacks for a section that is a vector, which is not there without entries. -/
def vectorEvents {α : Type} (sectionCode : BinarySection) (entries : List α)
    (encode : α → List UInt8) (begin_ count : Nat → Event) (events : Nat → α → List Event)
    (end_ : Event) : List Event :=
  if entries = [] then []
  else
    .beginSection sectionCode.sectionCode (vectorPayload entries encode).length ::
      begin_ (vectorPayload entries encode).length :: count entries.length ::
        (Emit.eventsFrom events 0 entries ++ [end_])

def startEvents : List Event :=
  match m.starts.getLast? with
  | none => []
  | some var =>
    [.beginSection BinarySection.start.sectionCode (u32Leb var).length,
      .beginStartSection (u32Leb var).length, .onStartFunction var.toNat, .endStartSection]

def sectionsEvents : List Event :=
  vectorEvents .type m.funcTypes funcTypeBytes .beginSignatureSection .onSignatureCount
      funcTypeEvents .endSignatureSection ++
    (vectorEvents .import_ m.imports (importBytes m) .beginImportSection .onImportCount
      (importEvents m) .endImportSection ++
    (vectorEvents .function m.funcs (functionBytes m) .beginFunctionSignaturesSection
      .onFunctionSignaturesCount (functionEvents m) .endFunctionSignaturesSection ++
    (vectorEvents .table m.tables tableBytes .beginTableSection .onTableCount tableEvents
      .endTableSection ++
    (vectorEvents .memory m.memories limitsBytes .beginMemorySection .onMemoryCount memoryEvents
      .endMemorySection ++
    (vectorEvents .global m.globals globalBytes .beginGlobalSection .onGlobalCount globalEvents
      .endGlobalSection ++
    (vectorEvents .export_ m.exports exportBytes .beginExportSection .onExportCount exportEvents
      .endExportSection ++
    (startEvents m ++
    (vectorEvents .elem m.elemSegments elemSegmentBytes .beginElemSection .onElemSegmentCount
      elemSegmentEvents .endElemSection ++
    (vectorEvents .code m.funcs (functionBodyBytes options) .beginFunctionBodiesSection
      .onFunctionBodiesCount functionBodyEvents .endFunctionBodiesSection ++
    vectorEvents .data m.dataSegments dataSegmentBytes .beginDataSection .onDataSegmentCount
      dataSegmentEvents .endDataSection)))))))))

/-- The callbacks of a reader that is given what is written for the module. -/
def moduleEvents : List Event :=
  .beginModule wasmBinaryVersion :: (sectionsEvents options m ++ [.endModule])

end Events

section RoundTrip

variable {inp : Input} {m : Module} {options : WriteBinaryOptions} {k : Nat}

theorem Sections.vector {α : Type} (sectionCode : BinarySection) {entries : List α}
    {encode : α → List UInt8} {begin_ count : Nat → Event} {events : Nat → α → List Event}
    {end_ : Event} (hlen : inp.data.length < maxU32) (hpos : sectionCode.sectionCode ≠ 0)
    (habsent : entries = [] → ∀ c, seen m sectionCode.sectionCode c =
      seen m (sectionCode.sectionCode + 1) c)
    (hpayload : TakesPayload inp m sectionCode.sectionCode (vectorPayload entries encode)
      (begin_ (vectorPayload entries encode).length :: count entries.length ::
        (Emit.eventsFrom events 0 entries ++ [end_]))) :
    Sections inp m sectionCode.sectionCode (sectionCode.sectionCode + 1)
      (vectorBytes options sectionCode entries encode)
      (vectorEvents sectionCode entries encode begin_ count events end_) := by
  have hcode : sectionCode.sectionCode < 0x80 := by
    cases sectionCode <;> decide
  rw [vectorBytes, vectorEvents]
  split
  · exact Sections.absent (habsent ‹_›)
  · exact Sections.known hpos hcode hlen hpayload

theorem Sections.start (hlen : inp.data.length < maxU32)
    (h : ∀ var ∈ m.starts, Validator.checkVar m.funcDecls.length var = true) :
    Sections inp m 8 9 (startBytes options m) (startEvents m) := by
  rw [startBytes, startEvents]
  cases hlast : m.starts.getLast? with
  | none => exact Sections.absent fun _ => rfl
  | some var =>
    exact Sections.known (by decide) (by decide) hlen
      (takesPayload_start (h var (List.mem_of_getLast? hlast)))

/-- The sections are read in the order in which they are written. -/
theorem sections_written (h : Encodable m) (htypes : m.funcTypes.length < 2 ^ 31)
    (hlen : inp.data.length < maxU32) :
    Sections inp m 1 12 (sectionsBytes options m) (sectionsEvents options m) := by
  refine (Sections.vector .type hlen (by decide) ?_ (takesPayload_type h.results)).append
    ((Sections.vector .import_ hlen (by decide) ?_ (takesPayload_import htypes h.imports)).append
    ((Sections.vector .function hlen (by decide) ?_ (takesPayload_function htypes h.decls)).append
    ((Sections.vector .table hlen (by decide) ?_ (takesPayload_table h.oneTable h.tables)).append
    ((Sections.vector .memory hlen (by decide) ?_ (takesPayload_memory h.oneMemory h.memories)).append
    ((Sections.vector .global hlen (by decide) ?_ (takesPayload_global h.globals)).append
    ((Sections.vector .export_ hlen (by decide) ?_ (takesPayload_export h.exports)).append
    ((Sections.start hlen h.starts).append
    ((Sections.vector .elem hlen (by decide) ?_
      (takesPayload_elem h.elemTables h.elemOffsets h.elemVars)).append
    ((Sections.vector .code hlen (by decide) ?_ (takesPayload_code h.locals h.bodies)).append
    (Sections.vector .data hlen (by decide) ?_
      (takesPayload_data h.dataMemories h.dataOffsets)))))))))))
  all_goals
    intro hnil c
    simp [seen, BinarySection.sectionCode, Module.funcImports, Module.tableImports,
      Module.memoryImports, Module.globalImports, hnil]

theorem mul_length_le_flatMap {α : Type} {g : α → List UInt8} (n : Nat) {xs : List α}
    (h : ∀ x ∈ xs, n ≤ (g x).length) : n * xs.length ≤ (xs.flatMap g).length := by
  induction xs with
  | nil => exact Nat.zero_le _
  | cons x xs ih =>
    have hx := h x List.mem_cons_self
    have hxs := ih fun y hy => h y (List.mem_cons_of_mem x hy)
    rw [List.flatMap_cons, List.length_append, List.length_cons, Nat.mul_succ]
    omega

/-- A signature takes three bytes, so the indices of as many as fit are values of an `int`. -/
theorem length_funcTypes_lt (h : (sectionsBytes options m).length < maxU32) :
    m.funcTypes.length < 2 ^ 31 := by
  have hthree : ∀ sig ∈ m.funcTypes, 3 ≤ (funcTypeBytes sig).length := by
    intro sig _
    have htype := List.length_pos_of_ne_nil (typeBytes_ne_nil .func)
    have hparams := List.length_pos_of_ne_nil (u32Leb_ne_nil sig.paramTypes.length)
    have hresults := List.length_pos_of_ne_nil (u32Leb_ne_nil sig.resultTypes.length)
    simp only [funcTypeBytes, List.length_append]
    omega
  have hentries := mul_length_le_flatMap 3 hthree
  have hsection : (m.funcTypes.flatMap funcTypeBytes).length ≤
      (vectorBytes options .type m.funcTypes funcTypeBytes).length := by
    rw [vectorBytes]
    split
    · simp [*]
    · simp only [sectionBytes, sized, List.length_cons, List.length_append]
      omega
  simp only [sectionsBytes, List.length_append] at h
  have hmax : maxU32 = 2 ^ 32 := rfl
  omega

/-- The loop of `read_sections` takes what has been written behind the header. -/
theorem takes_sections (h : Encodable m) (hlen : inp.data.length < maxU32)
    {c : BinaryReader.Context} (hlast : c.lastKnownSectionCode = numBinarySections)
    (hdata : inp.data.drop c.offset = sectionsBytes options m)
    (hend : c.readEnd = inp.data.length) : ∃ c', Emit.Takes inp.window Prod.snd
      (readSections inp inp.data.length) (seen m 1 c) (sectionsBytes options m)
      (sectionsEvents options m) () c' := by
  have hlength := congrArg List.length hdata
  rw [List.length_drop] at hlength
  have htypes : m.funcTypes.length < 2 ^ 31 := length_funcTypes_lt (show (sectionsBytes options m).length < maxU32 by omega)
  have hbefore : Before inp 1 c (sectionsBytes options m ++ []) :=
    ⟨.inl hlast, by rw [hdata, List.append_nil]⟩
  obtain ⟨c', tr, ⟨-, hdone⟩, htr, hrun⟩ := sections_written h htypes hlen c [] hbefore
  have hoffset := congrArg List.length hdone
  rw [List.length_drop, List.length_nil] at hoffset
  have hnone := readSections_done (c := seen m 12 c')
    (show ¬ c'.offset < inp.data.length by omega) inp.data.length
  rw [hnone, List.append_nil] at hrun
  refine ⟨seen m 12 c', fun rest hwindow => ?_⟩
  rw [window_of_end (c := seen m 1 c) hend] at hwindow
  have hwhole : sectionsBytes options m ++ rest = sectionsBytes options m ++ [] := by
    rw [← hwindow, List.append_nil]
    exact hdata
  have hrest : rest = [] := List.append_cancel_left hwhole
  refine ⟨?_, tr, hrun, htr⟩
  rw [hrest]
  show ((inp.data.drop c'.offset).take _) = []
  rw [hdone, List.take_nil]

theorem readModule_written (h : Encodable m) (hdata : inp.data = headerBytes ++ sectionsBytes options m)
    (hlen : inp.data.length < maxU32) : ∃ tr c,
      readModule inp (initialContext inp) = (tr, .ok ((), c)) ∧
        tr.map Prod.snd = moduleEvents options m := by
  have hmagic : ∀ {c}, Reads inp (inU32 inp) c (Buffer.leBytes 4 wasmBinaryMagic) [] wasmBinaryMagic :=
    reads_f32 (by decide)
  have hversion : ∀ {c}, Reads inp (inU32 inp) c (Buffer.leBytes 4 wasmBinaryVersion) []
      wasmBinaryVersion := reads_f32 (by decide)
  obtain ⟨c', hsections⟩ := takes_sections (c := past (initialContext inp) headerBytes) h hlen rfl (by
    show inp.data.drop (0 + headerBytes.length) = _
    rw [Nat.zero_add, hdata, List.drop_left]) rfl
  have hmodule : Emit.Takes inp.window Prod.snd (readModule inp) (initialContext inp)
      (headerBytes ++ sectionsBytes options m) (moduleEvents options m) () c' := by
    rw [headerBytes, List.append_assoc]
    refine Emit.Takes.field hmagic (.skip (.check _ (decide_eq_true rfl) _)
      (Emit.Takes.field hversion (.skip (.check _ (decide_eq_true rfl) _)
        (.event (takes_callback _) ?_))))
    exact Emit.Takes.of_eq (Emit.Takes.bind hsections (takes_callback _)) (List.append_nil _) rfl rfl
  obtain ⟨-, tr, hrun, htr⟩ := hmodule [] (by
    rw [window_of_end (c := initialContext inp) rfl, List.append_nil, ← hdata]
    rfl)
  exact ⟨tr, c', hrun, htr⟩

theorem wasmWriteBinaryModule_eq (h : Encodable m)
    (hsize : (headerBytes ++ sectionsBytes options m).length < maxU32)
    (hnames : options.writeDebugNames = false) (names : Nat → FuncNames) :
    wasmWriteBinaryModule options m names = some (headerBytes ++ sectionsBytes options m) := by
  have hnone : WritesSections
      (if options.writeDebugNames then writeNameSection options m names else pure ()) [] := by
    rw [hnames]
    exact Writes.pure.sections
  have hwrite := writeModule_writes options h hnone
  rw [List.append_nil] at hwrite
  obtain ⟨offset, hrun⟩ := hwrite {} [] [] rfl (by simpa using hsize)
  have hempty : ({} : Context).put [] [] = {} := rfl
  rw [hempty] at hrun
  rw [wasmWriteBinaryModule, hrun]
  simp [Context.put]

/-- Every client of the reader is called back with the module that was written. -/
theorem wasmReadBinary_written {σ : Type} (reader : Event → Callback σ Unit)
    (readOptions : ReadBinaryOptions) (h : Encodable m)
    (hsize : (headerBytes ++ sectionsBytes options m).length < maxU32)
    (hnames : options.writeDebugNames = false) (names : Nat → FuncNames) : ∃ data,
      wasmWriteBinaryModule options m names = some data ∧ ∀ s,
        wasmReadBinary reader readOptions data s = runEvents reader (moduleEvents options m) s := by
  refine ⟨_, wasmWriteBinaryModule_eq h hsize hnames names, fun s => ?_⟩
  obtain ⟨inp, hinp⟩ : ∃ inp : Input,
      inp = ⟨headerBytes ++ sectionsBytes options m, readOptions⟩ := ⟨_, rfl⟩
  have hdata : inp.data = headerBytes ++ sectionsBytes options m := by rw [hinp]
  obtain ⟨tr, c, hrun, htr⟩ := readModule_written h hdata (by rwa [hdata])
  rw [hinp] at hrun
  rw [wasmReadBinary, events, trace, hrun, htr]
  cases runEvents reader (moduleEvents options m) s <;> rfl

/-- A module with a function that returns its parameter and is exported. -/
def identityModule : Module where
  funcTypes := [⟨[.i32], [.i32]⟩]
  funcs := [{ decl := ⟨none, ⟨[.i32], [.i32]⟩⟩, localTypes := [], firstExpr := .expr (.getLocal 0) .nil }]
  exports := [⟨[0x69, 0x64], .func, 0⟩]

theorem encodable_identityModule : Encodable identityModule where
  results := by simp [identityModule]
  imports := by simp [identityModule]
  decls := by simp [identityModule, DeclOk]
  locals := by simp [identityModule, LoopsEnd]
  bodies := by
    have hzero : IsU32 0 := ⟨le_refl 0, by decide⟩
    simp [identityModule, ExprListOk, ExprOk, hzero]
  oneTable := Nat.zero_le 1
  tables := by simp [identityModule]
  oneMemory := Nat.zero_le 1
  memories := by simp [identityModule]
  globals := by simp [identityModule]
  exports := by
    have hindex : Validator.checkVar (spaceSize identityModule .func) 0 = true := by decide
    simpa [identityModule] using hindex
  oneStart := Nat.zero_le 1
  starts := by simp [identityModule]
  elemTables := by simp [identityModule]
  elemOffsets := by simp [identityModule]
  elemVars := by simp [identityModule]
  dataMemories := by simp [identityModule]
  dataOffsets := by simp [identityModule]

theorem wasmReadBinary_written_identity : ∃ data,
    wasmWriteBinaryModule {} identityModule (fun _ => {}) = some data ∧ ∀ s,
      wasmReadBinary (fun e es => .ok () (es ++ [e])) ⟨true⟩ data s =
        runEvents (fun e es => .ok () (es ++ [e])) (moduleEvents {} identityModule) s :=
  wasmReadBinary_written _ _ encodable_identityModule (by decide) rfl _

end RoundTrip

end BinaryWriter

end SexprWasm
