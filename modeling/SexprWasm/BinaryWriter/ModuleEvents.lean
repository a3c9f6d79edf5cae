import SexprWasm.BinaryReader.Sections
import SexprWasm.BinaryWriter.Decoding

/-!
# The events of a written module

The callbacks that the reader makes for the bytes of a module, as a
function of the module, and for each entry of a section the lemma that
the reader makes them. `seen m k c` is the context of the reader where
the sections below the code `k` have been read: what it has counted are
the declarations of the module.
-/

namespace SexprWasm

namespace BinaryWriter

open Ast BinaryReader Runs

/-! ## Events -/

section Events

variable (options : WriteBinaryOptions) (m : Module)

def funcTypeEvents (i : Nat) (sig : FuncSignature) : List Event :=
  [.onSignature i sig.paramTypes sig.resultTypes]

def importKindEvent (i : Nat) : ImportKind → Event
  | .func decl => .onImportFunc i (wasmGetFuncTypeIndexByDecl m decl).toNat
  | .table elemLimits => .onImportTable i (readLimits elemLimits)
  | .memory pageLimits => .onImportMemory i (readLimits pageLimits)
  | .global type => .onImportGlobal i type.type type.mutable_

def importEvents (i : Nat) (import_ : Import) : List Event :=
  [.onImport i import_.moduleName import_.fieldName, importKindEvent m i import_.kind]

def functionEvents (i : Nat) (func : Func) : List Event :=
  [.onFunctionSignature i (wasmGetFuncTypeIndexByDecl m func.decl).toNat]

def tableEvents (i : Nat) (elemLimits : Limits) : List Event := [.onTable i (readLimits elemLimits)]

def memoryEvents (i : Nat) (pageLimits : Limits) : List Event :=
  [.onMemory i (readLimits pageLimits)]

def globalEvents (i : Nat) (global : Global) : List Event :=
  .beginGlobal i global.type global.mutable_ :: .beginGlobalInitExpr i ::
    (initEvents i global.initExpr ++ [.endGlobalInitExpr i, .endGlobal i])

def exportEvents (i : Nat) (export_ : Export) : List Event :=
  [.onExport i export_.kind export_.var.toNat export_.name]

def elemSegmentEvents (i : Nat) (segment : ElemSegment) : List Event :=
  .beginElemSegment i segment.tableVar.toNat :: .beginElemSegmentInitExpr i ::
    (initEvents i segment.offset ++ (.endElemSegmentInitExpr i ::
      .onElemSegmentFunctionIndexCount i segment.vars.length ::
        (segment.vars.map (fun var => .onElemSegmentFunctionIndex i var.toNat) ++
          [.endElemSegment i])))

def localsEvents (localTypes : List ValueType) : List Event :=
  .onLocalDeclCount (runs localTypes).length :: declEvents 0 (runs localTypes)

def functionBodyEvents (i : Nat) (func : Func) : List Event :=
  .beginFunctionBody i :: (localsEvents func.localTypes ++ (exprListEvents func.firstExpr ++
    [.onOpcode WasmOpcode.end_.code, .endFunctionBody i]))

def dataSegmentEvents (i : Nat) (segment : DataSegment) : List Event :=
  .beginDataSegment i segment.memoryVar.toNat :: .beginDataSegmentInitExpr i ::
    (initEvents i segment.offset ++
      [.endDataSegmentInitExpr i, .onDataSegmentData i segment.data, .endDataSegment i])

end Events

/-! ## Contexts -/

section Contexts

variable {inp : Input} {m : Module} {k : Nat} {c : BinaryReader.Context} {α : Type}

/-- The sections below the code `k` have been read. -/
def seen (m : Module) (k : Nat) (c : BinaryReader.Context) : BinaryReader.Context where
  offset := c.offset
  readEnd := c.readEnd
  lastKnownSectionCode := c.lastKnownSectionCode
  numSignatures := if 1 < k then m.funcTypes.length else 0
  numImports := if 2 < k then m.imports.length else 0
  numFuncImports := if 2 < k then m.funcImports.length else 0
  numTableImports := if 2 < k then m.tableImports.length else 0
  numMemoryImports := if 2 < k then m.memoryImports.length else 0
  numGlobalImports := if 2 < k then m.globalImports.length else 0
  numFunctionSignatures := if 3 < k then m.funcs.length else 0
  numTables := if 4 < k then m.tables.length else 0
  numMemories := if 5 < k then m.memories.length else 0
  numGlobals := if 6 < k then m.globals.length else 0
  numExports := if 7 < k then m.exports.length else 0
  numFunctionBodies := if 10 < k then m.funcs.length else 0

theorem past_seen (bs : List UInt8) : past (seen m k c) bs = seen m k (past c bs) := rfl

theorem counts_seen (hk : 3 < k) : Counts m (seen m k c) := by
  constructor
  · simp only [seen]
    rw [if_pos (by omega)]
  · simp only [BinaryReader.Context.numTotalFuncs, seen]
    rw [if_pos (by omega), if_pos hk, Module.funcDecls, List.length_append, List.length_map]

/-- The sizes of the index spaces. -/
structure Totals (m : Module) (c : BinaryReader.Context) : Prop where
  funcs : c.numTotalFuncs = spaceSize m .func
  tables : c.numTotalTables = spaceSize m .table
  memories : c.numTotalMemories = spaceSize m .memory
  globals : c.numTotalGlobals = spaceSize m .global

theorem totals_seen (hk : 6 < k) : Totals m (seen m k c) := by
  constructor
  · exact (counts_seen (by omega)).funcs
  · simp only [BinaryReader.Context.numTotalTables, seen]
    rw [if_pos (by omega), if_pos (by omega), spaceSize, Module.allTables, List.length_append]
  · simp only [BinaryReader.Context.numTotalMemories, seen]
    rw [if_pos (by omega), if_pos (by omega), spaceSize, Module.allMemories, List.length_append]
  · simp only [BinaryReader.Context.numTotalGlobals, seen]
    rw [if_pos (by omega), if_pos hk, spaceSize, Module.globalTypes, List.length_append,
      List.length_map]

/-- Where something is read, its bytes are in front of `read_end`. -/
theorem Reads.of_fits {mr : ReadM α} {bs : List UInt8} {es : List Event} {a : α} (hne : bs ≠ [])
    (h : c.offset + bs.length ≤ c.readEnd → Reads inp mr c bs es a) : Reads inp mr c bs es a :=
  fun rest hwindow => h (window_le hne hwindow) rest hwindow

/-- The entries of a section that counts nothing. -/
theorem reads_entries {xs : List α} {body : Nat → ReadM Unit} {encode : α → List UInt8}
    {events : Nat → α → List Event} (hend : c.readEnd < maxU32)
    (h : ∀ i c x, x ∈ xs → c.readEnd < maxU32 →
      Reads inp (body i) (seen m k c) (encode x) (events i x) ()) :
    Reads inp (Emit.forFrom body 0 xs.length) (seen m k c) (xs.flatMap encode)
      (Emit.eventsFrom events 0 xs) () := by
  refine Emit.Takes.of_eq (Emit.Takes.forFrom (P := fun s => ∃ d, s = seen m k d ∧
    d.readEnd < maxU32) 0 ⟨c, rfl, hend⟩ fun i s x hx hs => ?_) rfl rfl (foldl_past encode xs)
  obtain ⟨d, rfl, hd⟩ := hs
  exact ⟨h i d x hx hd, past d (encode x), rfl, hd⟩

end Contexts

/-! ## Entries -/

section Entries

variable {inp : Input} {m : Module} {c : BinaryReader.Context}

theorem reads_funcType {sig : FuncSignature} (hresults : sig.resultTypes.length ≤ 1)
    (hend : c.readEnd < maxU32) (i : Nat) :
    Reads inp (readSignature inp i) c (funcTypeBytes sig) (funcTypeEvents i sig) () := by
  refine Reads.of_fits (append_ne_nil (typeBytes_ne_nil _)) fun hfits => ?_
  have hparams := @length_le_flatMap _ valueTypeBytes sig.paramTypes fun _ _ => typeBytes_ne_nil _
  simp only [funcTypeBytes, List.length_append] at hfits
  exact (reads_type .func).field (.check (decide_eq_true rfl) ((reads_u32 (by omega)).field
    ((reads_valueTypes _).field ((reads_u32 (lt_of_le_of_lt hresults (by decide))).field
      (.check (decide_eq_true hresults) ((reads_valueTypes _).last (.callback _)))))))

/-- The index that is written for a declaration is that of its signature. -/
theorem funcTypeIndex_spec (htypes : m.funcTypes.length < 2 ^ 31) {decl : FuncDeclaration}
    (h : DeclOk m decl) : ∃ n : Nat, wasmGetFuncTypeIndexByDecl m decl = n ∧
      m.funcTypes[n]? = some decl.sig := by
  obtain ⟨_ | var, sig⟩ := decl
  · have hsome : (m.funcTypes.findIdx? (fun type => decide (type = sig))).isSome = true := by
      rw [List.findIdx?_isSome, List.any_eq_true]
      exact ⟨sig, h, decide_eq_true rfl⟩
    obtain ⟨n, hn⟩ := Option.isSome_iff_exists.mp hsome
    obtain ⟨hlt, hsig, -⟩ := List.findIdx?_eq_some_iff_getElem.mp hn
    refine ⟨n, ?_, List.getElem?_eq_some_iff.mpr ⟨hlt, of_decide_eq_true hsig⟩⟩
    simp only [wasmGetFuncTypeIndexByDecl, wasmGetFuncTypeIndexBySig, hn]
    exact cInt_of_lt (by omega) (by omega)
  · obtain ⟨hvar, hsig⟩ := h
    obtain ⟨h0, -, hlt⟩ := checkVar_range hvar
    refine ⟨var.toNat, ?_, hsig⟩
    show cInt var = _
    rw [cInt_of_lt h0 hlt, Int.toNat_of_nonneg h0]

theorem takes_typeIndex (htypes : m.funcTypes.length < 2 ^ 31) {decl : FuncDeclaration}
    (h : DeclOk m decl) (hsigs : c.numSignatures = m.funcTypes.length) {f : Nat → ReadM Unit}
    {es : List Event} {c' : BinaryReader.Context}
    (hf : (f (wasmGetFuncTypeIndexByDecl m decl).toNat).Takes inp.window Prod.snd
      (past c (u32Leb (wasmGetFuncTypeIndexByDecl m decl))) [] es () c') :
    Emit.Takes inp.window Prod.snd (do
      let sigIndex ← inU32Leb128 inp
      let c ← Emit.get
      raiseErrorUnless (sigIndex < c.numSignatures)
      f sigIndex) c (u32Leb (wasmGetFuncTypeIndexByDecl m decl)) es () c' := by
  obtain ⟨n, hn, hsig⟩ := funcTypeIndex_spec htypes h
  have hlt := (List.getElem?_eq_some_iff.mp hsig).1
  rw [hn] at hf ⊢
  refine Emit.Takes.last (reads_u32 (hlt.trans (htypes.trans (by decide))))
    (.skip (.get _) (.skip (.check _ ?_ _) hf))
  rw [show (past c (u32Leb n)).numSignatures = m.funcTypes.length from hsigs]
  exact decide_eq_true hlt

/-- `num_*_imports += 1`. -/
def countImport : ImportKind → BinaryReader.Context → BinaryReader.Context
  | .func _, c => { c with numFuncImports := c.numFuncImports + 1 }
  | .table _, c => { c with numTableImports := c.numTableImports + 1 }
  | .memory _, c => { c with numMemoryImports := c.numMemoryImports + 1 }
  | .global _, c => { c with numGlobalImports := c.numGlobalImports + 1 }

theorem reads_strBytes {str : List UInt8} (hend : c.readEnd < maxU32) :
    Reads inp (inStr inp) c (strBytes str) [] str := by
  refine Reads.of_fits (append_ne_nil (u32Leb_ne_nil _)) fun hfits => ?_
  rw [strBytes, List.length_append] at hfits
  exact reads_str (by omega)

theorem externalKind_code_lt (kind : ExternalKind) : kind.code < 4 := by
  cases kind <;> decide

theorem takes_import (htypes : m.funcTypes.length < 2 ^ 31) {import_ : Import}
    (h : ImportKindOk m import_.kind) (hend : c.readEnd < maxU32)
    (hsigs : c.numSignatures = m.funcTypes.length) (i : Nat) :
    (readImport inp i).Takes inp.window Prod.snd c (importBytes m import_) (importEvents m i import_)
      () (countImport import_.kind (past c (importBytes m import_))) := by
  obtain ⟨moduleName, fieldName, kind⟩ := import_
  have hcode := externalKind_code_lt (ImportKind.externalKind kind)
  have hdone : ∀ c, Emit.Takes inp.window Prod.snd (do
      callback (importKindEvent m i kind)
      Emit.modify (countImport kind)) c [] [importKindEvent m i kind] () (countImport kind c) :=
    fun c => Emit.Takes.event (takes_callback _) (Emit.Takes.modify (by cases kind <;> rfl))
  rw [importBytes, past_append, past_append, past_append]
  refine Emit.Takes.field (reads_strBytes hend) (Emit.Takes.field (reads_strBytes hend)
    (Emit.Takes.event (takes_callback _)
      (Emit.Takes.field (reads_byte (hcode.trans (by decide))) ?_)))
  generalize hn : (ImportKind.externalKind kind).code = n
  cases kind with
  | func decl =>
    obtain rfl : ExternalKind.func.code = n := hn
    rw [if_pos rfl]
    refine takes_typeIndex htypes h ?_ ?_
    · exact hsigs
    · exact hdone _
  | table elemLimits =>
    obtain rfl : ExternalKind.table.code = n := hn
    rw [if_neg (by decide), if_pos rfl]
    exact Emit.Takes.last (reads_table h) (hdone _)
  | memory pageLimits =>
    obtain rfl : ExternalKind.memory.code = n := hn
    rw [if_neg (by decide), if_neg (by decide), if_pos rfl]
    exact Emit.Takes.last (reads_memory h) (hdone _)
  | global type =>
    obtain rfl : ExternalKind.global.code = n := hn
    rw [if_neg (by decide), if_neg (by decide), if_neg (by decide), if_pos rfl]
    exact Emit.Takes.last (reads_globalHeader type) (hdone _)

theorem reads_function (htypes : m.funcTypes.length < 2 ^ 31) {func : Func}
    (h : DeclOk m func.decl) (i : Nat) {k : Nat} (hk : 1 < k):
    Reads inp (do
      let sigIndex ← inU32Leb128 inp
      let c ← Emit.get
      raiseErrorUnless (sigIndex < c.numSignatures)
      callback (.onFunctionSignature i sigIndex)) (seen m k c) (functionBytes m func) (functionEvents m i func) () :=
  takes_typeIndex htypes h (if_pos hk) (Reads.callback _)

theorem reads_global {global : Global} (h : InitExprOk global.initExpr) (i : Nat) :
    Reads inp (readGlobal inp i) c (globalBytes global) (globalEvents i global) () := by
  exact (reads_globalHeader _).field (.event (.event (((reads_initExpr h i).bind
    (.event (.callback _))).of_eq (List.append_nil _) rfl)))

theorem reads_export {export_ : Export} {k : Nat} (hk : 6 < k)
    (h : Validator.checkVar (spaceSize m export_.kind) export_.var = true)
    (hend : c.readEnd < maxU32) (i : Nat) :
    Reads inp (readExport inp i) (seen m k c) (exportBytes export_) (exportEvents i export_) () := by
  obtain ⟨name, kind, var⟩ := export_
  obtain ⟨hsize, hu32⟩ := toNat_lt_of_checkVar h
  have hkind := externalKind_code_lt kind
  have htotals := totals_seen (m := m) (c := c) hk
  have hdone : ∀ {c b}, b = decide (var.toNat < spaceSize m kind) → Reads inp (do
      raiseErrorUnless b
      callback (.onExport i kind var.toNat name)) c [] [.onExport i kind var.toNat name] () :=
    fun hb => .check (hb.trans (decide_eq_true hsize)) (.callback _)
  refine (reads_strBytes (c := seen m k c) hend).field ?_
  refine (reads_u8 (hkind.trans (by decide))).field (.check (decide_eq_true hkind) ?_)
  refine (reads_var hu32).last (.get ?_)
  generalize hn : kind.code = n
  cases kind with
  | func =>
    obtain rfl : ExternalKind.func.code = n := hn
    rw [if_pos rfl]
    exact hdone (congrArg (fun n => decide (var.toNat < n)) htotals.funcs)
  | table =>
    obtain rfl : ExternalKind.table.code = n := hn
    rw [if_neg (by decide), if_pos rfl]
    exact hdone (congrArg (fun n => decide (var.toNat < n)) htotals.tables)
  | memory =>
    obtain rfl : ExternalKind.memory.code = n := hn
    rw [if_neg (by decide), if_neg (by decide), if_pos rfl]
    exact hdone (congrArg (fun n => decide (var.toNat < n)) htotals.memories)
  | global =>
    obtain rfl : ExternalKind.global.code = n := hn
    rw [if_neg (by decide), if_neg (by decide), if_neg (by decide)]
    exact hdone (congrArg (fun n => decide (var.toNat < n)) htotals.globals)

theorem eventsFrom_const {α : Type} (event : α → Event) : ∀ (i : Nat) (xs : List α),
    Emit.eventsFrom (fun _ x => [event x]) i xs = xs.map event
  | _, [] => rfl
  | i, x :: xs => by rw [Emit.eventsFrom, eventsFrom_const event (i + 1) xs]; rfl

theorem reads_elemVars {vars : List Var} (h : ∀ var ∈ vars, IsU32 var) (i : Nat) :
    Reads inp (Emit.forFrom (fun _ => do
      let funcIndex ← inU32Leb128 inp
      callback (.onElemSegmentFunctionIndex i funcIndex)) 0 vars.length) c (vars.flatMap u32Leb)
      (vars.map fun var => .onElemSegmentFunctionIndex i var.toNat) () := by
  refine Emit.Takes.of_eq (Emit.Takes.forFrom (P := fun _ => True) 0 trivial fun _ s var hvar _ =>
    ⟨(reads_var (h var hvar)).last (.callback _), trivial⟩) rfl (eventsFrom_const _ 0 vars)
      (foldl_past u32Leb vars)

theorem reads_elemSegment {segment : ElemSegment} (htable : IsU32 segment.tableVar)
    (hoffset : InitExprOk segment.offset) (hvars : ∀ var ∈ segment.vars, IsU32 var)
    (hend : c.readEnd < maxU32) (i : Nat) :
    Reads inp (readElemSegment inp i) c (elemSegmentBytes segment) (elemSegmentEvents i segment)
      () := by
  refine Reads.of_fits (append_ne_nil (u32Leb_ne_nil _)) fun hfits => ?_
  have hcount := @length_le_flatMap _ u32Leb segment.vars fun _ _ => u32Leb_ne_nil _
  simp only [elemSegmentBytes, List.length_append] at hfits
  refine (reads_var htable).field (.event (.event ?_))
  refine (reads_initExpr hoffset i).bind (.event ?_)
  refine (reads_u32 (by omega)).field (.event ?_)
  exact ((reads_elemVars hvars i).bind (.callback _)).of_eq (List.append_nil _) rfl

theorem reads_bytes {data : List UInt8} (hend : c.readEnd < maxU32) :
    Reads inp (inBytes inp) c (strBytes data) [] data :=
  reads_strBytes hend

theorem reads_dataSegment {segment : DataSegment} (hmemory : IsU32 segment.memoryVar)
    (hoffset : InitExprOk segment.offset) (hend : c.readEnd < maxU32) (i : Nat) :
    Reads inp (readDataSegment inp i) c (dataSegmentBytes segment) (dataSegmentEvents i segment)
      () := by
  refine (reads_var hmemory).field (.event (.event ?_))
  refine (reads_initExpr hoffset i).bind (.event ?_)
  refine (reads_bytes ?_).last (.event (.callback _))
  exact hend

theorem eventsFrom_decls : ∀ (i : Nat) (rs : List (Nat × ValueType)),
    Emit.eventsFrom (fun i r => [Event.onLocalDecl i r.1 r.2]) i rs = declEvents i rs
  | _, [] => rfl
  | i, r :: rs => by rw [Emit.eventsFrom, eventsFrom_decls (i + 1) rs]; rfl

theorem reads_locals {localTypes : List ValueType} (hcounts : ∀ r ∈ runs localTypes, r.1 < maxU32)
    (hlength : (runs localTypes).length < maxU32) :
    Reads inp (readLocalDecls inp) c (localsBytes localTypes) (localsEvents localTypes) () := by
  refine (reads_u32 hlength).field (.event ?_)
  refine Emit.Takes.of_eq (Emit.Takes.forFrom (P := fun _ => True) 0 trivial fun i s r hr _ =>
    ⟨(reads_u32 (hcounts r hr)).field ((reads_valueType r.2).last (.callback _)), trivial⟩) rfl
      (eventsFrom_decls 0 _) (foldl_past _ _)

/-- An offset that fits is not cut. -/
theorem reads_cut (h : c.offset < maxU32) :
    Reads inp (Emit.modify fun c => { c with offset := u32 c.offset }) c [] [] () := by
  intro rest hwindow
  refine ⟨hwindow, [], ?_, rfl⟩
  rw [Emit.modify_run, u32_of_lt h]
  rfl

theorem reads_functionBodyEntry {options : WriteBinaryOptions} {func : Func} {k : Nat} (hk : 3 < k)
    (hlocals : LoopsEnd func.decl.sig.paramTypes.length func.localTypes)
    (hbody : ExprListOk m func.firstExpr) (hend : c.readEnd < maxU32) (i : Nat) :
    Reads inp (readFunctionBodyEntry inp i) (seen m k c) (functionBodyBytes options func)
      (functionBodyEvents i func) () := by
  refine Reads.of_fits (append_ne_nil (lengthLeb_ne_nil options _)) fun hfits => ?_
  obtain ⟨hcounts, hlength⟩ := hlocals.counts
  rw [functionBodyBytes, sized, List.length_append] at hfits
  have hsize : (seen m k c).readEnd < maxU32 := hend
  have hbytes : (bodyBytes func).length =
      (localsBytes func.localTypes).length + ((exprListBytes func.firstExpr).length + 1) := by
    rw [bodyBytes, List.length_append, List.length_append, List.length_singleton]
  rw [readFunctionBodyEntry_eq]
  refine (reads_cut (by omega)).field (.event ?_)
  refine (reads_length (by omega)).field (.get ?_)
  have hstart : (past (seen m k c) (lengthLeb options (bodyBytes func).length)).offset =
      (seen m k c).offset + (lengthLeb options (bodyBytes func).length).length := rfl
  have hcut : u32 (u32 (past (seen m k c) (lengthLeb options (bodyBytes func).length)).offset +
      (bodyBytes func).length) = (seen m k c).offset +
        (lengthLeb options (bodyBytes func).length).length + (bodyBytes func).length := by
    have hstay : u32 ((seen m k c).offset + (lengthLeb options (bodyBytes func).length).length) =
        (seen m k c).offset + (lengthLeb options (bodyBytes func).length).length :=
      u32_of_lt (by omega)
    rw [hstart, hstay, u32_of_lt (by omega)]
  rw [show past (seen m k c) [] = seen m k c from rfl, hcut]
  refine (reads_locals hcounts hlength).bind ?_
  refine ((reads_functionBody hbody ?_ ?_ ?_).bind (.callback _)).of_eq (List.append_nil _)
    (List.append_assoc ..)
  · exact ((counts_seen hk).past _).past _
  · omega
  · simp only [past]
    omega

end Entries

end BinaryWriter

end SexprWasm
