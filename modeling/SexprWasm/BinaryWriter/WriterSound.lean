import SexprWasm.BinaryWriter.Encoding

/-!
# The writer writes the encoding

One lemma for each function of the writer, in the order of the source:
`Writes` for what stands inside a section, `WritesSections` for the
sections. A count is an `uint32_t`; that it is the number of entries
follows from the size of the whole, since no entry is empty.
-/

namespace SexprWasm

namespace BinaryWriter

open Ast WasmStream Runs

/-! ## Counts -/

theorem Writes.of_lt {mw : WriteM Unit} {bs : List UInt8}
    (h : bs.length < maxU32 → Writes mw bs) : Writes mw bs :=
  fun c w stale hlt => h (by omega) c w stale hlt

theorem WritesSections.of_lt {mw : WriteM Unit} {bs : List UInt8}
    (h : bs.length < maxU32 → WritesSections mw bs) : WritesSections mw bs :=
  fun c w stale hclosed hlt => h (by omega) c w stale hclosed hlt

theorem length_le_flatMap {α : Type} {g : α → List UInt8} : ∀ {xs : List α},
    (∀ x ∈ xs, g x ≠ []) → xs.length ≤ (xs.flatMap g).length
  | [], _ => Nat.zero_le _
  | x :: xs, h => by
      have hpos : 0 < (g x).length := List.length_pos_iff.mpr (h x List.mem_cons_self)
      have ih := length_le_flatMap fun y hy => h y (List.mem_cons_of_mem x hy)
      rw [List.flatMap_cons, List.length_append, List.length_cons]
      omega

theorem typeBytes_ne_nil (type : WasmType) : typeBytes type ≠ [] :=
  (i32Leb_spec type.code).2.1.encoding.ne_nil

theorem u32Leb_emod (value : Int) : u32Leb (value % maxU32) = u32Leb value := by
  rw [u32Leb, u32Leb, Int.emod_emod_of_dvd _ (Int.dvd_refl _)]

theorem u32Leb_cInt (value : Int) : u32Leb (cInt value) = u32Leb value := by
  rw [← u32Leb_emod (cInt value), ← u32Leb_emod value, cInt, Int.bmod_emod]

theorem u32Leb_u32 (n : Nat) : u32Leb (u32 n) = u32Leb n := by
  rw [← u32Leb_emod n]
  rfl

/-! ## Expressions -/

section Expressions

variable (options : WriteBinaryOptions) (m : Module)

theorem writes_type (type : WasmType) : Writes (wasmWriteType type) (typeBytes type) :=
  Writes.i32Leb _

theorem writes_sig (sig : List ValueType) :
    Writes (writeInlineSignatureType sig) (sigBytes sig) :=
  match sig with
  | [] => writes_type .void
  | [type] => writes_type type
  | _ :: _ :: _ => Writes.u8 (by decide)

theorem countLog2_le : ∀ fuel x : Nat, countLog2 fuel x ≤ fuel
  | 0, _ => Nat.le_refl 0
  | fuel + 1, x => by
      have ih := countLog2_le fuel (x / 2)
      rw [countLog2]
      split <;> omega

theorem writes_loadStore (opcode : WasmOpcode) (align offset : Nat) :
    Writes (writeLoadStore opcode align offset) (loadStoreBytes opcode align offset) :=
  (Writes.opcode opcode).bind ((Writes.u8 ((countLog2_le 32 _).trans (by decide))).bind
    (Writes.u32Leb _))

theorem writes_const (const_ : Const) : Writes (writeConst const_) (constBytes const_) := by
  unfold writeConst constBytes
  cases const_.type
  · exact (Writes.opcode _).bind (Writes.i32Leb _)
  · exact (Writes.opcode _).bind (Writes.i64Leb _)
  · exact (Writes.opcode _).bind (Writes.data _)
  · exact (Writes.opcode _).bind (Writes.data _)

theorem writes_var (opcode : WasmOpcode) (var : Var) :
    Writes (writeVar opcode var) ([opByte opcode] ++ u32Leb var) := by
  have h := (Writes.opcode opcode).bind (Writes.u32Leb (indexByVar var))
  rwa [indexByVar, u32Leb_cInt] at h

theorem writes_assertIndex {size : Nat} {var : Var} (h : Validator.checkVar size var = true) :
    Writes (assertIndex options (indexByVar var) size) [] := by
  obtain ⟨hnonneg, hlt, hint⟩ := checkVar_range h
  refine Writes.assert (Bool.or_eq_true_iff.mpr (.inr ?_))
  rw [indexByVar, cInt_of_lt hnonneg hint, Bool.and_eq_true, decide_eq_true_eq, decide_eq_true_eq]
  exact ⟨hnonneg, hlt⟩

theorem writes_index (var : Var) : Writes (writeU32Leb128 (indexByVar var)) (u32Leb var) := by
  have h := Writes.u32Leb (indexByVar var)
  rwa [indexByVar, u32Leb_cInt] at h

theorem writes_expr {e : Expr} (h : ExprOk m e) : Writes (writeExpr options m e) (exprBytes e) := by
  cases e with
  | br var => exact (Writes.opcode _).bind (Writes.u32Leb _)
  | brIf var => exact (Writes.opcode _).bind (Writes.u32Leb _)
  | brTable targets defaultTarget =>
    exact (Writes.opcode _).bind ((Writes.u32Leb _).bind
      ((Writes.forM fun _ _ => Writes.u32Leb _).bind (Writes.u32Leb _)))
  | call var =>
    exact (writes_assertIndex options h).bind ((Writes.opcode _).bind (writes_index var))
  | callIndirect var =>
    exact (writes_assertIndex options h).bind ((Writes.opcode _).bind
      ((writes_index var).bind (Writes.u32Leb _)))
  | getLocal var => exact writes_var _ var
  | setLocal var => exact writes_var _ var
  | teeLocal var => exact writes_var _ var
  | getGlobal var => exact writes_var _ var
  | setGlobal var => exact writes_var _ var
  | load opcode align offset => exact writes_loadStore _ _ _
  | store opcode align offset => exact writes_loadStore _ _ _
  | currentMemory => exact (Writes.opcode _).bind (Writes.u32Leb _)
  | growMemory => exact (Writes.opcode _).bind (Writes.u32Leb _)
  | const const_ => exact writes_const const_
  | _ => exact Writes.opcode _

theorem writes_exprList : ∀ {l : ExprList}, ExprListOk m l →
    Writes (writeExprList options m l) (exprListBytes l)
  | .nil, _ => Writes.pure
  | .expr e next, h => (writes_expr options m h.1).bind (writes_exprList h.2)
  | .block sig first next, h =>
    (Writes.opcode _).bind ((writes_sig sig).bind ((writes_exprList h.2.1).bind
      ((Writes.opcode _).bind (writes_exprList h.2.2))))
  | .loop sig first next, h =>
    (Writes.opcode _).bind ((writes_sig sig).bind ((writes_exprList h.2.1).bind
      ((Writes.opcode _).bind (writes_exprList h.2.2))))
  | .if_ sig true_ false_ next, h => by
    have hfalse := writes_exprList h.2.2.1
    have hend := (Writes.opcode .end_).bind (writes_exprList h.2.2.2)
    refine (Writes.opcode _).bind ((writes_sig sig).bind ((writes_exprList h.2.1).bind ?_))
    split
    · have h' := (Writes.opcode .else_).bind (hfalse.bind hend)
      rwa [← List.append_assoc] at h'
    · exact hend

theorem InitExprOk.exprListOk {l : ExprList} (h : InitExprOk l) : ExprListOk m l := by
  unfold InitExprOk at h
  split at h
  · trivial
  · exact ⟨h, trivial⟩
  · exact ⟨h, trivial⟩
  · exact h.elim

theorem writes_initExpr {l : ExprList} (h : InitExprOk l) :
    Writes (writeInitExpr options m l) (initExprBytes l) :=
  (writes_exprList options m (h.exprListOk m)).bind (Writes.opcode _)

end Expressions

/-! ## Entries -/

section Entries

variable (options : WriteBinaryOptions) (m : Module)

theorem declsBytes_eq {rs : List (Nat × ValueType)} (h : ∀ r ∈ rs, r.1 < maxU32) :
    declsBytes (rs.map fun r => (r.1, r.2.toType)) =
      some (rs.flatMap fun r => u32Leb r.1 ++ valueTypeBytes r.2) := by
  induction rs with
  | nil => rfl
  | cons r rs ih =>
    have hcount := (u32Leb_spec r.1).1
    rw [Int.emod_eq_of_lt (by omega) (by exact_mod_cast h r List.mem_cons_self)] at hcount
    have htype : SexprWasm.wasmWriteI32Leb128 r.2.toType.code = some (valueTypeBytes r.2) := by
      cases r.2 <;> decide
    rw [List.map_cons, declsBytes, localDeclBytes, hcount, htype,
      ih fun r hr => h r (List.mem_cons_of_mem _ hr)]
    rfl

theorem writes_func {func : Func} (hbody : ExprListOk m func.firstExpr)
    (hlocals : LoopsEnd func.decl.sig.paramTypes.length func.localTypes) :
    Writes (writeFunc options m func) (bodyBytes func) := by
  obtain ⟨hcounts, hnumber⟩ := hlocals.counts
  have hcount := (u32Leb_spec (runs func.localTypes).length).1
  rw [Int.emod_eq_of_lt (by omega) (by exact_mod_cast hnumber)] at hcount
  have hbytes : LocalDecls.bytes ⟨(declsOf func.localTypes).length, declsOf func.localTypes⟩ =
      some (localsBytes func.localTypes) := by
    rw [LocalDecls.bytes, declsOf, List.length_map, hcount, declsBytes_eq hcounts]
    rfl
  unfold writeFunc
  dsimp only
  rw [writeFuncLocals_eq hlocals]
  refine Writes.orAbort ?_
  rw [hbytes]
  exact Writes.orAbort ((Writes.data _).bind ((writes_exprList options m hbody).bind
    (Writes.opcode _)))

theorem writes_limits (limits : Limits) :
    Writes (wasmWriteLimits limits) (limitsBytes limits) := by
  refine (Writes.u32Leb _).bind ((Writes.u32Leb _).bind ?_)
  split
  · exact Writes.u32Leb _
  · exact Writes.pure

theorem writes_table (elemLimits : Limits) :
    Writes (writeTable elemLimits) (tableBytes elemLimits) :=
  (writes_type _).bind (writes_limits _)

theorem writes_globalHeader (global : GlobalType) :
    Writes (writeGlobalHeader global) (globalHeaderBytes global) :=
  (writes_type _).bind (Writes.u8 (by split <;> decide))

theorem take_u32 {α : Type} {xs : List α} (h : xs.length < maxU32) :
    xs.take (u32 xs.length) = xs := by
  rw [u32_of_lt h, List.take_length]

theorem writes_funcType (sig : FuncSignature) :
    Writes (writeFuncType sig) (funcTypeBytes sig) := by
  refine Writes.of_lt fun hlt => ?_
  have hparams : sig.paramTypes.length ≤ (sig.paramTypes.flatMap valueTypeBytes).length :=
    length_le_flatMap fun type _ => typeBytes_ne_nil _
  have hresults : sig.resultTypes.length ≤ (sig.resultTypes.flatMap valueTypeBytes).length :=
    length_le_flatMap fun type _ => typeBytes_ne_nil _
  simp only [funcTypeBytes, List.length_append] at hlt
  unfold writeFuncType
  dsimp only
  rw [take_u32 (show sig.paramTypes.length < maxU32 by omega),
    take_u32 (show sig.resultTypes.length < maxU32 by omega),
    u32_of_lt (show sig.paramTypes.length < maxU32 by omega),
    u32_of_lt (show sig.resultTypes.length < maxU32 by omega)]
  exact (writes_type _).bind ((Writes.u32Leb _).bind ((Writes.forM fun _ _ => writes_type _).bind
    ((Writes.u32Leb _).bind (Writes.forM fun _ _ => writes_type _))))

theorem code_le (kind : ExternalKind) : kind.code ≤ 0xff := by
  cases kind <;> decide

theorem writes_import (import_ : Import) :
    Writes (writeImport m import_) (importBytes m import_) := by
  unfold writeImport importBytes
  refine (Writes.str _).bind ((Writes.str _).bind ((Writes.u8 (code_le _)).bind ?_))
  cases import_.kind with
  | func decl => exact Writes.u32Leb _
  | table elemLimits => exact writes_table _
  | memory pageLimits => exact writes_limits _
  | global type => exact writes_globalHeader _

theorem writes_global {global : Global} (h : InitExprOk global.initExpr) :
    Writes (writeGlobal options m global) (globalBytes global) :=
  (writes_globalHeader _).bind (writes_initExpr options m h)

theorem writes_export {export_ : Export}
    (h : Validator.checkVar (spaceSize m export_.kind) export_.var = true) :
    Writes (writeExport options m export_) (exportBytes export_) :=
  (Writes.str _).bind ((Writes.u8 (code_le _)).bind ((writes_assertIndex options h).bind
    (writes_index _)))

theorem writes_elemSegment {segment : ElemSegment} (hoffset : InitExprOk segment.offset)
    (hvars : ∀ var ∈ segment.vars, Validator.checkVar m.funcDecls.length var = true) :
    Writes (writeElemSegment options m segment) (elemSegmentBytes segment) :=
  (writes_index _).bind ((writes_initExpr options m hoffset).bind ((Writes.u32Leb _).bind
    (Writes.forM fun var hvar => (writes_assertIndex options (hvars var hvar)).bind
      (writes_index var))))

theorem writes_functionBody {func : Func} (hbody : ExprListOk m func.firstExpr)
    (hlocals : LoopsEnd func.decl.sig.paramTypes.length func.localTypes) :
    Writes (writeFunctionBody options m func) (functionBodyBytes options func) :=
  Writes.sized options (writes_func options m hbody hlocals)

theorem writes_dataSegment {segment : DataSegment} (hoffset : InitExprOk segment.offset) :
    Writes (writeDataSegment options m segment) (dataSegmentBytes segment) :=
  (writes_index _).bind ((writes_initExpr options m hoffset).bind (Writes.str _))

end Entries

/-! ## Sections -/

section Sections

variable (options : WriteBinaryOptions) {m : Module}

theorem WritesSections.of_eq {mw : WriteM Unit} {bs bs' : List UInt8} (h : WritesSections mw bs)
    (hbs : bs = bs') : WritesSections mw bs' := hbs ▸ h

theorem writes_section (sectionCode : BinarySection) {payload : WriteM Unit} {bs : List UInt8}
    (h : Writes payload bs) :
    WritesSections (knownSection options sectionCode payload)
      (sectionBytes options sectionCode bs) :=
  WritesSections.known options (by cases sectionCode <;> decide) h

theorem writes_vector {α : Type} {sectionCode : BinarySection} {entries : List α}
    {writeEntry : α → WriteM Unit} {entryBytes : α → List UInt8}
    (h : ∀ x ∈ entries, Writes (writeEntry x) (entryBytes x)) :
    WritesSections (vectorSection options sectionCode entries writeEntry)
      (vectorBytes options sectionCode entries entryBytes) := by
  unfold vectorSection vectorBytes
  by_cases hnil : entries = []
  · rw [if_neg (by simp [hnil]), if_pos hnil]
    exact WritesSections.nil
  · rw [if_pos (by simpa using hnil), if_neg hnil]
    exact writes_section options sectionCode ((Writes.u32Leb _).bind (Writes.forM h))

theorem writes_counted {α : Type} {sectionCode : BinarySection} {entries : List α}
    {writeEntry : α → WriteM Unit} {entryBytes : α → List UInt8}
    (hne : ∀ x ∈ entries, entryBytes x ≠ [])
    (h : ∀ x ∈ entries, Writes (writeEntry x) (entryBytes x)) :
    WritesSections (countedSection options sectionCode entries writeEntry)
      (vectorBytes options sectionCode entries entryBytes) := by
  refine WritesSections.of_lt fun hlt => ?_
  have hle := length_le_flatMap hne
  have hcount : entries.length < maxU32 := by
    rw [vectorBytes] at hlt
    split at hlt
    · rename_i hnil
      rw [hnil, List.length_nil]
      exact Nat.two_pow_pos 32
    · simp only [sectionBytes, sized, List.length_cons, List.length_append] at hlt
      omega
  rw [countedSection, take_u32 hcount]
  exact writes_vector options h

theorem writes_start (h : Encodable m) :
    WritesSections (writeStart options m) (startBytes options m) := by
  unfold writeStart startBytes
  cases hstart : m.starts.getLast? with
  | none => exact WritesSections.nil
  | some var =>
    obtain ⟨hnonneg, -, hint⟩ := checkVar_range (h.starts var (List.mem_of_getLast? hstart))
    have hindex : indexByVar var ≠ -1 := by
      rw [indexByVar, cInt_of_lt hnonneg hint]
      omega
    dsimp only
    rw [if_pos hindex]
    exact writes_section options .start (writes_index var)

theorem append_ne_nil {bs bs' : List UInt8} (h : bs ≠ []) : bs ++ bs' ≠ [] :=
  List.append_ne_nil_of_left_ne_nil h bs'

theorem lengthLeb_ne_nil (length : Nat) : lengthLeb options length ≠ [] := by
  rw [lengthLeb]
  split
  · exact u32Leb_ne_nil _
  · exact List.cons_ne_nil _ _

/-- The writer writes the encoding of the module, and the section of names behind it. -/
theorem writeModule_writes (h : Encodable m) {names : Nat → FuncNames} {nameBytes : List UInt8}
    (hnames : WritesSections
      (if options.writeDebugNames then writeNameSection options m names else pure ()) nameBytes) :
    WritesSections (writeModule options m names)
      (headerBytes ++ (sectionsBytes options m ++ nameBytes)) := by
  unfold writeModule sectionsBytes headerBytes
  simp only [List.append_assoc]
  refine (Writes.data _).sections.bind ((Writes.data _).sections.bind
    ((writes_vector options ?_).bind ((writes_vector options ?_).bind
    ((writes_counted options ?_ ?_).bind ((writes_counted options ?_ ?_).bind
    ((writes_counted options ?_ ?_).bind ((writes_counted options ?_ ?_).bind
    ((writes_vector options ?_).bind ((writes_start options h).bind
    ((writes_vector options ?_).bind ((writes_counted options ?_ ?_).bind
    ((writes_vector options ?_).bind hnames))))))))))))
  · exact fun sig _ => writes_funcType sig
  · exact fun i _ => writes_import m i
  · exact fun f _ => u32Leb_ne_nil _
  · exact fun f _ => Writes.u32Leb _
  · exact fun t _ => append_ne_nil (typeBytes_ne_nil _)
  · exact fun t _ => writes_table t
  · exact fun t _ => append_ne_nil (u32Leb_ne_nil _)
  · exact fun t _ => writes_limits t
  · exact fun g _ => append_ne_nil (append_ne_nil (typeBytes_ne_nil _))
  · exact fun g hg => writes_global options m (h.globals g hg)
  · exact fun e he => writes_export options m (h.exports e he)
  · exact fun s hs => writes_elemSegment options m (h.elemOffsets s hs) (h.elemVars s hs)
  · exact fun f _ => append_ne_nil (lengthLeb_ne_nil options _)
  · exact fun f hf => writes_functionBody options m (h.bodies f hf) (h.locals f hf)
  · exact fun s hs => writes_dataSegment options m (h.dataOffsets s hs)

end Sections

end BinaryWriter

end SexprWasm
