import SexprWasm.BinaryWriter.Locals
import SexprWasm.Lib.Runs
import SexprWasm.Leb128Sound
import SexprWasm.BinaryReader.Shift
import SexprWasm.Text.ReadBinary
import SexprWasm.Text.LinkedModuleSound

/-!
# Local declarations, both ways

What `write_func_locals` writes are the maximal runs of the locals, and
the reader's loop hands them to the AST reader, which has the list back
at the end of the function's. The loops of the writer end as long as the
index after the last local is below 2³² - 1: their `uint32_t` must come
to be larger than it.
-/

namespace SexprWasm

namespace BinaryWriter

open Runs

/-! ## The loops -/

section Loops

variable {numParams : Nat} {localTypes : List ValueType}

/-- The index of a local takes the loops to its type. -/
theorem getLocalType_add (hlast : numParams + localTypes.length < maxU32) {k : Nat}
    (hk : k < localTypes.length) :
    getLocalType numParams localTypes (numParams + k) = (localTypes[k]?).map (·.toType) := by
  have hindex : u32 (numParams + k + maxU32 - numParams) = k := by
    rw [u32, show numParams + k + maxU32 - numParams = k + maxU32 by omega, Nat.add_mod_right]
    exact Nat.mod_eq_of_lt (by omega)
  rw [getLocalType, hindex]

theorem countLocalDecls_eq (hlast : numParams + localTypes.length < maxU32 - 1) (m : Nat)
    {l : List ValueType} {k : Nat} (hl : localTypes.drop k = l) {current : ValueType}
    {count fuel : Nat} (hk : k ≤ localTypes.length) (hfuel : l.length < fuel)
    (hcount : count + l.length + 1 < maxU32) :
    countLocalDecls numParams localTypes fuel (numParams + k) current.toType (count + 1) =
      some (count + (runsFrom current m l).length) := by
  induction l generalizing k current count fuel m with
  | nil =>
    cases fuel with
    | zero => cases hfuel
    | succ fuel =>
      have hend : localTypes.length ≤ k := List.drop_eq_nil_iff.mp hl
      rw [countLocalDecls, if_neg (by rw [lastLocalIndex]; omega), runsFrom, List.length_singleton]
  | cons a l ih =>
    cases fuel with
    | zero => cases hfuel
    | succ fuel =>
      have hget : localTypes[k]? = some a := by
        rw [← List.head?_drop, hl, List.head?_cons]
      have hlt := (List.getElem?_eq_some_iff.mp hget).1
      have hdrop : localTypes.drop (k + 1) = l := by
        rw [← List.tail_drop, hl, List.tail_cons]
      simp only [List.length_cons] at hfuel hcount
      have hnext : u32 (numParams + k + 1) = numParams + (k + 1) := u32_of_lt (by omega)
      rw [countLocalDecls, if_pos (by rw [lastLocalIndex]; omega),
        getLocalType_add (by omega) hlt, hget]
      simp only [Option.map_some, hnext, runsFrom]
      by_cases heq : current = a
      · subst heq
        rw [if_neg (by simp), if_pos rfl]
        exact ih (m + 1) hdrop (by omega) (by omega) (by omega)
      · rw [if_pos (by simpa using heq), if_neg heq, u32_of_lt (by omega), List.length_cons,
          ih 1 hdrop (by omega) (by omega) (by omega)]
        congr 1
        omega

theorem writeLocalDecls_eq (hlast : numParams + localTypes.length < maxU32 - 1)
    {l : List ValueType} {k : Nat} (hl : localTypes.drop k = l) {current : ValueType}
    {count fuel : Nat} (hk : k ≤ localTypes.length) (hfuel : l.length + 1 < fuel)
    (hcount : count + l.length < maxU32) :
    writeLocalDecls numParams localTypes fuel (numParams + k) current.toType count =
      some ((runsFrom current count l).map fun r => (r.1, r.2.toType)) := by
  induction l generalizing k current count fuel with
  | nil =>
    obtain ⟨fuel, rfl⟩ : ∃ fuel', fuel = fuel' + 2 := ⟨fuel - 2, by simp at hfuel; omega⟩
    have hend : k = localTypes.length :=
      Nat.le_antisymm hk (List.drop_eq_nil_iff.mp hl)
    -- the extra turn, at the index after the last
    rw [writeLocalDecls, if_pos (by rw [lastLocalIndex]; omega), if_pos (by rw [lastLocalIndex, hend])]
    simp only [ValueType.toType_ne_void, if_false]
    rw [u32_of_lt (by omega), writeLocalDecls, if_neg (by rw [lastLocalIndex]; omega)]
    rfl
  | cons a l ih =>
    cases fuel with
    | zero => cases hfuel
    | succ fuel =>
      have hget : localTypes[k]? = some a := by
        rw [← List.head?_drop, hl, List.head?_cons]
      have hlt := (List.getElem?_eq_some_iff.mp hget).1
      have hdrop : localTypes.drop (k + 1) = l := by
        rw [← List.tail_drop, hl, List.tail_cons]
      simp only [List.length_cons] at hfuel hcount
      have hnext : u32 (numParams + k + 1) = numParams + (k + 1) := u32_of_lt (by omega)
      rw [writeLocalDecls, if_pos (by rw [lastLocalIndex]; omega),
        if_neg (by rw [lastLocalIndex]; omega), getLocalType_add (by omega) hlt, hget]
      simp only [Option.map_some, hnext, runsFrom, ValueType.toType_inj]
      by_cases heq : current = a
      · subst heq
        rw [if_pos rfl, if_pos rfl, u32_of_lt (by omega)]
        exact ih hdrop (by omega) (by omega) (by omega)
      · rw [if_neg heq, if_neg heq, ih hdrop (by omega) (by omega) (by omega)]
        rfl

/-- An `uint32_t` is never larger than what the second loop compares it to. -/
theorem writeLocalDecls_eq_none (hlast : maxU32 - 1 ≤ lastLocalIndex numParams localTypes)
    (fuel : Nat) {i : Nat} (hi : i < maxU32) (current : WasmType) (count : Nat) :
    writeLocalDecls numParams localTypes fuel i current count = none := by
  induction fuel generalizing i current count with
  | zero => rfl
  | succ fuel ih =>
    rw [writeLocalDecls, if_pos (by omega)]
    split
    · rfl
    · split
      · exact ih (u32_lt _) _ _
      · rw [ih (u32_lt _)]
        rfl

end Loops

/-- The declarations of the maximal runs. -/
def declsOf (localTypes : List ValueType) : List (Nat × WasmType) :=
  (runs localTypes).map fun r => (r.1, r.2.toType)

theorem length_runsFrom_le (current : ValueType) (count : Nat) (l : List ValueType) :
    (runsFrom current count l).length ≤ l.length + 1 := by
  induction l generalizing current count with
  | nil => simp [runsFrom]
  | cons a l ih =>
    rw [runsFrom]
    split
    · exact (ih current (count + 1)).trans (Nat.le_succ _)
    · exact Nat.succ_le_succ (ih a 1)

/-- The condition under which the loops of `write_func_locals` end. -/
def LoopsEnd (numParams : Nat) (localTypes : List ValueType) : Prop :=
  localTypes = [] ∨ u32 numParams + localTypes.length < maxU32 - 1

theorem writeFuncLocals_eq {numParams : Nat} {localTypes : List ValueType}
    (h : LoopsEnd numParams localTypes) :
    writeFuncLocals (localTypes.length + 2) numParams localTypes =
      some { localDeclCount := (declsOf localTypes).length, decls := declsOf localTypes } := by
  cases localTypes with
  | nil => rfl
  | cons a l =>
    have hlast : u32 numParams + (a :: l).length < maxU32 - 1 := h.resolve_left (by simp)
    have hlength : (a :: l).length = l.length + 1 := rfl
    have hlt : u32 numParams + (a :: l).length < maxU32 := by omega
    have hfirst : getLocalType (u32 numParams) (a :: l) (u32 numParams) = some a.toType :=
      getLocalType_add hlt (Nat.succ_pos _)
    have hone : u32 (u32 numParams + 1) = u32 numParams + 1 := u32_of_lt (by omega)
    have hdrop : (a :: l).drop 1 = l := rfl
    have hcount : countLocalDecls (u32 numParams) (a :: l) ((a :: l).length + 2)
        (u32 numParams + 1) a.toType (0 + 1) = some (0 + (runsFrom a 1 l).length) :=
      countLocalDecls_eq hlast 1 hdrop (by omega) (by omega) (by omega)
    have hdecls : writeLocalDecls (u32 numParams) (a :: l) ((a :: l).length + 2)
        (u32 numParams + 1) a.toType 1 = some ((runsFrom a 1 l).map fun r => (r.1, r.2.toType)) :=
      writeLocalDecls_eq hlast hdrop (by omega) (by omega) (by omega)
    rw [Nat.zero_add, Nat.zero_add] at hcount
    rw [writeFuncLocals, if_neg (by omega)]
    simp only [Option.bind_eq_bind, hfirst, Option.bind_some, hone, hcount, hdecls]
    simp [declsOf, runs]

theorem writeFuncLocals_eq_none {numParams : Nat} {localTypes : List ValueType}
    (h : ¬LoopsEnd numParams localTypes) (fuel : Nat) :
    writeFuncLocals fuel numParams localTypes = none := by
  rw [LoopsEnd, not_or] at h
  obtain ⟨hne, hlast⟩ := h
  have hwrite : ∀ firstType, writeLocalDecls (u32 numParams) localTypes fuel
      (u32 (u32 numParams + 1)) firstType 1 = none := fun firstType =>
    writeLocalDecls_eq_none (by rw [lastLocalIndex]; omega) fuel (u32_lt _) _ _
  rw [writeFuncLocals, if_neg (by simpa using hne)]
  simp [hwrite]

/-! ## Reading back -/

open BinaryReader

section Read

variable {inp : Input} {c : BinaryReader.Context} {bytes rest : List UInt8}

/-- The position behind the next `bytes`. -/
def past (c : BinaryReader.Context) (bytes : List UInt8) : BinaryReader.Context :=
  { c with offset := c.offset + bytes.length }

theorem past_append (bytes' : List UInt8) : past c (bytes ++ bytes') = past (past c bytes) bytes' := by
  simp [past, Nat.add_assoc]

theorem window_past (h : inp.window c = bytes ++ rest) : inp.window (past c bytes) = rest := by
  have hdrop : inp.window (past c bytes) = (inp.window c).drop bytes.length := by
    rw [Input.window, Input.window, List.drop_take, List.drop_drop]
    simp only [past]
    congr 1
    omega
  rw [hdrop, h, List.drop_left]

theorem inU32Leb128_of_window {value : Nat} (hvalue : value < maxU32)
    (hwrite : wasmWriteU32Leb128 value = some bytes) (h : inp.window c = bytes ++ rest) :
    inU32Leb128 inp c = ([], .ok (value, past c bytes)) := by
  obtain ⟨bytes', hwrite', henc, hlen⟩ := wasmWriteU32Leb128_spec (UInt32.ofNat value)
  have hnat : (UInt32.ofNat value).toNat = value := UInt32.toNat_ofNat_of_lt' hvalue
  rw [hnat] at hwrite' hlen
  obtain rfl : bytes' = bytes := Option.some.inj (hwrite'.symm.trans hwrite)
  rw [inU32Leb128, inLeb_eq, h, wasmReadU32Leb128_iff.mpr ⟨bytes', rest, rfl, rfl, henc, hlen.symm⟩]
  rfl

theorem inConcreteType_of_window (type : ValueType)
    (hwrite : wasmWriteI32Leb128 type.toType.code = some bytes)
    (h : inp.window c = bytes ++ rest) :
    inConcreteType inp c = ([], .ok (type, past c bytes)) := by
  have hcode : -2 ^ 31 ≤ type.toType.code ∧ type.toType.code < 2 ^ 31 := by
    cases type <;> decide
  obtain ⟨bytes', hwrite', henc, hvalue⟩ := wasmWriteI32Leb128_spec (Int32.ofInt type.toType.code)
  rw [Int32.toInt_ofInt_of_le hcode.1 hcode.2] at hwrite' hvalue
  obtain rfl : bytes' = bytes := Option.some.inj (hwrite'.symm.trans hwrite)
  obtain ⟨bits, hbits, hsigned⟩ := exists_bits 32 hcode.1 hcode.2 (by decide)
  have hread : wasmReadI32Leb128 (bytes' ++ rest) = some (bits, bytes'.length) :=
    wasmReadI32Leb128_iff.mpr ⟨bytes', rest, rfl, rfl, henc, hbits, hsigned.trans hvalue.symm⟩
  have hrange : -128 ≤ type.toType.code ∧ type.toType.code ≤ 127 := by
    cases type <;> decide
  have hleb : inI32Leb128 inp c = ([], .ok (bits, past c bytes')) := by
    rw [inI32Leb128, inLeb_eq, h, hread]
    rfl
  have htype : inType inp c = ([], .ok (type.toType.code, past c bytes')) := by
    rw [inType, Emit.bind_eq, Emit.bind_ok hleb]
    simp [hsigned, raiseErrorUnless, Emit.check, hrange, Emit.bind_eq, Emit.bind]
  rw [inConcreteType, Emit.bind_eq, Emit.bind_ok htype]
  simp only [show concreteType? type.toType.code = some type from concreteType?_code type]
  rfl

/-- The loop of `read_code_section` over the local declarations of a function, with their
number before it. -/
def readLocalDecls (inp : Input) : ReadM Unit := do
  let numLocalDecls ← inU32Leb128 inp
  callback (.onLocalDeclCount numLocalDecls)
  Emit.forFrom (readLocalDecl inp) 0 numLocalDecls

theorem readFunctionBodyEntry_eq (i : Nat) :
    readFunctionBodyEntry inp i = (do
      Emit.modify fun c => { c with offset := u32 c.offset }
      callback (.beginFunctionBody i)
      let bodySize ← inU32Leb128 inp
      let c ← Emit.get
      readLocalDecls inp
      readFunctionBody inp (u32 (u32 c.offset + bodySize))
      callback (.endFunctionBody i)) := by
  simp only [readFunctionBodyEntry, readLocalDecls, Emit.bind_bind]

/-- The callbacks for the declarations of the runs, the first of which is the `i`-th. -/
def declEvents : Nat → List (Nat × ValueType) → List Event
  | _, [] => []
  | i, r :: rs => .onLocalDecl i r.1 r.2 :: declEvents (i + 1) rs

theorem readLocalDecl_of_window {r : Nat × ValueType} (hcount : r.1 < maxU32)
    (hwrite : localDeclBytes (r.1, r.2.toType) = some bytes) (h : inp.window c = bytes ++ rest)
    (i : Nat) :
    ∃ offset, readLocalDecl inp i c =
      ([(offset, .onLocalDecl i r.1 r.2)], .ok ((), past c bytes)) := by
  simp only [localDeclBytes, Option.bind_eq_bind, Option.bind_eq_some_iff] at hwrite
  obtain ⟨count, hcountBytes, type, htype, heq⟩ := hwrite
  obtain rfl : count ++ type = bytes := Option.some.inj heq
  rw [List.append_assoc] at h
  have hn := inU32Leb128_of_window hcount hcountBytes h
  have ht := inConcreteType_of_window r.2 htype (window_past h)
  refine ⟨(past (past c count) type).offset, ?_⟩
  rw [readLocalDecl, Emit.bind_eq, Emit.bind_ok hn, Emit.bind_eq, Emit.bind_ok ht, past_append]
  rfl

theorem readLocalDecls_loop {rs : List (Nat × ValueType)} (hcounts : ∀ r ∈ rs, r.1 < maxU32)
    (hwrite : declsBytes (rs.map fun r => (r.1, r.2.toType)) = some bytes)
    (h : inp.window c = bytes ++ rest) (i : Nat) :
    ∃ es, Emit.forFrom (readLocalDecl inp) i rs.length c = (es, .ok ((), past c bytes)) ∧
      es.map Prod.snd = declEvents i rs := by
  induction rs generalizing c bytes i with
  | nil =>
    obtain rfl : [] = bytes := Option.some.inj hwrite
    exact ⟨[], rfl, rfl⟩
  | cons r rs ih =>
    simp only [List.map_cons, declsBytes, Option.bind_eq_bind, Option.bind_eq_some_iff] at hwrite
    obtain ⟨first, hfirst, others, hothers, heq⟩ := hwrite
    obtain rfl : first ++ others = bytes := Option.some.inj heq
    rw [List.append_assoc] at h
    obtain ⟨offset, hdecl⟩ := readLocalDecl_of_window (hcounts r List.mem_cons_self) hfirst h i
    obtain ⟨es, hloop, hes⟩ := ih (fun r hr => hcounts r (List.mem_cons_of_mem _ hr)) hothers
      (window_past h) (i + 1)
    refine ⟨(offset, .onLocalDecl i r.1 r.2) :: es, ?_, by simp [hes, declEvents]⟩
    rw [List.length_cons, Emit.forFrom, Emit.bind_ok hdecl, hloop, past_append]
    rfl

end Read

open Text.Linked in
/-- The AST reader appends the locals that the declarations stand for. -/
theorem runEvents_declEvents (rs : List (Nat × ValueType)) (i : Nat) {c : ReadContext}
    {p : Text.Linked.Pointer} (hp : c.currentFunc = some p) :
    runEvents astReader (declEvents i rs) c = .ok () { c with
      module := c.module.modifyFunc
        (fun func => { func with localTypes := func.localTypes ++ expand rs }) p } := by
  induction rs generalizing i c with
  | nil =>
    have hid : (fun func : Text.Linked.Func =>
        { func with localTypes := func.localTypes ++ expand [] }) = fun func => func := by
      funext func
      simp
    rw [hid, Text.Linked.Module.modifyFunc_id]
    rfl
  | cons r rs ih =>
    have hdecl : astReader (.onLocalDecl i r.1 r.2) c = .ok () { c with
        module := c.module.modifyFunc (fun func =>
          { func with localTypes := func.localTypes ++ List.replicate r.1 r.2 }) p } := by
      simp [astReader, Text.Linked.onLocalDecl, Callback.bind_run, hp, modifyModule]
    have hcomp : (fun func : Text.Linked.Func => { func with
        localTypes := func.localTypes ++ expand (r :: rs) }) = fun func => { func with
        localTypes := func.localTypes ++ List.replicate r.1 r.2 ++ expand rs } := by
      funext func
      rw [List.append_assoc]
      rfl
    rw [declEvents, runEvents_cons, hdecl, hcomp]
    refine (ih (i + 1) (c := { c with module := c.module.modifyFunc (fun func =>
      { func with localTypes := func.localTypes ++ List.replicate r.1 r.2 }) p }) hp).trans ?_
    rw [Text.Linked.Module.modifyFunc_modifyFunc]

/-- What is written is the run-length code of the locals, and the two readers take it back. -/
structure RoundTrips (w : LocalDecls) (localTypes : List ValueType) : Prop where
  runs : ∃ rs, IsRuns localTypes rs ∧ w.decls = rs.map fun r => (r.1, r.2.toType)
  count : w.localDeclCount = w.decls.length
  read : ∃ bytes, w.bytes = some bytes ∧ ∀ (inp : Input) c rest, inp.window c = bytes ++ rest →
    ∃ es, readLocalDecls inp c = (es, .ok ((), past c bytes)) ∧
      ∀ (rc : Text.Linked.ReadContext) p, rc.currentFunc = some p →
        runEvents Text.Linked.astReader (es.map Prod.snd) rc = .ok () { rc with
          module := rc.module.modifyFunc
            (fun func => { func with localTypes := func.localTypes ++ localTypes }) p }

theorem exists_u32Leb128Bytes {value : Nat} (h : value < maxU32) :
    ∃ bytes, wasmWriteU32Leb128 value = some bytes := by
  obtain ⟨bytes, hbytes, _⟩ := wasmWriteU32Leb128_spec (UInt32.ofNat value)
  rw [UInt32.toNat_ofNat_of_lt' h] at hbytes
  exact ⟨bytes, hbytes⟩

theorem exists_declsBytes {rs : List (Nat × ValueType)} (h : ∀ r ∈ rs, r.1 < maxU32) :
    ∃ bytes, declsBytes (rs.map fun r => (r.1, r.2.toType)) = some bytes := by
  induction rs with
  | nil => exact ⟨[], rfl⟩
  | cons r rs ih =>
    obtain ⟨count, hcount⟩ := exists_u32Leb128Bytes (h r List.mem_cons_self)
    obtain ⟨type, htype⟩ : ∃ bytes, wasmWriteI32Leb128 r.2.toType.code = some bytes := by
      cases r.2 <;> exact ⟨_, rfl⟩
    obtain ⟨rest, hrest⟩ := ih fun r hr => h r (List.mem_cons_of_mem _ hr)
    exact ⟨count ++ type ++ rest, by simp [declsBytes, localDeclBytes, hcount, htype, hrest]⟩

/-- The numbers that are written are `uint32_t`s. -/
theorem LoopsEnd.counts {numParams : Nat} {localTypes : List ValueType}
    (h : LoopsEnd numParams localTypes) :
    (∀ r ∈ runs localTypes, r.1 < maxU32) ∧ (runs localTypes).length < maxU32 := by
  have hlength : localTypes.length < maxU32 - 1 := by
    rcases h with rfl | h
    · decide
    · omega
  refine ⟨fun r hr => ?_, ?_⟩
  · have hle := (isRuns_runs localTypes).le_length hr
    omega
  · cases localTypes with
    | nil => decide
    | cons a l =>
      have hle := length_runsFrom_le a 1 l
      rw [runs]
      simp only [List.length_cons] at hlength
      omega

theorem roundTrips_of_loopsEnd {numParams : Nat} {localTypes : List ValueType}
    (h : LoopsEnd numParams localTypes) :
    RoundTrips { localDeclCount := (declsOf localTypes).length, decls := declsOf localTypes }
      localTypes := by
  have hruns := isRuns_runs localTypes
  obtain ⟨hcounts, hnumber⟩ := h.counts
  rw [← List.length_map (f := fun r : Nat × ValueType => (r.1, r.2.toType)), ← declsOf] at hnumber
  obtain ⟨count, hcount⟩ := exists_u32Leb128Bytes hnumber
  obtain ⟨decls, hdecls⟩ := exists_declsBytes hcounts
  refine ⟨⟨runs localTypes, hruns, rfl⟩, rfl, count ++ decls, ?_, ?_⟩
  · have hdecls' : declsBytes (declsOf localTypes) = some decls := hdecls
    simp only [LocalDecls.bytes, hcount, hdecls']
    rfl
  · intro inp c rest hwindow
    rw [List.append_assoc] at hwindow
    have hn := inU32Leb128_of_window hnumber hcount hwindow
    obtain ⟨es, hloop, hes⟩ := readLocalDecls_loop hcounts hdecls (window_past hwindow) 0
    have hlen : (declsOf localTypes).length = (runs localTypes).length := List.length_map _
    refine ⟨((past c count).offset, .onLocalDeclCount (runs localTypes).length) :: es, ?_, ?_⟩
    · rw [readLocalDecls, Emit.bind_eq, Emit.bind_ok hn, hlen, Emit.bind_eq,
        Emit.bind_ok (show callback _ (past c count) = (_, .ok ((), past c count)) from rfl), hloop,
        past_append]
      rfl
    · intro rc p hp
      rw [List.map_cons, hes, runEvents_cons]
      have hrun := runEvents_declEvents (runs localTypes) 0 hp
      rw [hruns.expands] at hrun
      exact hrun

theorem writeFuncLocals_roundTrips_iff (numParams : Nat) (localTypes : List ValueType) :
    (∃ fuel w, writeFuncLocals fuel numParams localTypes = some w ∧ RoundTrips w localTypes) ↔
      LoopsEnd numParams localTypes := by
  constructor
  · rintro ⟨fuel, w, hwrite, _⟩
    by_contra hnot
    rw [writeFuncLocals_eq_none hnot fuel] at hwrite
    cases hwrite
  · intro h
    exact ⟨_, _, writeFuncLocals_eq h, roundTrips_of_loopsEnd h⟩

/-- With 2³² - 1 locals the second loop counts past the largest `uint32_t`. -/
theorem writeFuncLocals_diverges :
    ¬∃ fuel w, writeFuncLocals fuel 0 (List.replicate (maxU32 - 1) .i32) = some w ∧
      RoundTrips w (List.replicate (maxU32 - 1) .i32) := by
  rintro ⟨fuel, w, hwrite, _⟩
  have hnot : ¬LoopsEnd 0 (List.replicate (maxU32 - 1) .i32) := by
    rw [LoopsEnd, List.replicate_eq_nil_iff, List.length_replicate, maxU32]
    omega
  rw [writeFuncLocals_eq_none hnot fuel] at hwrite
  cases hwrite

end BinaryWriter

end SexprWasm
