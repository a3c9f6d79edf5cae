import SexprWasm.BinaryReader.Protocol
import SexprWasm.BinaryWriter.WriterSound
import SexprWasm.Lib.Consume

/-!
# Reading what was written

One lemma for each function of the reader: on the bytes of a value it
returns the value, hands out the callbacks for it and stops right behind
them. The events of an entry are functions of the entry, beside the
bytes of `Encoding`.
-/

namespace SexprWasm

namespace BinaryWriter

open Ast BinaryReader Runs

section Fields

variable {inp : Input} {c : BinaryReader.Context} {α β : Type}

/-- `m` consumes `bs` and changes nothing but the offset. -/
def Reads (inp : Input) (m : ReadM α) (c : BinaryReader.Context) (bs : List UInt8)
    (es : List Event) (a : α) : Prop :=
  m.Takes inp.window Prod.snd c bs es a (past c bs)

theorem takes_callback (e : Event) :
    (callback e).Takes inp.window Prod.snd c [] [e] () c :=
  fun _ h => ⟨h, [(c.offset, e)], rfl, rfl⟩

namespace Reads

variable {m : ReadM α} {bs bs' : List UInt8} {es es' : List Event} {a : α} {b : β}

theorem of_eq (h : Reads inp m c bs es a) (hbs : bs = bs') (hes : es = es') :
    Reads inp m c bs' es' a :=
  hbs ▸ hes ▸ h

theorem pure (a : α) : Reads inp (Emit.pure a : ReadM α) c [] [] a := Emit.Takes.pure a c

section Bind

variable {f : α → ReadM β}

theorem bind (hm : Reads inp m c bs es a) (hf : Reads inp (f a) (past c bs) bs' es' b) :
    Reads inp (m >>= f) c (bs ++ bs') (es ++ es') b :=
  (Emit.Takes.bind hm hf).of_eq rfl rfl (past_append bs').symm

theorem field (hm : Reads inp m c bs [] a) (hf : Reads inp (f a) (past c bs) bs' es b) :
    Reads inp (m >>= f) c (bs ++ bs') es b :=
  hm.bind hf

theorem last (hm : Reads inp m c bs [] a) (hf : Reads inp (f a) (past c bs) [] es b) :
    Reads inp (m >>= f) c bs es b :=
  Emit.Takes.last hm hf

end Bind

theorem event {e : Event} {f : Unit → ReadM β} (hf : Reads inp (f ()) c bs es b) :
    Reads inp (callback e >>= f) c bs (e :: es) b :=
  Emit.Takes.event (takes_callback e) hf

theorem callback (e : Event) : Reads inp (callback e) c [] [e] () := takes_callback e

theorem checked {b : Bool} (h : b = true) : Reads inp (raiseErrorUnless b) c [] [] () :=
  Emit.Takes.check _ h c

theorem check {b : Bool} (h : b = true) {f : Unit → ReadM β} {v : β}
    (hf : Reads inp (f ()) c bs es v) : Reads inp (raiseErrorUnless b >>= f) c bs es v :=
  Emit.Takes.skip (checked h) hf

theorem get {f : BinaryReader.Context → ReadM β} (hf : Reads inp (f c) c bs es b) :
    Reads inp (Emit.get >>= f) c bs es b :=
  Emit.Takes.skip (Emit.Takes.get c) hf

end Reads

/-! ## Integers, bytes and strings -/

theorem window_le {bs rest : List UInt8} (hne : bs ≠ []) (h : inp.window c = bs ++ rest) :
    c.offset + bs.length ≤ c.readEnd := by
  have hlen := congrArg List.length h
  have hpos := List.length_pos_of_ne_nil hne
  rw [Input.window, List.length_take, List.length_append] at hlen
  omega

theorem reads_leb {read : List UInt8 → Option (Nat × Nat)} {bs : List UInt8} {value : Nat}
    (h : ∀ rest, read (bs ++ rest) = some (value, bs.length)) :
    Reads inp (inLeb inp read) c bs [] value := by
  intro rest hwindow
  refine ⟨window_past hwindow, [], ?_, rfl⟩
  rw [inLeb_eq, hwindow, h]
  rfl

theorem reads_unsigned {bs : List UInt8} {value : Nat} (henc : UnsignedEncoding 5 4 bs)
    (hvalue : lebUnsigned bs = value) : Reads inp (inU32Leb128 inp) c bs [] value :=
  reads_leb fun rest => wasmReadU32Leb128_iff.mpr ⟨bs, rest, rfl, rfl, henc, hvalue.symm⟩

theorem reads_var {v : Int} (h : IsU32 v) :
    Reads inp (inU32Leb128 inp) c (u32Leb v) [] v.toNat := by
  obtain ⟨-, henc, hvalue⟩ := u32Leb_spec v
  rw [Int.emod_eq_of_lt h.1 h.2] at hvalue
  exact reads_unsigned henc (by omega)

theorem reads_u32 {n : Nat} (h : n < maxU32) : Reads inp (inU32Leb128 inp) c (u32Leb n) [] n :=
  reads_var ⟨Int.natCast_nonneg n, Int.ofNat_lt.mpr h⟩

theorem unsigned_lengthLeb (options : WriteBinaryOptions) {n : Nat} (h : n < maxU32) :
    UnsignedEncoding 5 4 (lengthLeb options n) ∧ lebUnsigned (lengthLeb options n) = n := by
  rw [lengthLeb]
  split
  · obtain ⟨-, henc, hvalue⟩ := u32Leb_spec n
    rw [Int.emod_eq_of_lt (by omega) (by omega)] at hvalue
    exact ⟨henc, by omega⟩
  · obtain ⟨henc, hvalue⟩ := wasmWriteFixedU32Leb128_spec (UInt32.ofNat n)
    rw [UInt32.toNat_ofNat_of_lt' h] at henc hvalue
    exact ⟨henc, hvalue⟩

theorem reads_length {options : WriteBinaryOptions} {n : Nat} (h : n < maxU32) :
    Reads inp (inU32Leb128 inp) c (lengthLeb options n) [] n :=
  reads_unsigned (unsigned_lengthLeb options h).1 (unsigned_lengthLeb options h).2

/-- A byte that is written as such is an encoding for the reader. -/
theorem unsigned_byte {n : Nat} (h : n < 0x80) :
    UnsignedEncoding 5 4 [UInt8.ofNat n] ∧ lebUnsigned [UInt8.ofNat n] = n := by
  have hbyte : (UInt8.ofNat n).toNat = n := UInt8.toNat_ofNat_of_lt' (by
    simp only [UInt8.size]
    omega)
  refine ⟨⟨.last (by omega), by simp, by simp⟩, ?_⟩
  rw [lebUnsigned_cons, hbyte, Nat.mod_eq_of_lt h]
  rfl

theorem reads_byte {n : Nat} (h : n < 0x80) :
    Reads inp (inU32Leb128 inp) c [UInt8.ofNat n] [] n :=
  reads_unsigned (unsigned_byte h).1 (unsigned_byte h).2

theorem toSigned_eq_bmod {width n : Nat} (hwidth : 0 < width) (h : n < 2 ^ width) :
    toSigned width n = (n : Int).bmod (2 ^ width) := by
  have hdouble : 2 ^ (width - 1) * 2 = 2 ^ width := Nat.two_pow_pred_mul_two hwidth
  have hcast : ((2 ^ width : Nat) : Int) = 2 ^ width := by push_cast; rfl
  rw [toSigned, Int.bmod_def, Int.emod_eq_of_lt (by omega) (by omega), ← hcast]
  split <;> split <;> omega

theorem reads_i32 {n : Nat} (h : n < maxU32) : Reads inp (inI32Leb128 inp) c (i32Leb n) [] n := by
  obtain ⟨-, henc, hvalue⟩ := i32Leb_spec n
  refine reads_leb fun rest => wasmReadI32Leb128_iff.mpr ⟨_, rest, rfl, rfl, henc, h, ?_⟩
  rw [hvalue]
  exact toSigned_eq_bmod (by decide) h

theorem reads_i64 {n : Nat} (h : n < maxU64) : Reads inp (inI64Leb128 inp) c (i64Leb n) [] n := by
  obtain ⟨-, henc, hvalue⟩ := i64Leb_spec n
  refine reads_leb fun rest => wasmReadI64Leb128_iff.mpr ⟨_, rest, rfl, rfl, henc, h, ?_⟩
  rw [hvalue]
  exact toSigned_eq_bmod (by decide) h

theorem reads_raw {bs : List UInt8} (hle : ∀ rest, inp.window c = bs ++ rest →
    c.offset + bs.length ≤ c.readEnd) : Reads inp (inRaw inp bs.length) c bs [] bs := by
  intro rest hwindow
  refine ⟨window_past hwindow, [], ?_, rfl⟩
  have hfits := hle rest hwindow
  have htake : (inp.data.drop c.offset).take bs.length = bs := by
    have h := congrArg (List.take bs.length) hwindow
    rwa [Input.window, List.take_take, Nat.min_eq_left (by omega), List.take_left] at h
  rw [inRaw, if_neg (by omega)]
  simp only [htake, if_true]
  rfl

theorem leNat_eq : ∀ bs : List UInt8, leNat bs = Buffer.ofLeBytes bs
  | [] => rfl
  | b :: bs => by rw [leNat, Buffer.ofLeBytes, leNat_eq bs]

theorem reads_u8 {n : Nat} (h : n < 256) : Reads inp (inU8 inp) c [UInt8.ofNat n] [] n := by
  refine (reads_raw fun rest => window_le (List.cons_ne_nil _ _)).last ?_
  have hvalue : leNat [UInt8.ofNat n] = n := by
    simpa [leNat] using h
  rw [hvalue]
  exact Reads.pure n

theorem reads_le {size n : Nat} (hsize : size ≠ 0) (h : n < 256 ^ size) :
    Reads inp (do
      let bytes ← inRaw inp size
      return leNat bytes) c (Buffer.leBytes size n) [] n := by
  have hlen := Buffer.length_leBytes size n
  have hne : Buffer.leBytes size n ≠ [] := fun hnil => hsize (by rw [← hlen, hnil]; rfl)
  have hraw : Reads inp (inRaw inp (Buffer.leBytes size n).length) c _ [] _ :=
    reads_raw fun rest => window_le hne
  rw [hlen] at hraw
  refine hraw.last ?_
  have hvalue : leNat (Buffer.leBytes size n) = n := by
    rw [leNat_eq, Buffer.ofLeBytes_leBytes, Nat.mod_eq_of_lt h]
  rw [hvalue]
  exact Reads.pure n

theorem reads_f32 {n : Nat} (h : n < maxU32) :
    Reads inp (inF32 inp) c (Buffer.leBytes 4 n) [] n :=
  reads_le (by decide) (by rwa [show (256 : Nat) ^ 4 = maxU32 by decide])

theorem reads_f64 {n : Nat} (h : n < maxU64) :
    Reads inp (inF64 inp) c (Buffer.leBytes 8 n) [] n :=
  reads_le (by decide) (by rwa [show (256 : Nat) ^ 8 = maxU64 by decide])

/-- A number of bytes, and the bytes. -/
theorem reads_str {s : List UInt8} (h : s.length < maxU32) :
    Reads inp (inStr inp) c (strBytes s) [] s := by
  intro rest hwindow
  have hle : c.offset + (u32Leb s.length ++ s).length ≤ c.readEnd :=
    window_le (fun hnil => u32Leb_ne_nil _ (List.append_eq_nil_iff.mp hnil).1) hwindow
  rw [List.length_append] at hle
  have hraw : Reads inp (inRaw inp s.length) (past c (u32Leb s.length)) s [] s :=
    reads_raw fun _ _ => by simp only [past]; omega
  exact (reads_u32 h).field hraw rest hwindow

/-! ## Types -/

theorem reads_type (type : WasmType) : Reads inp (inType inp) c (typeBytes type) [] type.code := by
  have hrange : -128 ≤ type.code ∧ type.code ≤ 127 := by
    cases type <;> decide
  have hcode : cInt type.code = type.code := by
    cases type <;> decide
  obtain ⟨-, henc, hvalue⟩ := i32Leb_spec type.code
  rw [hcode] at hvalue
  obtain ⟨bits, hbits, hsigned⟩ := exists_bits 32 (show -2 ^ 31 ≤ type.code by omega)
    (show type.code < 2 ^ 31 by omega) (by decide)
  have hread : Reads inp (inI32Leb128 inp) c (typeBytes type) [] bits :=
    reads_leb fun rest => wasmReadI32Leb128_iff.mpr
      ⟨_, rest, rfl, rfl, henc, hbits, hsigned.trans hvalue.symm⟩
  refine hread.last (.check (by simp [hsigned, hrange]) ?_)
  rw [hsigned]
  exact Reads.pure _

theorem reads_valueType (type : ValueType) :
    Reads inp (inConcreteType inp) c (valueTypeBytes type) [] type := by
  refine (reads_type type.toType).last ?_
  rw [show concreteType? type.toType.code = some type from concreteType?_code type]
  exact Reads.pure type

theorem reads_sig {sig : List ValueType} (h : sig.length ≤ 1) :
    Reads inp (inInlineSig inp) c (sigBytes sig) [] sig := by
  rcases sig with _ | ⟨type, _ | ⟨_, _⟩⟩
  · exact (reads_type .void).last (.check rfl (.pure []))
  · refine (reads_type type.toType).last ?_
    rw [show concreteType? type.toType.code = some type from concreteType?_code type]
    exact Reads.pure [type]
  · simp at h

theorem foldl_past (encode : α → List UInt8) (xs : List α) :
    xs.foldl (fun c x => past c (encode x)) c = past c (xs.flatMap encode) := by
  induction xs generalizing c with
  | nil => rfl
  | cons x xs ih => rw [List.foldl_cons, ih, List.flatMap_cons, past_append]

theorem reads_collect {m : ReadM α} {encode : α → List UInt8} {xs : List α}
    (h : ∀ c, ∀ x ∈ xs, Reads inp m c (encode x) [] x) :
    Reads inp (Emit.collect m xs.length) c (xs.flatMap encode) [] xs :=
  (Emit.Takes.collect h).of_eq rfl rfl (foldl_past encode xs)

theorem reads_valueTypes (types : List ValueType) :
    Reads inp (Emit.collect (inConcreteType inp) types.length) c (types.flatMap valueTypeBytes) []
      types :=
  reads_collect fun _ type _ => reads_valueType type

/-! ## Tables, memories, globals -/

/-- Limits without a maximum are read with the maximum 0. -/
def readLimits (limits : Limits) : Limits :=
  if limits.hasMax then limits else { limits with max := 0 }

theorem flag_lt (b : Bool) : (if b then 1 else 0) < 2 := by
  cases b <;> decide

theorem flag_lt_maxU32 (b : Bool) : (if b then 0x1 else 0) < maxU32 :=
  (flag_lt b).trans (by decide)

theorem reads_table {limits : Limits} (h : TableOk limits) :
    Reads inp (readTable inp) c (tableBytes limits) [] (readLimits limits) := by
  obtain ⟨initial, max, _ | _⟩ := limits
  · refine (reads_type .anyfunc).field (.check rfl ((reads_u32 (flag_lt_maxU32 _)).field
      ((reads_u32 h.1).field ?_)))
    exact .pure _
  · obtain ⟨hle, hmax⟩ := h.2 rfl
    refine (reads_type .anyfunc).field (.check rfl ((reads_u32 (flag_lt_maxU32 _)).field
      ((reads_u32 h.1).field ((reads_u32 hmax).last (.check (by simpa using hle) ?_)))))
    exact .pure _

theorem wasmMaxPages_lt : wasmMaxPages < maxU32 := by decide

theorem reads_memory {limits : Limits} (h : MemoryOk limits) :
    Reads inp (readMemory inp) c (limitsBytes limits) [] (readLimits limits) := by
  have hlt := wasmMaxPages_lt
  obtain ⟨initial, max, _ | _⟩ := limits
  · refine (reads_u32 (flag_lt_maxU32 _)).field ((reads_u32 (lt_of_le_of_lt h.1 hlt)).field
      (.check (by simpa using h.1) ?_))
    exact .pure _
  · obtain ⟨hle, hmax⟩ := h.2 rfl
    refine (reads_u32 (flag_lt_maxU32 _)).field ((reads_u32 (lt_of_le_of_lt h.1 hlt)).field
      (.check (by simpa using h.1) ((reads_u32 (lt_of_le_of_lt hmax hlt)).last
        (.check (by simpa using hmax) (.check (by simpa using hle) ?_)))))
    exact .pure _

theorem reads_globalHeader (global : GlobalType) :
    Reads inp (readGlobalHeader inp) c (globalHeaderBytes global) []
      (global.type, global.mutable_) := by
  obtain ⟨type, _ | _⟩ := global
  · exact (reads_valueType type).field ((reads_u8 ((flag_lt _).trans (by decide))).last (.check rfl (.pure _)))
  · exact (reads_valueType type).field ((reads_u8 ((flag_lt _).trans (by decide))).last (.check rfl (.pure _)))

/-! ## Initializers -/

def constInit (const_ : Const) : InitExpr :=
  match const_.type with
  | .i32 => .i32Const const_.bits
  | .i64 => .i64Const const_.bits
  | .f32 => .f32Const const_.bits
  | .f64 => .f64Const const_.bits

/-- The instruction of a constant expression. -/
def initInstr? : ExprList → Option InitExpr
  | .expr (.const const_) .nil => some (constInit const_)
  | .expr (.getGlobal var) .nil => some (.getGlobal var.toNat)
  | _ => none

def initEvents (index : Nat) (expr : ExprList) : List Event :=
  (initInstr? expr).toList.map (.onInitExpr index)

theorem reads_opcode (op : WasmOpcode) : Reads inp (inU8 inp) c [opByte op] [] op.code :=
  reads_u8 (op.code_lt.trans (by decide))

/-- A constant, its callback, and the `end` behind it. -/
theorem reads_initConst {const_ : Const} (h : ConstOk const_) (index : Nat) :
    Reads inp (readInitExpr inp index) c (constBytes const_ ++ [opByte .end_])
      [.onInitExpr index (constInit const_)] () := by
  have hend : ∀ c, Reads inp (do
      let opcode ← inU8 inp
      raiseErrorUnless (opcode = WasmOpcode.end_.code)) c [opByte .end_] [] () := fun c =>
    (reads_opcode .end_).last (.checked (decide_eq_true rfl))
  obtain ⟨_ | _ | _ | _, bits⟩ := const_
  · have key : Reads inp (readInitExpr inp index) c
        ([opByte .i32Const] ++ (i32Leb bits ++ [opByte .end_]))
        [.onInitExpr index (.i32Const bits)] () := by
      refine (reads_opcode .i32Const).field ?_
      rw [if_neg (by decide), if_pos rfl]
      exact (reads_i32 h).field (.event (hend _))
    exact key.of_eq (List.append_assoc ..).symm rfl
  · have key : Reads inp (readInitExpr inp index) c
        ([opByte .i64Const] ++ (i64Leb bits ++ [opByte .end_]))
        [.onInitExpr index (.i64Const bits)] () := by
      refine (reads_opcode .i64Const).field ?_
      rw [if_neg (by decide), if_neg (by decide), if_pos rfl]
      exact (reads_i64 h).field (.event (hend _))
    exact key.of_eq (List.append_assoc ..).symm rfl
  · have key : Reads inp (readInitExpr inp index) c
        ([opByte .f32Const] ++ (Buffer.leBytes 4 bits ++ [opByte .end_]))
        [.onInitExpr index (.f32Const bits)] () := by
      refine (reads_opcode .f32Const).field ?_
      rw [if_neg (by decide), if_neg (by decide), if_neg (by decide), if_pos rfl]
      exact (reads_f32 h).field (.event (hend _))
    exact key.of_eq (List.append_assoc ..).symm rfl
  · have key : Reads inp (readInitExpr inp index) c
        ([opByte .f64Const] ++ (Buffer.leBytes 8 bits ++ [opByte .end_]))
        [.onInitExpr index (.f64Const bits)] () := by
      refine (reads_opcode .f64Const).field ?_
      rw [if_neg (by decide), if_neg (by decide), if_neg (by decide), if_neg (by decide), if_pos rfl]
      exact (reads_f64 h).field (.event (hend _))
    exact key.of_eq (List.append_assoc ..).symm rfl

theorem reads_initExpr {expr : ExprList} (h : InitExprOk expr) (index : Nat) :
    Reads inp (readInitExpr inp index) c (initExprBytes expr) (initEvents index expr) () := by
  have hsingle : ∀ e, initExprBytes (.expr e .nil) = exprBytes e ++ [opByte .end_] := fun e => by
    rw [initExprBytes, exprListBytes, exprListBytes, List.append_nil]
  unfold InitExprOk at h
  split at h
  · refine (reads_opcode .end_).last ?_
    rw [if_pos rfl]
    exact .pure ()
  · next const_ =>
    rw [hsingle]
    exact reads_initConst h index
  · next var =>
    have key : Reads inp (readInitExpr inp index) c
        ([opByte .getGlobal] ++ (u32Leb var ++ [opByte .end_]))
        [.onInitExpr index (.getGlobal var.toNat)] () := by
      refine (reads_opcode .getGlobal).field ?_
      rw [if_neg (by decide), if_neg (by decide), if_neg (by decide), if_neg (by decide),
        if_neg (by decide), if_pos rfl]
      exact (reads_var h).field (.event ((reads_opcode .end_).last (.checked (decide_eq_true rfl))))
    rw [hsingle]
    exact key.of_eq (List.append_assoc ..).symm rfl
  · exact h.elim

/-! ## Instructions -/

def constInstr (const_ : Const) : Instr :=
  match const_.type with
  | .i32 => .i32Const const_.bits
  | .i64 => .i64Const const_.bits
  | .f32 => .f32Const const_.bits
  | .f64 => .f64Const const_.bits

/-- The instruction that is written for an expression without a body. -/
def exprInstr : Expr → Instr
  | .unreachable => .unreachable
  | .nop => .nop
  | .br var => .br var.toNat
  | .brIf var => .brIf var.toNat
  | .brTable targets defaultTarget => .brTable (targets.map Int.toNat) defaultTarget.toNat
  | .return_ => .return_
  | .call var => .call var.toNat
  | .callIndirect var => .callIndirect var.toNat
  | .drop => .drop
  | .select => .select
  | .getLocal var => .getLocal var.toNat
  | .setLocal var => .setLocal var.toNat
  | .teeLocal var => .teeLocal var.toNat
  | .getGlobal var => .getGlobal var.toNat
  | .setGlobal var => .setGlobal var.toNat
  | .load opcode align offset =>
    .load opcode (log2U32 (wasmGetOpcodeAlignment opcode.1 align)) offset
  | .store opcode align offset =>
    .store opcode (log2U32 (wasmGetOpcodeAlignment opcode.1 align)) offset
  | .currentMemory => .currentMemory
  | .growMemory => .growMemory
  | .const const_ => constInstr const_
  | .unary opcode => .unary opcode
  | .binary opcode => .binary opcode
  | .compare opcode => .compare opcode
  | .convert opcode => .convert opcode

def constImmediate (const_ : Const) : List UInt8 :=
  match const_.type with
  | .i32 => i32Leb const_.bits
  | .i64 => i64Leb const_.bits
  | .f32 => Buffer.leBytes 4 const_.bits
  | .f64 => Buffer.leBytes 8 const_.bits

/-- What stands behind the opcode. -/
def immediateBytes : Expr → List UInt8
  | .br var | .brIf var | .call var | .getLocal var | .setLocal var | .teeLocal var
  | .getGlobal var | .setGlobal var => u32Leb var
  | .brTable targets defaultTarget =>
    u32Leb targets.length ++ (targets.flatMap u32Leb ++ u32Leb defaultTarget)
  | .callIndirect var => u32Leb var ++ u32Leb 0
  | .load opcode align offset | .store opcode align offset =>
    [UInt8.ofNat (log2U32 (wasmGetOpcodeAlignment opcode.1 align))] ++ u32Leb offset
  | .currentMemory | .growMemory => u32Leb 0
  | .const const_ => constImmediate const_
  | _ => []

theorem exprBytes_eq (e : Expr) :
    exprBytes e = [opByte (exprInstr e).opcode] ++ immediateBytes e := by
  cases e with
  | const const_ =>
    obtain ⟨_ | _ | _ | _, bits⟩ := const_ <;>
      simp only [exprBytes, constBytes, exprInstr, constInstr, Instr.opcode, immediateBytes,
        constImmediate]
  | _ => simp only [exprBytes, loadStoreBytes, exprInstr, Instr.opcode, immediateBytes,
      List.append_nil]

/-- The reader has seen the declarations of the module. -/
structure Counts (m : Module) (c : BinaryReader.Context) : Prop where
  sigs : c.numSignatures = m.funcTypes.length
  funcs : c.numTotalFuncs = m.funcDecls.length

theorem Counts.past {m : Module} (h : Counts m c) (bs : List UInt8) : Counts m (past c bs) :=
  ⟨h.sigs, h.funcs⟩

theorem readInstr_memory :
    (∀ opcode : OpcodeOf .load, readInstr inp opcode.1 = (do
      let alignmentLog2 ← inU32Leb128 inp
      let offset ← inU32Leb128 inp
      callback (.onExpr (.load opcode alignmentLog2 offset)))) ∧
    ∀ opcode : OpcodeOf .store, readInstr inp opcode.1 = (do
      let alignmentLog2 ← inU32Leb128 inp
      let offset ← inU32Leb128 inp
      callback (.onExpr (.store opcode alignmentLog2 offset))) := by
  constructor <;> rintro ⟨op, hop⟩ <;> unfold readInstr <;> split <;> rename_i hgroup <;> first
    | exact absurd (hop.symm.trans hgroup) (by decide)
    | rfl

theorem readInstr_plain :
    (∀ opcode : OpcodeOf .unary, readInstr inp opcode.1 = callback (.onExpr (.unary opcode))) ∧
    (∀ opcode : OpcodeOf .binary, readInstr inp opcode.1 = callback (.onExpr (.binary opcode))) ∧
    (∀ opcode : OpcodeOf .compare, readInstr inp opcode.1 = callback (.onExpr (.compare opcode))) ∧
    ∀ opcode : OpcodeOf .convert, readInstr inp opcode.1 = callback (.onExpr (.convert opcode)) := by
  refine ⟨?_, ?_, ?_, ?_⟩ <;> rintro ⟨op, hop⟩ <;> unfold readInstr <;> split <;>
    rename_i hgroup <;> first
    | exact absurd (hop.symm.trans hgroup) (by decide)
    | rfl

theorem log2_lt (opcode : WasmOpcode) (align : Nat) :
    log2U32 (wasmGetOpcodeAlignment opcode align) < 0x80 :=
  lt_of_le_of_lt (countLog2_le _ _) (by decide)

theorem collectTargets {targets : List Var} (h : ∀ var ∈ targets, IsU32 var) :
    Reads inp (Emit.collect (inU32Leb128 inp) targets.length) c (targets.flatMap u32Leb) []
      (targets.map Int.toNat) := by
  have hcast : ∀ var ∈ targets, ((var.toNat : Nat) : Int) = var := fun var hvar =>
    Int.toNat_of_nonneg (h var hvar).1
  have hbytes : (targets.map Int.toNat).flatMap (fun n : Nat => u32Leb n) = targets.flatMap u32Leb := by
    rw [List.flatMap_map]
    exact List.flatMap_congr fun var hvar => by rw [hcast var hvar]
  have hread : Reads inp (Emit.collect (inU32Leb128 inp) (targets.map Int.toNat).length) c
      ((targets.map Int.toNat).flatMap fun n : Nat => u32Leb n) [] (targets.map Int.toNat) := by
    refine reads_collect fun c n hn => ?_
    obtain ⟨var, hvar, rfl⟩ := List.mem_map.mp hn
    rw [hcast var hvar]
    exact reads_var (h var hvar)
  rwa [List.length_map, hbytes] at hread

variable {m : Module}

theorem toNat_lt_of_checkVar {size : Nat} {var : Int} (h : Validator.checkVar size var = true) :
    var.toNat < size ∧ IsU32 var := by
  obtain ⟨h0, hsize, hlt⟩ := checkVar_range h
  exact ⟨by omega, h0, hlt.trans (by decide)⟩

/-- The opcode and the immediates of an expression. -/
theorem reads_expr {e : Expr} (h : ExprOk m e) (hc : Counts m c)
    (hlt : (exprBytes e).length < maxU32) :
    Reads inp (readInstr inp (exprInstr e).opcode) c (immediateBytes e) [.onExpr (exprInstr e)]
      () := by
  cases e with
  | unreachable | nop | return_ | drop | select => exact .callback _
  | br var | brIf var | getLocal var | setLocal var | teeLocal var | getGlobal var | setGlobal var =>
    exact (reads_var h).last (.callback _)
  | brTable targets defaultTarget =>
    have hlength : targets.length < maxU32 := by
      have hle := @length_le_flatMap _ u32Leb targets fun _ _ => u32Leb_ne_nil _
      simp only [exprBytes, List.length_append] at hlt
      omega
    exact (reads_u32 hlength).field ((collectTargets h.1).field
      ((reads_var h.2).last (.callback _)))
  | call var =>
    obtain ⟨hfunc, hu32⟩ := toNat_lt_of_checkVar h
    refine (reads_var hu32).last (.get (.check ?_ (.callback _)))
    rw [(hc.past _).funcs]
    exact decide_eq_true hfunc
  | callIndirect var =>
    obtain ⟨hsig, hu32⟩ := toNat_lt_of_checkVar h
    refine (reads_var hu32).field (.get (.check ?_
      ((reads_u32 (show 0 < maxU32 by decide)).last (.check rfl (.callback _)))))
    rw [(hc.past _).sigs]
    exact decide_eq_true hsig
  | load opcode align offset =>
    simp only [exprInstr, Instr.opcode, readInstr_memory.1]
    exact (reads_byte (log2_lt _ _)).field ((reads_u32 h.2).last (.callback _))
  | store opcode align offset =>
    simp only [exprInstr, Instr.opcode, readInstr_memory.2]
    exact (reads_byte (log2_lt _ _)).field ((reads_u32 h.2).last (.callback _))
  | currentMemory | growMemory =>
    exact (reads_u32 (show 0 < maxU32 by decide)).last (.check rfl (.callback _))
  | const const_ =>
    have hconst : ConstOk const_ := h
    clear h hlt
    obtain ⟨_ | _ | _ | _, bits⟩ := const_
    · exact (reads_i32 hconst).last (.callback _)
    · exact (reads_i64 hconst).last (.callback _)
    · exact (reads_f32 hconst).last (.callback _)
    · exact (reads_f64 hconst).last (.callback _)
  | unary opcode =>
    simp only [exprInstr, Instr.opcode, readInstr_plain.1]
    exact .callback _
  | binary opcode =>
    simp only [exprInstr, Instr.opcode, readInstr_plain.2.1]
    exact .callback _
  | compare opcode =>
    simp only [exprInstr, Instr.opcode, readInstr_plain.2.2.1]
    exact .callback _
  | convert opcode =>
    simp only [exprInstr, Instr.opcode, readInstr_plain.2.2.2]
    exact .callback _

/-! ## Bodies -/

/-- The callbacks for an instruction. -/
def instrEvents (instr : Instr) : List Event := [.onOpcode instr.opcode.code, .onExpr instr]

def exprListEvents : ExprList → List Event
  | .nil => []
  | .expr e next => instrEvents (exprInstr e) ++ exprListEvents next
  | .block sig first next =>
    instrEvents (.block sig) ++ (exprListEvents first ++ (instrEvents .end_ ++ exprListEvents next))
  | .loop sig first next =>
    instrEvents (.loop sig) ++ (exprListEvents first ++ (instrEvents .end_ ++ exprListEvents next))
  | .if_ sig true_ false_ next =>
    instrEvents (.if_ sig) ++ (exprListEvents true_ ++
      ((if false_ ≠ .nil then instrEvents .else_ ++ exprListEvents false_ else []) ++
        (instrEvents .end_ ++ exprListEvents next)))

/-- A turn of the loop of `read_function_body`. -/
theorem readOpcodes_turn {endOffset fuel : Nat} {seenEndOpcode : Bool} {op : WasmOpcode}
    {rest : List UInt8} {next : ReadM Bool} (hoffset : c.offset < endOffset)
    (hwindow : inp.window c = [opByte op] ++ rest)
    (hnext : next = if op.group = .end_ ∧ (past c [opByte op]).offset = endOffset then
        readOpcodes inp endOffset fuel true
      else (readInstr inp op).bind fun _ => readOpcodes inp endOffset fuel seenEndOpcode) :
    readOpcodes inp endOffset (fuel + 1) seenEndOpcode c =
      (((past c [opByte op]).offset, .onOpcode op.code) :: (next (past c [opByte op])).1,
        (next (past c [opByte op])).2) := by
  subst hnext
  obtain ⟨-, tr, hop, htr⟩ := (@reads_opcode inp c op) rest hwindow
  obtain rfl : tr = [] := List.map_eq_nil_iff.mp htr
  have hcallback : callback (.onOpcode op.code) (past c [opByte op]) =
      ([((past c [opByte op]).offset, .onOpcode op.code)], .ok ((), past c [opByte op])) := rfl
  rw [readOpcodes, Emit.bind_eq, Emit.bind_ok (Emit.get_run c), if_pos hoffset, Emit.bind_eq,
    Emit.bind_ok hop, Emit.bind_eq, Emit.bind_ok hcallback, WasmOpcode.ofCode?_code]
  by_cases hend : op.group = .end_ ∧ (past c [opByte op]).offset = endOffset
  · simp only [Emit.bind_eq, Emit.bind_ok (Emit.get_run _), if_pos hend]
    rfl
  · simp only [Emit.bind_eq, Emit.bind_ok (Emit.get_run _), if_neg hend]
    rfl

theorem readOpcodes_done {endOffset fuel : Nat} {seenEndOpcode : Bool}
    (h : ¬c.offset < endOffset) :
    readOpcodes inp endOffset fuel seenEndOpcode c = ([], .ok (seenEndOpcode, c)) := by
  cases fuel with
  | zero => rfl
  | succ fuel =>
    rw [readOpcodes, Emit.bind_eq, Emit.bind_ok (Emit.get_run c), if_neg h]
    rfl

/-- The loop of `read_function_body` goes over `bs`, which is not the end of the body, in as many
turns as it needs. -/
def Steps (inp : Input) (endOffset : Nat) (c : BinaryReader.Context) (bs : List UInt8)
    (es : List Event) : Prop :=
  ∀ rest, inp.window c = bs ++ rest → c.offset + bs.length < endOffset →
    ∀ fuel seenEndOpcode, endOffset ≤ c.offset + fuel → ∃ fuel' tr,
      endOffset ≤ (past c bs).offset + fuel' ∧ tr.map Prod.snd = es ∧
      readOpcodes inp endOffset fuel seenEndOpcode c =
        (tr ++ (readOpcodes inp endOffset fuel' seenEndOpcode (past c bs)).1,
          (readOpcodes inp endOffset fuel' seenEndOpcode (past c bs)).2)

namespace Steps

variable {endOffset : Nat} {bs bs' : List UInt8} {es es' : List Event}

theorem nil : Steps inp endOffset c [] [] :=
  fun _ _ _ fuel _ hfuel => ⟨fuel, [], hfuel, rfl, rfl⟩

theorem append (h : Steps inp endOffset c bs es)
    (h' : Steps inp endOffset (past c bs) bs' es') :
    Steps inp endOffset c (bs ++ bs') (es ++ es') := by
  intro rest hwindow hend fuel seenEndOpcode hfuel
  rw [List.append_assoc] at hwindow
  rw [List.length_append] at hend
  obtain ⟨fuel', tr, hfuel', rfl, hrun⟩ := h _ hwindow (by omega) fuel seenEndOpcode hfuel
  obtain ⟨fuel'', tr', hfuel'', rfl, hrun'⟩ := h' _ (window_past hwindow)
    (by simp only [past]; omega) fuel' seenEndOpcode hfuel'
  refine ⟨fuel'', tr ++ tr', ?_, List.map_append, ?_⟩
  · rwa [past_append]
  · rw [hrun, hrun', past_append, List.append_assoc]

/-- One turn for an opcode and its immediates. -/
theorem instr {i : Instr}
    (h : Reads inp (readInstr inp i.opcode) (past c [opByte i.opcode]) bs [.onExpr i] ()) :
    Steps inp endOffset c ([opByte i.opcode] ++ bs) (instrEvents i) := by
  intro rest hwindow hend fuel seenEndOpcode hfuel
  rw [List.append_assoc] at hwindow
  rw [List.length_append, List.length_singleton] at hend
  obtain ⟨fuel, rfl⟩ : ∃ fuel', fuel = fuel' + 1 := ⟨fuel - 1, by omega⟩
  have hmore : ¬(i.opcode.group = .end_ ∧ (past c [opByte i.opcode]).offset = endOffset) := by
    simp only [past, List.length_singleton]
    omega
  have hturn := @readOpcodes_turn inp c endOffset fuel seenEndOpcode i.opcode _ _ (by omega)
    hwindow (if_neg hmore).symm
  obtain ⟨-, tr, hinstr, htr⟩ := h rest (window_past hwindow)
  rw [Emit.bind_ok hinstr, ← past_append] at hturn
  refine ⟨fuel, ((past c [opByte i.opcode]).offset, .onOpcode i.opcode.code) :: tr, ?_, ?_, hturn⟩
  · simp only [past, List.length_append, List.length_singleton]
    omega
  · rw [List.map_cons, htr]
    rfl

theorem of_lt (h : bs.length < endOffset → Steps inp endOffset c bs es) :
    Steps inp endOffset c bs es :=
  fun rest hwindow hend => h (by omega) rest hwindow hend

theorem of_eq (h : Steps inp endOffset c bs es) (hbs : bs = bs') (hes : es = es') :
    Steps inp endOffset c bs' es' :=
  hbs ▸ hes ▸ h

/-- An opcode without immediates. -/
theorem bare {i : Instr} (h : readInstr inp i.opcode = BinaryReader.callback (.onExpr i)) :
    Steps inp endOffset c [opByte i.opcode] (instrEvents i) := by
  have hread : Reads inp (readInstr inp i.opcode) (past c [opByte i.opcode]) [] [.onExpr i] () :=
    h ▸ .callback _
  exact (instr hread).of_eq (List.append_nil _) rfl

theorem end_ : Steps inp endOffset c [opByte .end_] (instrEvents .end_) := bare (i := .end_) rfl

end Steps

theorem steps_exprList {endOffset : Nat} (hmax : endOffset ≤ maxU32) : ∀ {l : ExprList},
    ExprListOk m l → ∀ {c : BinaryReader.Context}, Counts m c →
      Steps inp endOffset c (exprListBytes l) (exprListEvents l)
  | .nil, _, _, _ => .nil
  | .expr e next, h, c, hc => by
      rw [exprListBytes, exprBytes_eq]
      refine (Steps.of_lt fun hlt => Steps.instr (reads_expr h.1 (hc.past _) ?_)).append
        (steps_exprList hmax h.2 (hc.past _))
      rw [exprBytes_eq]
      exact hlt.trans_le hmax
  | .block sig first next, h, c, hc => by
      have hsig : Steps inp endOffset c ([opByte .block] ++ sigBytes sig) (instrEvents (.block sig)) :=
        Steps.instr (i := .block sig) ((reads_sig h.1).last (.callback _))
      exact (hsig.append ((steps_exprList hmax h.2.1 (hc.past _)).append
        (Steps.end_.append (steps_exprList hmax h.2.2 (((hc.past _).past _).past _))))).of_eq
          (List.append_assoc ..) rfl
  | .loop sig first next, h, c, hc => by
      have hsig : Steps inp endOffset c ([opByte .loop] ++ sigBytes sig) (instrEvents (.loop sig)) :=
        Steps.instr (i := .loop sig) ((reads_sig h.1).last (.callback _))
      exact (hsig.append ((steps_exprList hmax h.2.1 (hc.past _)).append
        (Steps.end_.append (steps_exprList hmax h.2.2 (((hc.past _).past _).past _))))).of_eq
          (List.append_assoc ..) rfl
  | .if_ sig true_ false_ next, h, c, hc => by
      have hsig : Steps inp endOffset c ([opByte .if_] ++ sigBytes sig) (instrEvents (.if_ sig)) :=
        Steps.instr (i := .if_ sig) ((reads_sig h.1).last (.callback _))
      have helse : ∀ {c}, Counts m c → Steps inp endOffset c
          (if false_ ≠ .nil then [opByte .else_] ++ exprListBytes false_ else [])
          (if false_ ≠ .nil then instrEvents .else_ ++ exprListEvents false_ else []) := fun {c} hc => by
        split
        · exact (Steps.bare (i := .else_) rfl).append
            (steps_exprList hmax h.2.2.1 (hc.past _))
        · exact .nil
      exact (hsig.append ((steps_exprList hmax h.2.1 (hc.past _)).append
        ((helse ((hc.past _).past _)).append (Steps.end_.append
          (steps_exprList hmax h.2.2.2 ((((hc.past _).past _).past _).past _)))))).of_eq
          (List.append_assoc ..) rfl

/-- The loop ends at the `end` that is the last byte. -/
theorem reads_opcodes {l : ExprList} (h : ExprListOk m l) (hc : Counts m c) {endOffset : Nat}
    (hmax : endOffset ≤ maxU32) (hend : c.offset + (exprListBytes l).length + 1 = endOffset) :
    Reads inp (readOpcodes inp endOffset endOffset false) c (exprListBytes l ++ [opByte .end_])
      (exprListEvents l ++ [.onOpcode WasmOpcode.end_.code]) true := by
  intro rest hwindow
  refine ⟨window_past hwindow, ?_⟩
  rw [List.append_assoc] at hwindow
  obtain ⟨fuel, tr, hfuel, htr, hrun⟩ := steps_exprList hmax h hc _ hwindow (by omega)
    endOffset false (by omega)
  obtain ⟨fuel, rfl⟩ : ∃ fuel', fuel = fuel' + 1 := ⟨fuel - 1, by simp only [past] at hfuel; omega⟩
  have hoffset : (past (past c (exprListBytes l)) [opByte .end_]).offset = endOffset := hend
  have hturn := @readOpcodes_turn inp (past c (exprListBytes l)) _ fuel false .end_ rest _
    (by simp only [past]; omega) (window_past hwindow) (if_pos ⟨rfl, hoffset⟩).symm
  rw [hturn, readOpcodes_done (Nat.not_lt.mpr hoffset.ge), ← past_append] at hrun
  refine ⟨_, hrun, ?_⟩
  rw [List.map_append, htr]
  rfl

theorem reads_functionBody {l : ExprList} (h : ExprListOk m l) (hc : Counts m c) {endOffset : Nat}
    (hmax : endOffset ≤ maxU32) (hend : c.offset + (exprListBytes l).length + 1 = endOffset) :
    Reads inp (readFunctionBody inp endOffset) c (exprListBytes l ++ [opByte .end_])
      (exprListEvents l ++ [.onOpcode WasmOpcode.end_.code]) () := by
  have hoffset : (past c (exprListBytes l ++ [opByte .end_])).offset = endOffset := by
    simp only [past, List.length_append, List.length_singleton]
    omega
  exact ((reads_opcodes h hc hmax hend).bind (.get (.check (decide_eq_true hoffset)
    (.checked rfl)))).of_eq (List.append_nil _) (List.append_nil _)

end Fields

end BinaryWriter

end SexprWasm
