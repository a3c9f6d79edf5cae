import SexprWasm.Ast.Validator
import SexprWasm.BinaryWriter.LocalsSound
import SexprWasm.BinaryWriter.StreamSound
import SexprWasm.BinaryWriter.Writer

/-!
# The bytes of a module

What `write_module` puts into the buffer, as a function of the module:
every length is the length of what follows it, and nothing is patched.
`Encodable` collects what the writer and the reader ask of a module, and
`writeModule_writes` says that the writer's bytes are these.
-/

namespace SexprWasm

namespace BinaryWriter

open Ast WasmStream Runs

/-! ## Bytes -/

def opByte (op : WasmOpcode) : UInt8 := UInt8.ofNat op.code

def typeBytes (type : WasmType) : List UInt8 := i32Leb type.code

def valueTypeBytes (type : ValueType) : List UInt8 := typeBytes type

def strBytes (s : List UInt8) : List UInt8 := u32Leb s.length ++ s

def sigBytes : List ValueType → List UInt8
  | [] => typeBytes .void
  | [type] => typeBytes type
  | _ => [0xff]

def loadStoreBytes (opcode : WasmOpcode) (align offset : Nat) : List UInt8 :=
  [opByte opcode] ++ ([UInt8.ofNat (log2U32 (wasmGetOpcodeAlignment opcode align))] ++
    u32Leb offset)

def constBytes (const_ : Const) : List UInt8 :=
  match const_.type with
  | .i32 => [opByte .i32Const] ++ i32Leb const_.bits
  | .i64 => [opByte .i64Const] ++ i64Leb const_.bits
  | .f32 => [opByte .f32Const] ++ Buffer.leBytes 4 const_.bits
  | .f64 => [opByte .f64Const] ++ Buffer.leBytes 8 const_.bits

def exprBytes : Expr → List UInt8
  | .unreachable => [opByte .unreachable]
  | .nop => [opByte .nop]
  | .br var => [opByte .br] ++ u32Leb var
  | .brIf var => [opByte .brIf] ++ u32Leb var
  | .brTable targets defaultTarget =>
    [opByte .brTable] ++ (u32Leb targets.length ++ (targets.flatMap u32Leb ++ u32Leb defaultTarget))
  | .return_ => [opByte .return_]
  | .call var => [opByte .call] ++ u32Leb var
  | .callIndirect var => [opByte .callIndirect] ++ (u32Leb var ++ u32Leb 0)
  | .drop => [opByte .drop]
  | .select => [opByte .select]
  | .getLocal var => [opByte .getLocal] ++ u32Leb var
  | .setLocal var => [opByte .setLocal] ++ u32Leb var
  | .teeLocal var => [opByte .teeLocal] ++ u32Leb var
  | .getGlobal var => [opByte .getGlobal] ++ u32Leb var
  | .setGlobal var => [opByte .setGlobal] ++ u32Leb var
  | .load opcode align offset => loadStoreBytes opcode.1 align offset
  | .store opcode align offset => loadStoreBytes opcode.1 align offset
  | .currentMemory => [opByte .currentMemory] ++ u32Leb 0
  | .growMemory => [opByte .growMemory] ++ u32Leb 0
  | .const const_ => constBytes const_
  | .unary opcode => [opByte opcode.1]
  | .binary opcode => [opByte opcode.1]
  | .compare opcode => [opByte opcode.1]
  | .convert opcode => [opByte opcode.1]

def exprListBytes : ExprList → List UInt8
  | .nil => []
  | .expr e next => exprBytes e ++ exprListBytes next
  | .block sig first next =>
    [opByte .block] ++ (sigBytes sig ++ (exprListBytes first ++ ([opByte .end_] ++
      exprListBytes next)))
  | .loop sig first next =>
    [opByte .loop] ++ (sigBytes sig ++ (exprListBytes first ++ ([opByte .end_] ++
      exprListBytes next)))
  | .if_ sig true_ false_ next =>
    [opByte .if_] ++ (sigBytes sig ++ (exprListBytes true_ ++
      ((if false_ ≠ .nil then [opByte .else_] ++ exprListBytes false_ else []) ++
        ([opByte .end_] ++ exprListBytes next))))

def initExprBytes (expr : ExprList) : List UInt8 := exprListBytes expr ++ [opByte .end_]

/-- The runs of equal locals, each with its length. -/
def localsBytes (localTypes : List ValueType) : List UInt8 :=
  u32Leb (runs localTypes).length ++
    (runs localTypes).flatMap fun r => u32Leb r.1 ++ valueTypeBytes r.2

def bodyBytes (func : Func) : List UInt8 :=
  localsBytes func.localTypes ++ (exprListBytes func.firstExpr ++ [opByte .end_])

def limitsBytes (limits : Limits) : List UInt8 :=
  u32Leb (if limits.hasMax then 0x1 else 0 : Nat) ++ (u32Leb limits.initial ++
    if limits.hasMax then u32Leb limits.max else [])

def tableBytes (elemLimits : Limits) : List UInt8 := typeBytes .anyfunc ++ limitsBytes elemLimits

def globalHeaderBytes (global : GlobalType) : List UInt8 :=
  valueTypeBytes global.type ++ [UInt8.ofNat (if global.mutable_ then 1 else 0)]

def funcTypeBytes (sig : FuncSignature) : List UInt8 :=
  typeBytes .func ++ (u32Leb sig.paramTypes.length ++
    (sig.paramTypes.flatMap valueTypeBytes ++ (u32Leb sig.resultTypes.length ++
      sig.resultTypes.flatMap valueTypeBytes)))

section Module

variable (options : WriteBinaryOptions) (m : Module)

def importKindBytes : ImportKind → List UInt8
  | .func decl => u32Leb (wasmGetFuncTypeIndexByDecl m decl)
  | .table elemLimits => tableBytes elemLimits
  | .memory pageLimits => limitsBytes pageLimits
  | .global type => globalHeaderBytes type

def importBytes (import_ : Import) : List UInt8 :=
  strBytes import_.moduleName ++ (strBytes import_.fieldName ++
    ([UInt8.ofNat (ImportKind.externalKind import_.kind).code] ++ importKindBytes m import_.kind))

def functionBytes (func : Func) : List UInt8 := u32Leb (wasmGetFuncTypeIndexByDecl m func.decl)

def globalBytes (global : Global) : List UInt8 :=
  globalHeaderBytes global.toGlobalType ++ initExprBytes global.initExpr

def exportBytes (export_ : Export) : List UInt8 :=
  strBytes export_.name ++ ([UInt8.ofNat export_.kind.code] ++ u32Leb export_.var)

def elemSegmentBytes (segment : ElemSegment) : List UInt8 :=
  u32Leb segment.tableVar ++ (initExprBytes segment.offset ++ (u32Leb segment.vars.length ++
    segment.vars.flatMap u32Leb))

def functionBodyBytes (func : Func) : List UInt8 := sized options (bodyBytes func)

def dataSegmentBytes (segment : DataSegment) : List UInt8 :=
  u32Leb segment.memoryVar ++ (initExprBytes segment.offset ++ strBytes segment.data)

def sectionBytes (sectionCode : BinarySection) (payload : List UInt8) : List UInt8 :=
  UInt8.ofNat sectionCode.sectionCode :: sized options payload

def vectorBytes {α : Type} (sectionCode : BinarySection) (entries : List α)
    (entryBytes : α → List UInt8) : List UInt8 :=
  if entries = [] then []
  else sectionBytes options sectionCode (u32Leb entries.length ++ entries.flatMap entryBytes)

def startBytes : List UInt8 :=
  match m.starts.getLast? with
  | none => []
  | some var => sectionBytes options .start (u32Leb var)

/-- The sections without the one for names. -/
def sectionsBytes : List UInt8 :=
  vectorBytes options .type m.funcTypes funcTypeBytes ++
    (vectorBytes options .import_ m.imports (importBytes m) ++
    (vectorBytes options .function m.funcs (functionBytes m) ++
    (vectorBytes options .table m.tables tableBytes ++
    (vectorBytes options .memory m.memories limitsBytes ++
    (vectorBytes options .global m.globals globalBytes ++
    (vectorBytes options .export_ m.exports exportBytes ++
    (startBytes options m ++
    (vectorBytes options .elem m.elemSegments elemSegmentBytes ++
    (vectorBytes options .code m.funcs (functionBodyBytes options) ++
    vectorBytes options .data m.dataSegments dataSegmentBytes)))))))))

def headerBytes : List UInt8 :=
  Buffer.leBytes 4 wasmBinaryMagic ++ Buffer.leBytes 4 wasmBinaryVersion

end Module

/-! ## What can be encoded -/

/-- The value is that of an `uint32_t`. -/
def IsU32 (v : Int) : Prop := 0 ≤ v ∧ v < maxU32

/-- An alignment is natural or a power of two. -/
def AlignOk (align : Nat) : Prop := align = useNaturalAlignment ∨ ∃ k < 32, align = 2 ^ k

def ConstOk (const_ : Const) : Prop :=
  const_.bits < match const_.type with
    | .i32 | .f32 => maxU32
    | .i64 | .f64 => maxU64

section Module

variable (m : Module)

/-- What an expression without a body holds fits its encoding, and the indices of functions and
signatures are in range. -/
def ExprOk : Expr → Prop
  | .br var => IsU32 var
  | .brIf var => IsU32 var
  | .brTable targets defaultTarget => (∀ var ∈ targets, IsU32 var) ∧ IsU32 defaultTarget
  | .call var => Validator.checkVar m.funcDecls.length var = true
  | .callIndirect var => Validator.checkVar m.funcTypes.length var = true
  | .getLocal var => IsU32 var
  | .setLocal var => IsU32 var
  | .teeLocal var => IsU32 var
  | .getGlobal var => IsU32 var
  | .setGlobal var => IsU32 var
  | .load _ align offset => AlignOk align ∧ offset < maxU32
  | .store _ align offset => AlignOk align ∧ offset < maxU32
  | .const const_ => ConstOk const_
  | _ => True

def ExprListOk : ExprList → Prop
  | .nil => True
  | .expr e next => ExprOk m e ∧ ExprListOk next
  | .block sig first next => sig.length ≤ 1 ∧ ExprListOk first ∧ ExprListOk next
  | .loop sig first next => sig.length ≤ 1 ∧ ExprListOk first ∧ ExprListOk next
  | .if_ sig true_ false_ next =>
    sig.length ≤ 1 ∧ ExprListOk true_ ∧ ExprListOk false_ ∧ ExprListOk next

/-- A constant expression: a constant, the value of a global, or nothing. -/
def InitExprOk : ExprList → Prop
  | .nil => True
  | .expr (.const const_) .nil => ConstOk const_
  | .expr (.getGlobal var) .nil => IsU32 var
  | _ => False

/-- A declaration has the signature it refers to, or one that the module declares. -/
def DeclOk (decl : FuncDeclaration) : Prop :=
  match decl.typeVar with
  | some var => Validator.checkVar m.funcTypes.length var = true ∧
      m.funcTypes[var.toNat]? = some decl.sig
  | none => decl.sig ∈ m.funcTypes

def TableOk (elemLimits : Limits) : Prop :=
  elemLimits.initial < maxU32 ∧
    (elemLimits.hasMax = true → elemLimits.initial ≤ elemLimits.max ∧ elemLimits.max < maxU32)

def MemoryOk (pageLimits : Limits) : Prop :=
  pageLimits.initial ≤ wasmMaxPages ∧
    (pageLimits.hasMax = true →
      pageLimits.initial ≤ pageLimits.max ∧ pageLimits.max ≤ wasmMaxPages)

def ImportKindOk : ImportKind → Prop
  | .func decl => DeclOk m decl
  | .table elemLimits => TableOk elemLimits
  | .memory pageLimits => MemoryOk pageLimits
  | .global _ => True

/-- What the format has room for, and what the two programs look at: indices are in range, a
signature and a block have at most one result, and there is at most one table, one memory and one
start function. -/
structure Encodable : Prop where
  results : ∀ sig ∈ m.funcTypes, sig.resultTypes.length ≤ 1
  imports : ∀ i ∈ m.imports, ImportKindOk m i.kind
  decls : ∀ f ∈ m.funcs, DeclOk m f.decl
  locals : ∀ f ∈ m.funcs, LoopsEnd f.decl.sig.paramTypes.length f.localTypes
  bodies : ∀ f ∈ m.funcs, ExprListOk m f.firstExpr
  oneTable : m.tables.length ≤ 1
  tables : ∀ t ∈ m.tables, TableOk t
  oneMemory : m.memories.length ≤ 1
  memories : ∀ t ∈ m.memories, MemoryOk t
  globals : ∀ g ∈ m.globals, InitExprOk g.initExpr
  exports : ∀ e ∈ m.exports, Validator.checkVar (spaceSize m e.kind) e.var = true
  oneStart : m.starts.length ≤ 1
  starts : ∀ var ∈ m.starts, Validator.checkVar m.funcDecls.length var = true
  elemTables : ∀ s ∈ m.elemSegments, Validator.checkVar m.allTables.length s.tableVar = true
  elemOffsets : ∀ s ∈ m.elemSegments, InitExprOk s.offset
  elemVars : ∀ s ∈ m.elemSegments, ∀ var ∈ s.vars,
    Validator.checkVar m.funcDecls.length var = true
  dataMemories : ∀ s ∈ m.dataSegments, Validator.checkVar m.allMemories.length s.memoryVar = true
  dataOffsets : ∀ s ∈ m.dataSegments, InitExprOk s.offset

end Module

theorem checkVar_range {size : Nat} {var : Int} (h : Validator.checkVar size var = true) :
    0 ≤ var ∧ var < size ∧ var < 2 ^ 31 := by
  have hlt := cInt_lt size
  have hle : cInt size ≤ size := by
    rw [cInt, Int.bmod_def, maxU32]
    split <;> omega
  simp only [Validator.checkVar, Bool.decide_and, Bool.and_eq_true, decide_eq_true_eq] at h
  exact ⟨h.1, lt_of_lt_of_le h.2 hle, h.2.trans hlt⟩

end BinaryWriter

end SexprWasm
