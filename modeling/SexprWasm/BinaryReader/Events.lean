import SexprWasm.Common

/-!
# The events of the binary reader

One constructor for each callback of `WasmBinaryReader` that a client
of the interpreter loader or of the AST reader gets, with the
callback's arguments. The callbacks for instructions are the
constructors of `Instr`; one that serves a group of opcodes is called
with an opcode of that group. Types a callback gets have passed
`is_concrete_type`, so they are value types; a block signature is the
list of its `num_types` result types. `on_opcode_bare` and its siblings,
which repeat an instruction's immediates for the disassembler, are left
out.
-/

namespace SexprWasm

/-- The `on_*_expr` callbacks. -/
inductive Instr
  | unreachable
  | nop
  | block (sig : List ValueType)
  | loop (sig : List ValueType)
  | if_ (sig : List ValueType)
  | else_
  | end_
  | br (depth : Nat)
  | brIf (depth : Nat)
  | brTable (targetDepths : List Nat) (defaultTargetDepth : Nat)
  | return_
  | call (funcIndex : Nat)
  | callIndirect (sigIndex : Nat)
  | drop
  | select
  | getLocal (localIndex : Nat)
  | setLocal (localIndex : Nat)
  | teeLocal (localIndex : Nat)
  | getGlobal (globalIndex : Nat)
  | setGlobal (globalIndex : Nat)
  | load (opcode : OpcodeOf .load) (alignmentLog2 offset : Nat)
  | store (opcode : OpcodeOf .store) (alignmentLog2 offset : Nat)
  | currentMemory
  | growMemory
  | i32Const (value : Nat)
  | i64Const (value : Nat)
  | f32Const (valueBits : Nat)
  | f64Const (valueBits : Nat)
  | unary (opcode : OpcodeOf .unary)
  | binary (opcode : OpcodeOf .binary)
  | compare (opcode : OpcodeOf .compare)
  | convert (opcode : OpcodeOf .convert)
  deriving DecidableEq, Repr

/-- The `on_init_expr_*` callbacks, without the index of the segment or global. -/
inductive InitExpr
  | i32Const (value : Nat)
  | i64Const (value : Nat)
  | f32Const (valueBits : Nat)
  | f64Const (valueBits : Nat)
  | getGlobal (globalIndex : Nat)
  deriving DecidableEq, Repr

inductive Event
  | beginModule (version : Nat)
  | endModule
  | beginSection (sectionCode size : Nat)
  | beginCustomSection (size : Nat) (sectionName : List UInt8)
  | endCustomSection
  | beginNamesSection (size : Nat)
  | onFunctionNamesCount (count : Nat)
  | onFunctionName (index : Nat) (name : List UInt8)
  | onLocalNamesCount (index count : Nat)
  | onLocalName (funcIndex localIndex : Nat) (name : List UInt8)
  | endNamesSection
  | beginSignatureSection (size : Nat)
  | onSignatureCount (count : Nat)
  | onSignature (index : Nat) (paramTypes resultTypes : List ValueType)
  | endSignatureSection
  | beginImportSection (size : Nat)
  | onImportCount (count : Nat)
  | onImport (index : Nat) (moduleName fieldName : List UInt8)
  | onImportFunc (index sigIndex : Nat)
  | onImportTable (index : Nat) (elemLimits : Limits)
  | onImportMemory (index : Nat) (pageLimits : Limits)
  | onImportGlobal (index : Nat) (type : ValueType) (mutable_ : Bool)
  | endImportSection
  | beginFunctionSignaturesSection (size : Nat)
  | onFunctionSignaturesCount (count : Nat)
  | onFunctionSignature (index sigIndex : Nat)
  | endFunctionSignaturesSection
  | beginTableSection (size : Nat)
  | onTableCount (count : Nat)
  | onTable (index : Nat) (elemLimits : Limits)
  | endTableSection
  | beginMemorySection (size : Nat)
  | onMemoryCount (count : Nat)
  | onMemory (index : Nat) (pageLimits : Limits)
  | endMemorySection
  | beginGlobalSection (size : Nat)
  | onGlobalCount (count : Nat)
  | beginGlobal (index : Nat) (type : ValueType) (mutable_ : Bool)
  | beginGlobalInitExpr (index : Nat)
  | endGlobalInitExpr (index : Nat)
  | endGlobal (index : Nat)
  | endGlobalSection
  | beginExportSection (size : Nat)
  | onExportCount (count : Nat)
  | onExport (index : Nat) (kind : ExternalKind) (itemIndex : Nat) (name : List UInt8)
  | endExportSection
  | beginStartSection (size : Nat)
  | onStartFunction (funcIndex : Nat)
  | endStartSection
  | beginFunctionBodiesSection (size : Nat)
  | onFunctionBodiesCount (count : Nat)
  | beginFunctionBody (index : Nat)
  | onLocalDeclCount (count : Nat)
  | onLocalDecl (declIndex count : Nat) (type : ValueType)
  | onOpcode (opcode : Nat)
  | onExpr (instr : Instr)
  | endFunctionBody (index : Nat)
  | endFunctionBodiesSection
  | beginElemSection (size : Nat)
  | onElemSegmentCount (count : Nat)
  | beginElemSegment (index tableIndex : Nat)
  | beginElemSegmentInitExpr (index : Nat)
  | endElemSegmentInitExpr (index : Nat)
  | onElemSegmentFunctionIndexCount (index count : Nat)
  | onElemSegmentFunctionIndex (index funcIndex : Nat)
  | endElemSegment (index : Nat)
  | endElemSection
  | beginDataSection (size : Nat)
  | onDataSegmentCount (count : Nat)
  | beginDataSegment (index memoryIndex : Nat)
  | beginDataSegmentInitExpr (index : Nat)
  | endDataSegmentInitExpr (index : Nat)
  | onDataSegmentData (index : Nat) (data : List UInt8)
  | endDataSegment (index : Nat)
  | endDataSection
  | onInitExpr (index : Nat) (expr : InitExpr)
  deriving DecidableEq, Repr

end SexprWasm
