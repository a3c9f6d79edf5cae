import SexprWasm.Leb128
import SexprWasm.BinaryReader.Events
import SexprWasm.Lib.Callback

/-!
# The binary reader

`binary-reader.c`: a function for each of its functions, over a state
`Context` that holds the fields of the C `Context` and a byte string
that does not change. A `CALLBACK` is an emitted event; a `RAISE_ERROR`
is the failure `error`, which ends the run as `longjmp` does. A failing
callback raises an error too, so a client's run is the run of the
client's callbacks over the emitted events (`wasmReadBinary`). An event
comes with the `offset` of the context it is called in, which
`get_user_context` hands to the client.

`offset` and `read_end` are positions in the whole input. Offsets the
code section holds in `uint32_t` are cut to 32 bits. Reading outside the
input is the failure `overrun`; it has no counterpart in the source,
where it would be an out-of-bounds access.
-/

namespace SexprWasm

inductive ReadFailure
  | error
  | overrun
  deriving DecidableEq, Repr

/-- `WasmReadBinaryOptions`; logging does not change what is read. -/
structure ReadBinaryOptions where
  readDebugNames : Bool
  deriving DecidableEq, Repr

namespace BinaryReader

def binaryMagic : Nat := 0x6d736100
def binaryVersion : Nat := 0x0d
def limitsHasMaxFlag : Nat := 0x1
def numBinarySections : Nat := 12

/-- `WASM_BINARY_SECTION_NAME`. -/
def binarySectionName : List UInt8 := [0x6e, 0x61, 0x6d, 0x65]

structure Input where
  data : List UInt8
  options : ReadBinaryOptions

structure Context where
  offset : Nat
  readEnd : Nat
  lastKnownSectionCode : Nat
  numSignatures : Nat
  numImports : Nat
  numFuncImports : Nat
  numTableImports : Nat
  numMemoryImports : Nat
  numGlobalImports : Nat
  numFunctionSignatures : Nat
  numTables : Nat
  numMemories : Nat
  numGlobals : Nat
  numExports : Nat
  numFunctionBodies : Nat
  deriving DecidableEq, Repr

def Context.numTotalFuncs (c : Context) : Nat := c.numFuncImports + c.numFunctionSignatures
def Context.numTotalTables (c : Context) : Nat := c.numTableImports + c.numTables
def Context.numTotalMemories (c : Context) : Nat := c.numMemoryImports + c.numMemories
def Context.numTotalGlobals (c : Context) : Nat := c.numGlobalImports + c.numGlobals

abbrev ReadM (α : Type) : Type := Emit (Nat × Event) ReadFailure Context α

def raiseError {α : Type} : ReadM α := Emit.fail .error

def raiseErrorUnless (c : Bool) : ReadM Unit := Emit.check c .error

def callback (e : Event) : ReadM Unit := fun c => ([(c.offset, e)], .ok ((), c))

variable (inp : Input)

/-! ## Fixed-width values, LEB128 values, strings -/

/-- `IN_SIZE`, and the byte ranges of `in_str` and `in_bytes`. -/
def inRaw (size : Nat) : ReadM (List UInt8) := fun c =>
  if c.offset + size > c.readEnd then ([], .error .error)
  else
    let bytes := (inp.data.drop c.offset).take size
    if bytes.length = size then ([], .ok (bytes, { c with offset := c.offset + size }))
    else ([], .error .overrun)

/-- A little-endian value. -/
def leNat : List UInt8 → Nat
  | [] => 0
  | b :: bs => b.toNat + 0x100 * leNat bs

def inU8 : ReadM Nat := do
  let bytes ← inRaw inp 1
  return leNat bytes

def inU32 : ReadM Nat := do
  let bytes ← inRaw inp 4
  return leNat bytes

def inF32 : ReadM Nat := inU32 inp

def inF64 : ReadM Nat := do
  let bytes ← inRaw inp 8
  return leNat bytes

/-- The LEB128 readers see the bytes from the offset to `read_end`. -/
def inLeb (read : List UInt8 → Option (Nat × Nat)) : ReadM Nat := fun c =>
  match read ((inp.data.drop c.offset).take (c.readEnd - c.offset)) with
  | none => ([], .error .error)
  | some (value, bytesRead) => ([], .ok (value, { c with offset := c.offset + bytesRead }))

def inU32Leb128 : ReadM Nat := inLeb inp wasmReadU32Leb128

def inI32Leb128 : ReadM Nat := inLeb inp wasmReadI32Leb128

def inI64Leb128 : ReadM Nat := inLeb inp wasmReadI64Leb128

/-- `in_type`: the code of a type, in the range of a signed byte. -/
def inType : ReadM Int := do
  let value ← inI32Leb128 inp
  let type := toSigned 32 value
  raiseErrorUnless (-128 ≤ type ∧ type ≤ 127)
  return type

def inConcreteType : ReadM ValueType := do
  let type ← inType inp
  match concreteType? type with
  | some t => return t
  | none => raiseError

/-- A block signature type (`is_inline_sig_type`), as its list of results. -/
def inInlineSig : ReadM (List ValueType) := do
  let type ← inType inp
  match concreteType? type with
  | some t => return [t]
  | none =>
    raiseErrorUnless (type = WasmType.void.code)
    return []

def inStr : ReadM (List UInt8) := do
  let strLen ← inU32Leb128 inp
  inRaw inp strLen

def inBytes : ReadM (List UInt8) := do
  let dataSize ← inU32Leb128 inp
  inRaw inp dataSize

/-! ## Entries shared by several sections -/

def readInitExpr (index : Nat) : ReadM Unit := do
  let opcode ← inU8 inp
  if opcode = WasmOpcode.end_.code then return ()
  else do
    if opcode = WasmOpcode.i32Const.code then
      let value ← inI32Leb128 inp
      callback (.onInitExpr index (.i32Const value))
    else if opcode = WasmOpcode.i64Const.code then
      let value ← inI64Leb128 inp
      callback (.onInitExpr index (.i64Const value))
    else if opcode = WasmOpcode.f32Const.code then
      let valueBits ← inF32 inp
      callback (.onInitExpr index (.f32Const valueBits))
    else if opcode = WasmOpcode.f64Const.code then
      let valueBits ← inF64 inp
      callback (.onInitExpr index (.f64Const valueBits))
    else if opcode = WasmOpcode.getGlobal.code then
      let globalIndex ← inU32Leb128 inp
      callback (.onInitExpr index (.getGlobal globalIndex))
    else raiseError
    let opcode ← inU8 inp
    raiseErrorUnless (opcode = WasmOpcode.end_.code)

def readTable : ReadM Limits := do
  let elemType ← inType inp
  raiseErrorUnless (elemType = WasmType.anyfunc.code)
  let flags ← inU32Leb128 inp
  let initial ← inU32Leb128 inp
  if flags % 2 = limitsHasMaxFlag then
    let max ← inU32Leb128 inp
    raiseErrorUnless (initial ≤ max)
    return { initial, max, hasMax := true }
  else return { initial, max := 0, hasMax := false }

def readMemory : ReadM Limits := do
  let flags ← inU32Leb128 inp
  let initial ← inU32Leb128 inp
  raiseErrorUnless (initial ≤ wasmMaxPages)
  if flags % 2 = limitsHasMaxFlag then
    let max ← inU32Leb128 inp
    raiseErrorUnless (max ≤ wasmMaxPages)
    raiseErrorUnless (initial ≤ max)
    return { initial, max, hasMax := true }
  else return { initial, max := 0, hasMax := false }

def readGlobalHeader : ReadM (ValueType × Bool) := do
  let globalType ← inConcreteType inp
  let mutable_ ← inU8 inp
  raiseErrorUnless (mutable_ ≤ 1)
  return (globalType, mutable_ = 1)

/-! ## Function bodies -/

/-- The immediates of an opcode other than `end`, and its callback: the switch of
`read_function_body`. -/
def readInstr (opcode : WasmOpcode) : ReadM Unit :=
  match hgroup : opcode.group with
  | .unreachable => callback (.onExpr .unreachable)
  | .block => do
    let sig ← inInlineSig inp
    callback (.onExpr (.block sig))
  | .loop => do
    let sig ← inInlineSig inp
    callback (.onExpr (.loop sig))
  | .if_ => do
    let sig ← inInlineSig inp
    callback (.onExpr (.if_ sig))
  | .else_ => callback (.onExpr .else_)
  | .select => callback (.onExpr .select)
  | .br => do
    let depth ← inU32Leb128 inp
    callback (.onExpr (.br depth))
  | .brIf => do
    let depth ← inU32Leb128 inp
    callback (.onExpr (.brIf depth))
  | .brTable => do
    let numTargets ← inU32Leb128 inp
    let targetDepths ← Emit.collect (inU32Leb128 inp) numTargets
    let defaultTargetDepth ← inU32Leb128 inp
    callback (.onExpr (.brTable targetDepths defaultTargetDepth))
  | .return_ => callback (.onExpr .return_)
  | .nop => callback (.onExpr .nop)
  | .drop => callback (.onExpr .drop)
  | .end_ => callback (.onExpr .end_)
  | .i32Const => do
    let value ← inI32Leb128 inp
    callback (.onExpr (.i32Const value))
  | .i64Const => do
    let value ← inI64Leb128 inp
    callback (.onExpr (.i64Const value))
  | .f32Const => do
    let valueBits ← inF32 inp
    callback (.onExpr (.f32Const valueBits))
  | .f64Const => do
    let valueBits ← inF64 inp
    callback (.onExpr (.f64Const valueBits))
  | .getGlobal => do
    let globalIndex ← inU32Leb128 inp
    callback (.onExpr (.getGlobal globalIndex))
  | .getLocal => do
    let localIndex ← inU32Leb128 inp
    callback (.onExpr (.getLocal localIndex))
  | .setGlobal => do
    let globalIndex ← inU32Leb128 inp
    callback (.onExpr (.setGlobal globalIndex))
  | .setLocal => do
    let localIndex ← inU32Leb128 inp
    callback (.onExpr (.setLocal localIndex))
  | .call => do
    let funcIndex ← inU32Leb128 inp
    let c ← Emit.get
    raiseErrorUnless (funcIndex < c.numTotalFuncs)
    callback (.onExpr (.call funcIndex))
  | .callIndirect => do
    let sigIndex ← inU32Leb128 inp
    let c ← Emit.get
    raiseErrorUnless (sigIndex < c.numSignatures)
    let reserved ← inU32Leb128 inp
    raiseErrorUnless (reserved = 0)
    callback (.onExpr (.callIndirect sigIndex))
  | .teeLocal => do
    let localIndex ← inU32Leb128 inp
    callback (.onExpr (.teeLocal localIndex))
  | .load => do
    let alignmentLog2 ← inU32Leb128 inp
    let offset ← inU32Leb128 inp
    callback (.onExpr (.load ⟨opcode, hgroup⟩ alignmentLog2 offset))
  | .store => do
    let alignmentLog2 ← inU32Leb128 inp
    let offset ← inU32Leb128 inp
    callback (.onExpr (.store ⟨opcode, hgroup⟩ alignmentLog2 offset))
  | .currentMemory => do
    let reserved ← inU32Leb128 inp
    raiseErrorUnless (reserved = 0)
    callback (.onExpr .currentMemory)
  | .growMemory => do
    let reserved ← inU32Leb128 inp
    raiseErrorUnless (reserved = 0)
    callback (.onExpr .growMemory)
  | .binary => callback (.onExpr (.binary ⟨opcode, hgroup⟩))
  | .compare => callback (.onExpr (.compare ⟨opcode, hgroup⟩))
  | .unary => callback (.onExpr (.unary ⟨opcode, hgroup⟩))
  | .convert => callback (.onExpr (.convert ⟨opcode, hgroup⟩))

/-- The loop of `read_function_body`; the result is `seen_end_opcode`. Each iteration
reads at least one byte below `endOffset`, so `endOffset` iterations are enough. -/
def readOpcodes (endOffset : Nat) : Nat → Bool → ReadM Bool
  | 0, seenEndOpcode => return seenEndOpcode
  | fuel + 1, seenEndOpcode => do
    let c ← Emit.get
    if c.offset < endOffset then do
      let opcode ← inU8 inp
      callback (.onOpcode opcode)
      match WasmOpcode.ofCode? opcode with
      | none => raiseError
      | some op =>
        let c ← Emit.get
        if op.group = .end_ ∧ c.offset = endOffset then readOpcodes endOffset fuel true
        else do
          readInstr inp op
          readOpcodes endOffset fuel seenEndOpcode
    else return seenEndOpcode

def readFunctionBody (endOffset : Nat) : ReadM Unit := do
  let seenEndOpcode ← readOpcodes inp endOffset endOffset false
  let c ← Emit.get
  raiseErrorUnless (c.offset = endOffset)
  raiseErrorUnless seenEndOpcode

/-! ## Sections -/

/-- `strncmp(a, b, a.length) == 0` for a string `b` that a NUL ends. -/
def strncmpEq : List UInt8 → List UInt8 → Bool
  | [], _ => true
  | a :: _, [] => a = 0
  | a :: as, b :: bs => a = b && (a = 0 || strncmpEq as bs)

def readFunctionNames (i : Nat) : ReadM Unit := do
  let functionName ← inStr inp
  callback (.onFunctionName i functionName)
  let numLocals ← inU32Leb128 inp
  callback (.onLocalNamesCount i numLocals)
  Emit.forFrom (fun j => do
    let localName ← inStr inp
    callback (.onLocalName i j localName)) 0 numLocals

def readCustomSection (sectionSize : Nat) : ReadM Unit := do
  let sectionName ← inStr inp
  callback (.beginCustomSection sectionSize sectionName)
  let c ← Emit.get
  if inp.options.readDebugNames ∧ c.lastKnownSectionCode ≥ 2 ∧
      strncmpEq sectionName binarySectionName then
    callback (.beginNamesSection sectionSize)
    let numFunctions ← inU32Leb128 inp
    raiseErrorUnless (numFunctions ≤ c.numTotalFuncs)
    callback (.onFunctionNamesCount numFunctions)
    Emit.forFrom (readFunctionNames inp) 0 numFunctions
    callback .endNamesSection
  else
    -- an unknown custom section, skip it
    Emit.modify fun c => { c with offset := c.readEnd }
  callback .endCustomSection

def readSignature (i : Nat) : ReadM Unit := do
  let form ← inType inp
  raiseErrorUnless (form = WasmType.func.code)
  let numParams ← inU32Leb128 inp
  let paramTypes ← Emit.collect (inConcreteType inp) numParams
  let numResults ← inU32Leb128 inp
  raiseErrorUnless (numResults ≤ 1)
  let resultTypes ← Emit.collect (inConcreteType inp) numResults
  callback (.onSignature i paramTypes resultTypes)

def readTypeSection (sectionSize : Nat) : ReadM Unit := do
  callback (.beginSignatureSection sectionSize)
  let count ← inU32Leb128 inp
  Emit.modify fun c => { c with numSignatures := count }
  callback (.onSignatureCount count)
  Emit.forFrom (readSignature inp) 0 count
  callback .endSignatureSection

def readImport (i : Nat) : ReadM Unit := do
  let moduleName ← inStr inp
  let fieldName ← inStr inp
  callback (.onImport i moduleName fieldName)
  let kind ← inU32Leb128 inp
  if kind = ExternalKind.func.code then
    let sigIndex ← inU32Leb128 inp
    let c ← Emit.get
    raiseErrorUnless (sigIndex < c.numSignatures)
    callback (.onImportFunc i sigIndex)
    Emit.modify fun c => { c with numFuncImports := c.numFuncImports + 1 }
  else if kind = ExternalKind.table.code then
    let elemLimits ← readTable inp
    callback (.onImportTable i elemLimits)
    Emit.modify fun c => { c with numTableImports := c.numTableImports + 1 }
  else if kind = ExternalKind.memory.code then
    let pageLimits ← readMemory inp
    callback (.onImportMemory i pageLimits)
    Emit.modify fun c => { c with numMemoryImports := c.numMemoryImports + 1 }
  else if kind = ExternalKind.global.code then
    let (type, mutable_) ← readGlobalHeader inp
    callback (.onImportGlobal i type mutable_)
    Emit.modify fun c => { c with numGlobalImports := c.numGlobalImports + 1 }
  else raiseError

def readImportSection (sectionSize : Nat) : ReadM Unit := do
  callback (.beginImportSection sectionSize)
  let count ← inU32Leb128 inp
  Emit.modify fun c => { c with numImports := count }
  callback (.onImportCount count)
  Emit.forFrom (readImport inp) 0 count
  callback .endImportSection

def readFunctionSection (sectionSize : Nat) : ReadM Unit := do
  callback (.beginFunctionSignaturesSection sectionSize)
  let count ← inU32Leb128 inp
  Emit.modify fun c => { c with numFunctionSignatures := count }
  callback (.onFunctionSignaturesCount count)
  Emit.forFrom (fun i => do
    let sigIndex ← inU32Leb128 inp
    let c ← Emit.get
    raiseErrorUnless (sigIndex < c.numSignatures)
    callback (.onFunctionSignature i sigIndex)) 0 count
  callback .endFunctionSignaturesSection

def readTableSection (sectionSize : Nat) : ReadM Unit := do
  callback (.beginTableSection sectionSize)
  let count ← inU32Leb128 inp
  Emit.modify fun c => { c with numTables := count }
  raiseErrorUnless (count ≤ 1)
  callback (.onTableCount count)
  Emit.forFrom (fun i => do
    let elemLimits ← readTable inp
    callback (.onTable i elemLimits)) 0 count
  callback .endTableSection

def readMemorySection (sectionSize : Nat) : ReadM Unit := do
  callback (.beginMemorySection sectionSize)
  let count ← inU32Leb128 inp
  Emit.modify fun c => { c with numMemories := count }
  raiseErrorUnless (count ≤ 1)
  callback (.onMemoryCount count)
  Emit.forFrom (fun i => do
    let pageLimits ← readMemory inp
    callback (.onMemory i pageLimits)) 0 count
  callback .endMemorySection

def readGlobal (i : Nat) : ReadM Unit := do
  let (type, mutable_) ← readGlobalHeader inp
  callback (.beginGlobal i type mutable_)
  callback (.beginGlobalInitExpr i)
  readInitExpr inp i
  callback (.endGlobalInitExpr i)
  callback (.endGlobal i)

def readGlobalSection (sectionSize : Nat) : ReadM Unit := do
  callback (.beginGlobalSection sectionSize)
  let count ← inU32Leb128 inp
  Emit.modify fun c => { c with numGlobals := count }
  callback (.onGlobalCount count)
  Emit.forFrom (readGlobal inp) 0 count
  callback .endGlobalSection

def readExport (i : Nat) : ReadM Unit := do
  let name ← inStr inp
  let externalKind ← inU8 inp
  raiseErrorUnless (externalKind < 4)
  let itemIndex ← inU32Leb128 inp
  let c ← Emit.get
  if externalKind = ExternalKind.func.code then
    raiseErrorUnless (itemIndex < c.numTotalFuncs)
    callback (.onExport i .func itemIndex name)
  else if externalKind = ExternalKind.table.code then
    raiseErrorUnless (itemIndex < c.numTotalTables)
    callback (.onExport i .table itemIndex name)
  else if externalKind = ExternalKind.memory.code then
    raiseErrorUnless (itemIndex < c.numTotalMemories)
    callback (.onExport i .memory itemIndex name)
  else
    raiseErrorUnless (itemIndex < c.numTotalGlobals)
    callback (.onExport i .global itemIndex name)

def readExportSection (sectionSize : Nat) : ReadM Unit := do
  callback (.beginExportSection sectionSize)
  let count ← inU32Leb128 inp
  Emit.modify fun c => { c with numExports := count }
  callback (.onExportCount count)
  Emit.forFrom (readExport inp) 0 count
  callback .endExportSection

def readStartSection (sectionSize : Nat) : ReadM Unit := do
  callback (.beginStartSection sectionSize)
  let funcIndex ← inU32Leb128 inp
  let c ← Emit.get
  raiseErrorUnless (funcIndex < c.numTotalFuncs)
  callback (.onStartFunction funcIndex)
  callback .endStartSection

def readElemSegment (i : Nat) : ReadM Unit := do
  let tableIndex ← inU32Leb128 inp
  callback (.beginElemSegment i tableIndex)
  callback (.beginElemSegmentInitExpr i)
  readInitExpr inp i
  callback (.endElemSegmentInitExpr i)
  let numFunctionIndexes ← inU32Leb128 inp
  callback (.onElemSegmentFunctionIndexCount i numFunctionIndexes)
  Emit.forFrom (fun _ => do
    let funcIndex ← inU32Leb128 inp
    callback (.onElemSegmentFunctionIndex i funcIndex)) 0 numFunctionIndexes
  callback (.endElemSegment i)

def readElemSection (sectionSize : Nat) : ReadM Unit := do
  callback (.beginElemSection sectionSize)
  let numElemSegments ← inU32Leb128 inp
  callback (.onElemSegmentCount numElemSegments)
  let c ← Emit.get
  raiseErrorUnless (numElemSegments = 0 ∨ 0 < c.numTotalTables)
  Emit.forFrom (readElemSegment inp) 0 numElemSegments
  callback .endElemSection

def readLocalDecl (k : Nat) : ReadM Unit := do
  let numLocalTypes ← inU32Leb128 inp
  let localType ← inConcreteType inp
  callback (.onLocalDecl k numLocalTypes localType)

def readFunctionBodyEntry (i : Nat) : ReadM Unit := do
  -- func_offset is a uint32_t
  Emit.modify fun c => { c with offset := u32 c.offset }
  callback (.beginFunctionBody i)
  let bodySize ← inU32Leb128 inp
  let c ← Emit.get
  let endOffset := u32 (u32 c.offset + bodySize)
  let numLocalDecls ← inU32Leb128 inp
  callback (.onLocalDeclCount numLocalDecls)
  Emit.forFrom (readLocalDecl inp) 0 numLocalDecls
  readFunctionBody inp endOffset
  callback (.endFunctionBody i)

def readCodeSection (sectionSize : Nat) : ReadM Unit := do
  callback (.beginFunctionBodiesSection sectionSize)
  let count ← inU32Leb128 inp
  Emit.modify fun c => { c with numFunctionBodies := count }
  let c ← Emit.get
  raiseErrorUnless (c.numFunctionSignatures = c.numFunctionBodies)
  callback (.onFunctionBodiesCount count)
  Emit.forFrom (readFunctionBodyEntry inp) 0 count
  callback .endFunctionBodiesSection

def readDataSegment (i : Nat) : ReadM Unit := do
  let memoryIndex ← inU32Leb128 inp
  callback (.beginDataSegment i memoryIndex)
  callback (.beginDataSegmentInitExpr i)
  readInitExpr inp i
  callback (.endDataSegmentInitExpr i)
  let data ← inBytes inp
  callback (.onDataSegmentData i data)
  callback (.endDataSegment i)

def readDataSection (sectionSize : Nat) : ReadM Unit := do
  callback (.beginDataSection sectionSize)
  let numDataSegments ← inU32Leb128 inp
  callback (.onDataSegmentCount numDataSegments)
  let c ← Emit.get
  raiseErrorUnless (numDataSegments = 0 ∨ 0 < c.numTotalMemories)
  Emit.forFrom (readDataSegment inp) 0 numDataSegments
  callback .endDataSection

/-- The switch of `read_sections`. -/
def readSectionPayload (sectionCode sectionSize : Nat) : ReadM Unit :=
  match sectionCode with
  | 0 => readCustomSection inp sectionSize
  | 1 => readTypeSection inp sectionSize
  | 2 => readImportSection inp sectionSize
  | 3 => readFunctionSection inp sectionSize
  | 4 => readTableSection inp sectionSize
  | 5 => readMemorySection inp sectionSize
  | 6 => readGlobalSection inp sectionSize
  | 7 => readExportSection inp sectionSize
  | 8 => readStartSection inp sectionSize
  | 9 => readElemSection inp sectionSize
  | 10 => readCodeSection inp sectionSize
  | 11 => readDataSection inp sectionSize
  | _ => raiseError

def readSection : ReadM Unit := do
  -- reset read_end to the full data size so the next section can be read
  Emit.modify fun c => { c with readEnd := inp.data.length }
  let sectionCode ← inU32Leb128 inp
  let sectionSize ← inU32Leb128 inp
  Emit.modify fun c => { c with readEnd := c.offset + sectionSize }
  let c ← Emit.get
  raiseErrorUnless (c.readEnd ≤ inp.data.length)
  raiseErrorUnless (c.lastKnownSectionCode = numBinarySections ∨ sectionCode = 0 ∨
    c.lastKnownSectionCode < sectionCode)
  callback (.beginSection sectionCode sectionSize)
  readSectionPayload inp sectionCode sectionSize
  let c ← Emit.get
  raiseErrorUnless (c.offset = c.readEnd)
  if sectionCode ≠ 0 then
    Emit.modify fun c => { c with lastKnownSectionCode := sectionCode }

/-- `read_sections`. A section takes at least two bytes, so the length of the input
bounds the number of iterations. -/
def readSections : Nat → ReadM Unit
  | 0 => return ()
  | fuel + 1 => do
    let c ← Emit.get
    if c.offset < inp.data.length then do
      readSection inp
      readSections fuel
    else return ()

def readModule : ReadM Unit := do
  let magic ← inU32 inp
  raiseErrorUnless (magic = binaryMagic)
  let version ← inU32 inp
  raiseErrorUnless (version = binaryVersion)
  callback (.beginModule version)
  readSections inp inp.data.length
  callback .endModule

def initialContext : Context where
  offset := 0
  readEnd := inp.data.length
  lastKnownSectionCode := numBinarySections
  numSignatures := 0
  numImports := 0
  numFuncImports := 0
  numTableImports := 0
  numMemoryImports := 0
  numGlobalImports := 0
  numFunctionSignatures := 0
  numTables := 0
  numMemories := 0
  numGlobals := 0
  numExports := 0
  numFunctionBodies := 0

/-- The callbacks of the whole input with their offsets, up to its first error. -/
def trace : List (Nat × Event) := (readModule inp (initialContext inp)).1

def events : List Event := (trace inp).map Prod.snd

end BinaryReader

/-- `wasm_read_binary`: the client's callbacks over the events, and the reader's own
error if none of them failed. -/
def wasmReadBinary {σ : Type} (reader : Event → Callback σ Unit) (options : ReadBinaryOptions)
    (data : List UInt8) : Callback σ Unit := fun s =>
  let inp : BinaryReader.Input := { data, options }
  match runEvents reader (BinaryReader.events inp) s with
  | .ok _ s' =>
      match (BinaryReader.readModule inp (BinaryReader.initialContext inp)).2 with
      | .ok _ => .ok () s'
      | .error .error => .error s'
      | .error .overrun => .abort
  | .error s' => .error s'
  | .abort => .abort

theorem wasmReadBinary_eq_ok {σ : Type} {reader : Event → Callback σ Unit}
    {options : ReadBinaryOptions} {data : List UInt8} {s s' : σ} {u : Unit} :
    wasmReadBinary reader options data s = .ok u s' ↔
      runEvents reader (BinaryReader.events { data, options }) s = .ok () s' ∧
        ∃ c, (BinaryReader.readModule { data, options }
          (BinaryReader.initialContext { data, options })).2 = .ok ((), c) := by
  unfold wasmReadBinary
  cases hrun : runEvents reader (BinaryReader.events { data, options }) s with
  | ok v s₁ =>
      rcases hres : (BinaryReader.readModule { data, options }
        (BinaryReader.initialContext { data, options })).2 with e | ⟨v', c⟩
      · cases e <;> simp [hrun, hres]
      · simp [hrun, hres]
  | error s₁ => simp [hrun]
  | abort => simp [hrun]

/-- A read fails in a callback or after all of them. -/
theorem wasmReadBinary_eq_error {σ : Type} {reader : Event → Callback σ Unit}
    {options : ReadBinaryOptions} {data : List UInt8} {s s' : σ}
    (h : wasmReadBinary reader options data s = .error s') :
    runEvents reader (BinaryReader.events { data, options }) s = .error s' ∨
      runEvents reader (BinaryReader.events { data, options }) s = .ok () s' := by
  unfold wasmReadBinary at h
  cases hrun : runEvents reader (BinaryReader.events { data, options }) s with
  | ok v s₁ =>
      rcases hres : (BinaryReader.readModule { data, options }
        (BinaryReader.initialContext { data, options })).2 with e | ⟨v', c⟩
      · cases e <;> simp_all
      · simp [hrun, hres] at h
  | error s₁ => simp_all
  | abort => simp [hrun] at h

end SexprWasm
