import SexprWasm.BinaryReader.Reader

/-!
# The order of the reader's callbacks

A client of the reader may rely on more than the arguments of one
callback: sections come in increasing order and each at most once,
the entries of a section are numbered from 0 and there are as many as
its count says, function and signature indexes have been checked
against the counts of earlier sections. None of this is written down
in `binary-reader.h`; it is what `binary-reader.c` does.

`Proto` is the state of an automaton over the callbacks that checks
exactly this, and `trace_follows` proves that the trace of every input
is accepted. A client's invariant is then proved against the automaton
(`runEvents_invariant`), never against the reader.
-/

namespace SexprWasm

/-- The opcode an `on_*_expr` callback comes from. -/
def Instr.opcode : Instr → WasmOpcode
  | .unreachable => .unreachable
  | .nop => .nop
  | .block _ => .block
  | .loop _ => .loop
  | .if_ _ => .if_
  | .else_ => .else_
  | .end_ => .end_
  | .br _ => .br
  | .brIf _ => .brIf
  | .brTable _ _ => .brTable
  | .return_ => .return_
  | .call _ => .call
  | .callIndirect _ => .callIndirect
  | .drop => .drop
  | .select => .select
  | .getLocal _ => .getLocal
  | .setLocal _ => .setLocal
  | .teeLocal _ => .teeLocal
  | .getGlobal _ => .getGlobal
  | .setGlobal _ => .setGlobal
  | .load opcode _ _ => opcode.val
  | .store opcode _ _ => opcode.val
  | .currentMemory => .currentMemory
  | .growMemory => .growMemory
  | .i32Const _ => .i32Const
  | .i64Const _ => .i64Const
  | .f32Const _ => .f32Const
  | .f64Const _ => .f64Const
  | .unary opcode => opcode.val
  | .binary opcode => opcode.val
  | .compare opcode => opcode.val
  | .convert opcode => opcode.val

/-- Where the reader is in a section. `count` and `done` are the entries of the section
and those already read. -/
inductive Phase
  | start
  | top
  | custom
  | names (count done : Nat)
  | localNames (count done locals named : Nat)
  | opened
  | entries (count done : Nat)
  | importKind (count done : Nat)
  | beforeInit (count done : Nat)
  | inInit (count done : Nat)
  | afterInit (count done : Nat)
  | elemIndexes (count done indexes read : Nat)
  | dataRead (count done : Nat)
  | bodyStart (count done : Nat)
  | localDecls (count done decls read : Nat)
  | instrs (count done : Nat)
  | opcode (count done offset code : Nat)
  | finished
  deriving DecidableEq, Repr

structure Proto where
  phase : Phase
  sectionCode : Nat
  numSignatures : Nat
  numFuncImports : Nat
  numTableImports : Nat
  numMemoryImports : Nat
  numGlobalImports : Nat
  numFunctionSignatures : Nat
  numTables : Nat
  numMemories : Nat
  numGlobals : Nat
  deriving DecidableEq, Repr

namespace Proto

def initial : Proto where
  phase := .start
  sectionCode := 0
  numSignatures := 0
  numFuncImports := 0
  numTableImports := 0
  numMemoryImports := 0
  numGlobalImports := 0
  numFunctionSignatures := 0
  numTables := 0
  numMemories := 0
  numGlobals := 0

def numTotalFuncs (p : Proto) : Nat := p.numFuncImports + p.numFunctionSignatures
def numTotalTables (p : Proto) : Nat := p.numTableImports + p.numTables
def numTotalMemories (p : Proto) : Nat := p.numMemoryImports + p.numMemories
def numTotalGlobals (p : Proto) : Nat := p.numGlobalImports + p.numGlobals

def numTotal (p : Proto) : ExternalKind → Nat
  | .func => p.numTotalFuncs
  | .table => p.numTotalTables
  | .memory => p.numTotalMemories
  | .global => p.numTotalGlobals

/-- Step from one known phase to another, in the section `code`. -/
def goto (p : Proto) (code : Nat) (src dst : Phase) : Option Proto :=
  if p.sectionCode = code ∧ p.phase = src then some { p with phase := dst } else none

/-- One entry of the section `code`, read by one callback. -/
def entry (p : Proto) (code i : Nat) : Option Proto :=
  match p.phase with
  | .entries n k =>
      if p.sectionCode = code ∧ i = k ∧ k < n then some { p with phase := .entries n (k + 1) }
      else none
  | _ => none

def endSection (p : Proto) (code : Nat) : Option Proto :=
  match p.phase with
  | .entries n k => if p.sectionCode = code ∧ k = n then some { p with phase := .top } else none
  | _ => none

/-- The first of an entry's callbacks: from `entries` to `dst`. -/
def beginEntry (p : Proto) (code i : Nat) (dst : Nat → Nat → Phase) : Option Proto :=
  match p.phase with
  | .entries n k =>
      if p.sectionCode = code ∧ i = k ∧ k < n then some { p with phase := dst n k } else none
  | _ => none

/-- The import of the given kind is complete. -/
def importDone (p : Proto) (i : Nat) : Option Proto :=
  match p.phase with
  | .importKind n k =>
      if p.sectionCode = 2 ∧ i = k ∧ k < n then some { p with phase := .entries n (k + 1) }
      else none
  | _ => none

def beginInit (p : Proto) (code i : Nat) : Option Proto :=
  match p.phase with
  | .beforeInit n k =>
      if p.sectionCode = code ∧ i = k ∧ k < n then some { p with phase := .inInit n k } else none
  | _ => none

def endInit (p : Proto) (code i : Nat) : Option Proto :=
  match p.phase with
  | .inInit n k =>
      if p.sectionCode = code ∧ i = k ∧ k < n then some { p with phase := .afterInit n k }
      else none
  | _ => none

/-- A section other than a custom one comes after all the known ones before it. -/
def beginSection (p : Proto) (code : Nat) : Option Proto :=
  if p.phase = .top then
    if code = 0 then some { p with phase := .custom }
    else if p.sectionCode < code ∧ code < BinaryReader.numBinarySections then
      some { p with phase := .opened, sectionCode := code }
    else some { p with phase := .finished }
  else none

/-- The transitions inside a function body. An opcode byte stands right before the
offset its callback is called with. -/
def bodyStep (data : List UInt8) (p : Proto) (offset : Nat) : Event → Option Proto
  | .onLocalDeclCount count =>
      match p.phase with
      | .bodyStart n k =>
          some { p with phase := if count = 0 then .instrs n k else .localDecls n k count 0 }
      | _ => none
  | .onLocalDecl i _ _ =>
      match p.phase with
      | .localDecls n k m j =>
          if i = j ∧ j < m then
            some { p with phase := if j + 1 = m then .instrs n k else .localDecls n k m (j + 1) }
          else none
      | _ => none
  | .onOpcode code =>
      match p.phase with
      | .instrs n k =>
          if (data[offset - 1]?).map UInt8.toNat = some code ∧ 0 < offset then
            some { p with phase := .opcode n k offset code }
          else none
      | _ => none
  | .onExpr instr =>
      match p.phase with
      | .opcode n k _ code =>
          if WasmOpcode.ofCode? code = some instr.opcode then
            some { p with phase := .instrs n k }
          else none
      | _ => none
  | .endFunctionBody i =>
      match p.phase with
      | .opcode n k offset' code =>
          if i = k ∧ offset = offset' ∧ code = WasmOpcode.end_.code then
            some { p with phase := .entries n (k + 1) }
          else none
      | _ => none
  | _ => none

/-- The result of `read_table`. -/
def tableLimitsOk (limits : Limits) : Bool :=
  if limits.hasMax then limits.initial ≤ limits.max else limits.max = 0

/-- The result of `read_memory`. -/
def memoryLimitsOk (limits : Limits) : Bool :=
  limits.initial ≤ wasmMaxPages &&
    if limits.hasMax then limits.initial ≤ limits.max && limits.max ≤ wasmMaxPages
    else limits.max = 0

/-- What an instruction's immediates have been checked against; a block signature is a
type or nothing. -/
def exprOk (p : Proto) : Instr → Bool
  | .block sig | .loop sig | .if_ sig => sig.length ≤ 1
  | .call funcIndex => funcIndex < p.numTotalFuncs
  | .callIndirect sigIndex => sigIndex < p.numSignatures
  | _ => true

def step (data : List UInt8) (p : Proto) (e : Nat × Event) : Option Proto :=
  match e.2 with
  | .beginModule _ => if p.phase = .start then some { p with phase := .top } else none
  | .endModule => if p.phase = .top then some { p with phase := .finished } else none
  | .beginSection code _ => p.beginSection code
  | .beginCustomSection _ _ => if p.phase = .custom then some p else none
  | .endCustomSection => if p.phase = .custom then some { p with phase := .top } else none
  | .beginNamesSection _ => if p.phase = .custom then some p else none
  | .onFunctionNamesCount count =>
      if p.phase = .custom ∧ count ≤ p.numTotalFuncs then some { p with phase := .names count 0 }
      else none
  | .onFunctionName i _ =>
      match p.phase with
      | .names n k => if i = k ∧ k < n ∧ n ≤ p.numTotalFuncs then some p else none
      | _ => none
  | .onLocalNamesCount i count =>
      match p.phase with
      | .names n k =>
          if i = k ∧ k < n ∧ n ≤ p.numTotalFuncs then
            some { p with
              phase := if count = 0 then .names n (k + 1) else .localNames n k count 0 }
          else none
      | _ => none
  | .onLocalName i j _ =>
      match p.phase with
      | .localNames n k m l =>
          if i = k ∧ j = l ∧ k < n ∧ l < m ∧ n ≤ p.numTotalFuncs then
            some { p with
              phase := if l + 1 = m then .names n (k + 1) else .localNames n k m (l + 1) }
          else none
      | _ => none
  | .endNamesSection =>
      match p.phase with
      | .names n k => if k = n then some { p with phase := .custom } else none
      | _ => none
  | .beginSignatureSection _ => p.goto 1 .opened .opened
  | .onSignatureCount count =>
      (p.goto 1 .opened (.entries count 0)).map fun p => { p with numSignatures := count }
  | .onSignature i _ resultTypes => if resultTypes.length ≤ 1 then p.entry 1 i else none
  | .endSignatureSection => p.endSection 1
  | .beginImportSection _ => p.goto 2 .opened .opened
  | .onImportCount count => p.goto 2 .opened (.entries count 0)
  | .onImport i _ _ => p.beginEntry 2 i .importKind
  | .onImportFunc i sigIndex =>
      if sigIndex < p.numSignatures then
        (p.importDone i).map fun p => { p with numFuncImports := p.numFuncImports + 1 }
      else none
  | .onImportTable i limits =>
      if tableLimitsOk limits then
        (p.importDone i).map fun p => { p with numTableImports := p.numTableImports + 1 }
      else none
  | .onImportMemory i limits =>
      if memoryLimitsOk limits then
        (p.importDone i).map fun p => { p with numMemoryImports := p.numMemoryImports + 1 }
      else none
  | .onImportGlobal i _ _ =>
      (p.importDone i).map fun p => { p with numGlobalImports := p.numGlobalImports + 1 }
  | .endImportSection => p.endSection 2
  | .beginFunctionSignaturesSection _ => p.goto 3 .opened .opened
  | .onFunctionSignaturesCount count =>
      (p.goto 3 .opened (.entries count 0)).map fun p => { p with numFunctionSignatures := count }
  | .onFunctionSignature i sigIndex =>
      if sigIndex < p.numSignatures then p.entry 3 i else none
  | .endFunctionSignaturesSection => p.endSection 3
  | .beginTableSection _ => p.goto 4 .opened .opened
  | .onTableCount count =>
      if count ≤ 1 then
        (p.goto 4 .opened (.entries count 0)).map fun p => { p with numTables := count }
      else none
  | .onTable i limits => if tableLimitsOk limits then p.entry 4 i else none
  | .endTableSection => p.endSection 4
  | .beginMemorySection _ => p.goto 5 .opened .opened
  | .onMemoryCount count =>
      if count ≤ 1 then
        (p.goto 5 .opened (.entries count 0)).map fun p => { p with numMemories := count }
      else none
  | .onMemory i limits =>
      if memoryLimitsOk limits then p.entry 5 i else none
  | .endMemorySection => p.endSection 5
  | .beginGlobalSection _ => p.goto 6 .opened .opened
  | .onGlobalCount count =>
      (p.goto 6 .opened (.entries count 0)).map fun p => { p with numGlobals := count }
  | .beginGlobal i _ _ => p.beginEntry 6 i .beforeInit
  | .beginGlobalInitExpr i => p.beginInit 6 i
  | .endGlobalInitExpr i => p.endInit 6 i
  | .endGlobal i =>
      match p.phase with
      | .afterInit n k =>
          if p.sectionCode = 6 ∧ i = k then some { p with phase := .entries n (k + 1) } else none
      | _ => none
  | .endGlobalSection => p.endSection 6
  | .beginExportSection _ => p.goto 7 .opened .opened
  | .onExportCount count => p.goto 7 .opened (.entries count 0)
  | .onExport i kind itemIndex _ => if itemIndex < p.numTotal kind then p.entry 7 i else none
  | .endExportSection => p.endSection 7
  | .beginStartSection _ => p.goto 8 .opened .opened
  | .onStartFunction funcIndex =>
      if funcIndex < p.numTotalFuncs then p.goto 8 .opened (.entries 0 0) else none
  | .endStartSection => p.endSection 8
  | .beginElemSection _ => p.goto 9 .opened .opened
  | .onElemSegmentCount count => p.goto 9 .opened (.entries count 0)
  | .beginElemSegment i _ =>
      if 0 < p.numTotalTables then p.beginEntry 9 i .beforeInit else none
  | .beginElemSegmentInitExpr i => p.beginInit 9 i
  | .endElemSegmentInitExpr i => p.endInit 9 i
  | .onElemSegmentFunctionIndexCount i count =>
      match p.phase with
      | .afterInit n k =>
          if p.sectionCode = 9 ∧ i = k ∧ 0 < p.numTotalTables then
            some { p with phase := .elemIndexes n k count 0 }
          else none
      | _ => none
  | .onElemSegmentFunctionIndex i _ =>
      match p.phase with
      | .elemIndexes n k m j =>
          if i = k ∧ j < m ∧ 0 < p.numTotalTables then
            some { p with phase := .elemIndexes n k m (j + 1) }
          else none
      | _ => none
  | .endElemSegment i =>
      match p.phase with
      | .elemIndexes n k m j =>
          if i = k ∧ j = m then some { p with phase := .entries n (k + 1) } else none
      | _ => none
  | .endElemSection => p.endSection 9
  | .beginFunctionBodiesSection _ => p.goto 10 .opened .opened
  | .onFunctionBodiesCount count =>
      if count = p.numFunctionSignatures then p.goto 10 .opened (.entries count 0) else none
  | .beginFunctionBody i => p.beginEntry 10 i .bodyStart
  | .onExpr instr => if p.exprOk instr then p.bodyStep data e.1 e.2 else none
  | .onLocalDeclCount _ | .onLocalDecl .. | .onOpcode _ | .endFunctionBody _ =>
      p.bodyStep data e.1 e.2
  | .endFunctionBodiesSection => p.endSection 10
  | .beginDataSection _ => p.goto 11 .opened .opened
  | .onDataSegmentCount count => p.goto 11 .opened (.entries count 0)
  | .beginDataSegment i _ =>
      if 0 < p.numTotalMemories then p.beginEntry 11 i .beforeInit else none
  | .beginDataSegmentInitExpr i => p.beginInit 11 i
  | .endDataSegmentInitExpr i => p.endInit 11 i
  | .onDataSegmentData i _ =>
      match p.phase with
      | .afterInit n k =>
          if p.sectionCode = 11 ∧ i = k ∧ 0 < p.numTotalMemories then
            some { p with phase := .dataRead n k }
          else none
      | _ => none
  | .endDataSegment i =>
      match p.phase with
      | .dataRead n k => if i = k then some { p with phase := .entries n (k + 1) } else none
      | _ => none
  | .endDataSection => p.endSection 11
  | .onInitExpr i _ =>
      match p.phase with
      | .inInit n k => if i = k ∧ k < n then some { p with phase := .inInit n k } else none
      | _ => none

end Proto

end SexprWasm
