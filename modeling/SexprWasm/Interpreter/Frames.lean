import SexprWasm.Interpreter.ReadBinary

/-!
# What the callbacks for instructions leave alone

Inside a function body the loader moves its two stacks and emits code;
everything else is the same after an instruction, whether it succeeds
or fails (`keepsStatic_onExpr`).

The instances below say this for any invariant. `TypeFree J` says that
`J` does not depend on the type stack, `LabelFree J` and `CodeFree J`
the same of the label stack and of the code with its fixups;
`EmitClosed J` says no more than that `J` survives code at the end.
-/

namespace SexprWasm

namespace Interpreter

set_option synthInstance.maxSize 2000

open Callback

def Context.emit (c : Context) (data : List UInt8) : Context :=
  { c with
    env := { c.env with istream := Buffer.writeAt 0 c.env.istream c.istreamOffset data }
    istreamOffset := u32 (c.istreamOffset + data.length) }

def Context.patch (c : Context) (offset value : Nat) : Context :=
  { c with
    env :=
      { c.env with istream := Buffer.writeAt 0 c.env.istream offset (Buffer.leBytes 4 value) } }

/-- The context without its stacks and without the code. -/
def Context.static (c : Context) : Context :=
  { c with
    typeStack := []
    labelStack := []
    funcFixups := []
    depthFixups := []
    istreamOffset := 0
    env := { c.env with istream := [] } }

def Context.stacks (c : Context) : List WasmType × List Label := (c.typeStack, c.labelStack)

abbrev KeepsStatic {α : Type} (m : Load α) : Prop := Keeps Context.static m

theorem emitData_eq (data : List UInt8) : emitData data = Callback.modify fun c => Context.emit c data :=
  rfl

theorem emitI32At_eq (offset value : Nat) :
    emitI32At offset value = Callback.modify fun c => Context.patch c offset value := rfl

/-! ## Reading the context -/

section Reading

variable {J : Context → Prop}

instance (depth : Nat) : Preserves J (getLabel depth) := by
  simp only [getLabel]
  infer_instance

instance : Preserves J topLabel := by
  simp only [topLabel]
  infer_instance

instance (sigIndex : Nat) : Preserves J (translateSigIndexToEnv sigIndex) := by
  simp only [translateSigIndexToEnv]
  infer_instance

instance (sigIndex : Nat) : Preserves J (getSignatureByEnvIndex sigIndex) := by
  simp only [getSignatureByEnvIndex]
  infer_instance

instance (funcIndex : Nat) : Preserves J (translateFuncIndexToEnv funcIndex) := by
  simp only [translateFuncIndexToEnv]
  infer_instance

instance (funcIndex : Nat) : Preserves J (translateDefinedFuncIndexToEnv funcIndex) := by
  simp only [translateDefinedFuncIndexToEnv]
  infer_instance

instance (funcIndex : Nat) : Preserves J (translateModuleFuncIndexToDefined funcIndex) := by
  simp only [translateModuleFuncIndexToDefined]
  infer_instance

instance (funcIndex : Nat) : Preserves J (getFuncByEnvIndex funcIndex) := by
  simp only [getFuncByEnvIndex]
  infer_instance

instance (funcIndex : Nat) : Preserves J (getDefinedFunc funcIndex) := by
  unfold getDefinedFunc
  refine Preserves.seq fun func => ?_
  cases func <;> infer_instance

instance (globalIndex : Nat) : Preserves J (translateGlobalIndexToEnv globalIndex) := by
  simp only [translateGlobalIndexToEnv]
  infer_instance

instance (globalIndex : Nat) : Preserves J (translateDefinedGlobalIndexToEnv globalIndex) := by
  simp only [translateDefinedGlobalIndexToEnv]
  infer_instance

instance (globalIndex : Nat) : Preserves J (getGlobalByEnvIndex globalIndex) := by
  simp only [getGlobalByEnvIndex]
  infer_instance

instance (globalIndex : Nat) : Preserves J (getGlobalByModuleIndex globalIndex) := by
  simp only [getGlobalByModuleIndex]
  infer_instance

instance (func : DefinedFunc) (localIndex : Nat) :
    Preserves J (getLocalTypeByIndex func localIndex) := by
  simp only [getLocalTypeByIndex]
  infer_instance

instance (localIndex : Nat) : Preserves J (translateLocalIndex localIndex) := by
  simp only [translateLocalIndex]
  infer_instance

instance : Preserves J getCurrentFunc := by
  simp only [getCurrentFunc]
  infer_instance

instance : Preserves J getIstreamOffset := by
  simp only [getIstreamOffset]
  infer_instance

instance (label : Label) : Preserves J (brDropCount label) := by
  simp only [brDropCount]
  infer_instance

instance (depth : Nat) : Preserves J (translateDepth depth) := by
  simp only [translateDepth]
  infer_instance

instance : Preserves J topType := by
  simp only [topType]
  infer_instance

instance : Preserves J topTypeIsAny := by
  simp only [topTypeIsAny]
  infer_instance

instance (check : Load Unit) [Preserves J check] : Preserves J (unlessTopTypeIsAny check) := by
  simp only [unlessTopTypeIsAny]
  infer_instance

instance : Preserves J typeStackAvail := by
  simp only [typeStackAvail]
  infer_instance

instance (expected : Nat) : Preserves J (checkTypeStackLimit expected) := by
  simp only [checkTypeStackLimit]
  infer_instance

instance (expected : Nat) : Preserves J (checkTypeStackLimitExact expected) := by
  simp only [checkTypeStackLimitExact]
  infer_instance

instance (expected actual : WasmType) : Preserves J (checkType expected actual) := by
  simp only [checkType]
  infer_instance

instance (expected : List ValueType) : Preserves J (checkNTypes expected) := by
  simp only [checkNTypes]
  infer_instance

instance (depth : Nat) : Preserves J (checkDepth depth) := by
  simp only [checkDepth]
  infer_instance

instance (globalIndex : Nat) : Preserves J (checkGlobal globalIndex) := by
  simp only [checkGlobal]
  infer_instance

instance (localIndex : Nat) : Preserves J (checkLocal localIndex) := by
  simp only [checkLocal]
  infer_instance

end Reading

/-! ## The two stacks and the code -/

class TypeFree (J : Context → Prop) : Prop where
  setTypeStack : ∀ c typeStack, J c → J { c with typeStack }

class LabelFree (J : Context → Prop) : Prop where
  setLabelStack : ∀ c labelStack, J c → J { c with labelStack }

class EmitClosed (J : Context → Prop) : Prop where
  emit : ∀ c data, J c → J (c.emit data)
  depthFixup : ∀ c depth, J c →
    J { c with depthFixups := appendFixup c.depthFixups depth c.istreamOffset }
  funcFixup : ∀ c index, J c →
    J { c with funcFixups := appendFixup c.funcFixups index c.istreamOffset }

class CodeFree (J : Context → Prop) : Prop where
  setCode : ∀ c istream istreamOffset depthFixups funcFixups, J c →
    J { c with env := { c.env with istream }, istreamOffset, depthFixups, funcFixups }

instance CodeFree.emitClosed {J : Context → Prop} [CodeFree J] : EmitClosed J where
  emit c _ h := CodeFree.setCode c _ _ c.depthFixups c.funcFixups h
  depthFixup c _ h := CodeFree.setCode c c.env.istream c.istreamOffset _ c.funcFixups h
  funcFixup c _ h := CodeFree.setCode c c.env.istream c.istreamOffset c.depthFixups _ h

section TypeStack

variable {J : Context → Prop} [TypeFree J]

theorem preserves_setTypeStack (f : Context → List WasmType) :
    Preserves J (modify fun c => { c with typeStack := f c }) :=
  Preserves.modify fun c h => TypeFree.setTypeStack c (f c) h

instance (limit : Nat) : Preserves J (resetTypeStackTo limit) := by
  have := preserves_setTypeStack (J := J)
  simp only [resetTypeStackTo]
  infer_instance

instance : Preserves J resetTypeStackToLimit := by
  simp only [resetTypeStackToLimit]
  infer_instance

instance : Preserves J popType := by
  have := preserves_setTypeStack (J := J)
  simp only [popType]
  infer_instance

instance (type : WasmType) : Preserves J (pushType type) := by
  have := preserves_setTypeStack (J := J)
  simp only [pushType]
  infer_instance

instance (types : List ValueType) : Preserves J (pushTypes types) := by
  simp only [pushTypes]
  infer_instance

instance (expected : WasmType) : Preserves J (popAndCheck1Type expected) := by
  simp only [popAndCheck1Type]
  infer_instance

instance (expected1 expected2 : WasmType) :
    Preserves J (popAndCheck2Types expected1 expected2) := by
  simp only [popAndCheck2Types]
  infer_instance

instance (opcode : WasmOpcode) : Preserves J (checkOpcode1 opcode) := by
  simp only [checkOpcode1]
  infer_instance

instance (opcode : WasmOpcode) : Preserves J (checkOpcode2 opcode) := by
  simp only [checkOpcode2]
  infer_instance

instance (paramTypes : List ValueType) : Preserves J (popParams paramTypes) := by
  simp only [popParams]
  infer_instance

instance : Preserves J setUnreachable := by
  simp only [setUnreachable]
  infer_instance

end TypeStack

section Emitting

variable {J : Context → Prop} [EmitClosed J]

instance (data : List UInt8) : Preserves J (emitData data) :=
  Preserves.modify fun c h => EmitClosed.emit c data h

instance (value : Nat) : Preserves J (emitI8 value) := by
  simp only [emitI8]
  infer_instance

instance (value : Nat) : Preserves J (emitI32 value) := by
  simp only [emitI32]
  infer_instance

instance (value : Nat) : Preserves J (emitI64 value) := by
  simp only [emitI64]
  infer_instance

instance (opcode : WasmOpcode) : Preserves J (emitOpcode opcode) := by
  simp only [emitOpcode]
  infer_instance

instance (opcode : InterpreterOpcode) : Preserves J (emitInterpreterOpcode opcode) := by
  simp only [emitInterpreterOpcode]
  infer_instance

instance (drop keep : Nat) : Preserves J (emitDropKeep drop keep) := by
  simp only [emitDropKeep]
  infer_instance

instance (depth offset : Nat) : Preserves J (emitBrOffset depth offset) := by
  have := Preserves.modify fun c h => EmitClosed.depthFixup (J := J) c depth h
  simp only [emitBrOffset]
  infer_instance

instance (depth : Nat) : Preserves J (emitBr depth) := by
  simp only [emitBr]
  infer_instance

instance (depth : Nat) : Preserves J (emitBrTableOffset depth) := by
  simp only [emitBrTableOffset]
  infer_instance

instance (func : DefinedFunc) (funcIndex : Nat) : Preserves J (emitFuncOffset func funcIndex) := by
  have := fun index => Preserves.modify fun c h => EmitClosed.funcFixup (J := J) c index h
  simp only [emitFuncOffset]
  infer_instance

instance (func : Func) (envIndex funcIndex : Nat) :
    Preserves J (emitCall func envIndex funcIndex) := by
  cases func <;> (simp only [emitCall]; infer_instance)

instance (arity : Nat) : Preserves J (dropTypesForReturn arity) := by
  simp only [dropTypesForReturn]
  infer_instance

instance (opcode : WasmOpcode) (offset : Nat) : Preserves J (emitMemoryAccess opcode offset) := by
  simp only [emitMemoryAccess]
  infer_instance

end Emitting

/-! ## Instructions -/

/-- The instructions that neither open nor close a label, nor patch code they have emitted. -/
def Instr.isPlain : Instr → Bool
  | .block _ | .loop _ | .if_ _ | .else_ | .end_ | .brIf _ | .brTable .. => false
  | _ => true

section Instructions

variable {J : Context → Prop} [TypeFree J] [EmitClosed J]

instance (depth : Nat) : Preserves J (onBrTableTarget depth) := by
  simp only [onBrTableTarget]
  infer_instance

theorem preserves_onExpr_of_isPlain {instr : Instr} (h : Instr.isPlain instr) :
    Preserves J (onExpr instr) := by
  cases instr with
  | block | loop | if_ | else_ | end_ | brIf | brTable => cases h
  | _ =>
      simp only [onExpr, onUnreachableExpr, onBrExpr, onReturnExpr, onCallExpr, onCallIndirectExpr,
        onDropExpr, onSelectExpr, onGetLocalExpr, onSetLocalExpr, onTeeLocalExpr, onGetGlobalExpr,
        onSetGlobalExpr, onLoadExpr, onStoreExpr, onCurrentMemoryExpr, onGrowMemoryExpr,
        onI32ConstExpr, onI64ConstExpr, onF32ConstExpr, onF64ConstExpr, onConstExpr, onUnaryExpr,
        onBinaryExpr]
      infer_instance

end Instructions

section Patching

variable {J : Context → Prop} [CodeFree J]

instance (offset value : Nat) : Preserves J (emitI32At offset value) :=
  Preserves.modify fun c h =>
    CodeFree.setCode c _ c.istreamOffset c.depthFixups c.funcFixups h

instance (offset : Nat) : Preserves J (fixupTopLabel offset) := by
  have (top : Nat) : Preserves J (Callback.modify fun c =>
      { c with depthFixups := c.depthFixups.set top [] }) := Preserves.modify fun c h =>
    CodeFree.setCode c c.env.istream c.istreamOffset _ c.funcFixups h
  unfold fixupTopLabel
  refine Preserves.seq fun c => ?_
  dsimp only
  cases c.depthFixups[c.labelStack.length - 1]? <;> infer_instance

instance (label : Label) : Preserves J (fixupIf label) := by
  unfold fixupIf
  refine Preserves.seq fun offset => ?_
  cases label.labelType <;> infer_instance

end Patching

theorem preserves_setLabelStack {J : Context → Prop} [LabelFree J] (f : Context → List Label) :
    Preserves J (Callback.modify fun c => { c with labelStack := f c }) :=
  Preserves.modify fun c h => LabelFree.setLabelStack c (f c) h

section Blocks

variable {J : Context → Prop} [TypeFree J] [LabelFree J] [CodeFree J]

instance (labelType : LabelType) (sig : List ValueType) (offset fixupOffset : Nat) :
    Preserves J (pushLabel labelType sig offset fixupOffset) := preserves_setLabelStack _

instance : Preserves J popLabel := by
  have : Preserves J (Callback.modify fun c =>
      { c with
        labelStack := c.labelStack.tail
        depthFixups := c.depthFixups.take (c.labelStack.length - 1) }) :=
    Preserves.modify fun c h =>
      have h' := CodeFree.setCode c c.env.istream c.istreamOffset
        (c.depthFixups.take (c.labelStack.length - 1)) c.funcFixups h
      LabelFree.setLabelStack _ c.labelStack.tail h'
  simp only [popLabel]
  infer_instance

instance preserves_onExpr (instr : Instr) : Preserves J (onExpr instr) := by
  have := preserves_setLabelStack (J := J)
  cases instr with
  | block | loop | if_ | else_ | end_ | brIf | brTable =>
      simp only [onExpr, onIfExpr, onElseExpr, onEndExpr, onBrIfExpr, onBrTableExpr]
      infer_instance
  | _ => exact preserves_onExpr_of_isPlain rfl

end Blocks

/-! ## Sections -/

/-- `J` depends on no more than the name of the module being read, nor on what is kept for its
segments. -/
class ModuleFree (J : Context → Prop) : Prop where
  setModule : ∀ c module importSource initExprValue tableOffset, module.name = c.module.name →
    J c → J { c with module, importSource, initExprValue, tableOffset }

class StoreFree (J : Context → Prop) : Prop where
  setStores : ∀ c tables memories, J c → J { c with env := { c.env with tables, memories } }

section Module

variable {J : Context → Prop} [ModuleFree J]

theorem preserves_modifyModule (f : DefinedModule → DefinedModule) (hf : ∀ m, (f m).name = m.name) :
    Preserves J (modifyModule f) :=
  Preserves.modify fun c h => ModuleFree.setModule c (f c.module) c.importSource c.initExprValue
    c.tableOffset (hf c.module) h

theorem preserves_setInitExprValue (f : Context → TypedValue) :
    Preserves J (Callback.modify fun c => { c with initExprValue := f c }) :=
  Preserves.modify fun c h => ModuleFree.setModule c c.module c.importSource (f c) c.tableOffset
    rfl h

theorem preserves_setTableOffset (f : Context → Nat) :
    Preserves J (Callback.modify fun c => { c with tableOffset := f c }) :=
  Preserves.modify fun c h => ModuleFree.setModule c c.module c.importSource c.initExprValue (f c)
    rfl h

instance (count : Nat) : Preserves J (onImportCount count) := preserves_modifyModule _ fun _ => rfl

instance (tableIndex : Nat) : Preserves J (setTableIndex tableIndex) :=
  preserves_modifyModule _ fun _ => rfl

instance (memoryIndex : Nat) : Preserves J (setMemoryIndex memoryIndex) :=
  preserves_modifyModule _ fun _ => rfl

instance (index : Nat) (import_ : Import) (source : ImportSource) :
    Preserves J (setImport index import_ source) :=
  Preserves.modify fun c h => ModuleFree.setModule c
    { c.module with imports := c.module.imports.set index import_ } source c.initExprValue
    c.tableOffset rfl h

instance (index : Nat) : Preserves J (getImport index) := by
  simp only [getImport]
  infer_instance

instance (index : Nat) (moduleName fieldName : List UInt8) :
    Preserves J (onImport index moduleName fieldName) := by
  unfold onImport
  refine Preserves.seq fun import_ => ?_
  refine Preserves.seq fun c => ?_
  cases findBindingIndexByName c.env.registeredModuleBindings moduleName with
  | none => infer_instance
  | some moduleIndex =>
      refine Preserves.seq fun m => ?_
      cases m with
      | host m => infer_instance
      | defined m =>
          refine Preserves.seq fun export_ => ?_
          cases export_ <;> infer_instance

instance (kind : ExternalKind) (itemIndex : Nat) (name : List UInt8) :
    Preserves J (onExport kind itemIndex name) := by
  have (itemIndex : Nat) : Preserves J (modifyModule fun m =>
      { m with toModuleHeader := m.toModuleHeader.appendExport kind itemIndex name }) :=
    preserves_modifyModule _ fun _ => rfl
  cases kind <;> (simp only [onExport]; infer_instance)

instance (funcIndex : Nat) : Preserves J (onStartFunction funcIndex) := by
  have (startFuncIndex : Nat) : Preserves J (modifyModule fun m => { m with startFuncIndex }) :=
    preserves_modifyModule _ fun _ => rfl
  simp only [onStartFunction]
  infer_instance

instance (expr : InitExpr) : Preserves J (onInitExpr expr) := by
  have := preserves_setInitExprValue (J := J)
  cases expr <;> (simp only [onInitExpr, setInitExprValue]; infer_instance)

instance : Preserves J endElemSegmentInitExpr := by
  have := preserves_setTableOffset (J := J)
  simp only [endElemSegmentInitExpr]
  infer_instance

end Module

section Stores

variable {J : Context → Prop} [StoreFree J]

theorem preserves_setTables (f : Environment → List Table) :
    Preserves J (modifyEnv fun env => { env with tables := f env }) :=
  Preserves.modify fun c h => StoreFree.setStores c (f c.env) c.env.memories h

theorem preserves_setMemories (f : Environment → List Memory) :
    Preserves J (modifyEnv fun env => { env with memories := f env }) :=
  Preserves.modify fun c h => StoreFree.setStores c c.env.tables (f c.env) h

variable [ModuleFree J]

instance (limits : Limits) : Preserves J (onTable limits) := by
  have := preserves_setTables (J := J)
  simp only [onTable]
  infer_instance

instance (limits : Limits) : Preserves J (onMemory limits) := by
  have := preserves_setMemories (J := J)
  simp only [onMemory]
  infer_instance

instance (funcIndex : Nat) : Preserves J (onElemSegmentFunctionIndex funcIndex) := by
  have (table : Table) (funcIndex : Nat) : Preserves J (Callback.modify fun c =>
      { c with
        tableOffset := u32 (c.tableOffset + 1)
        env :=
          { c.env with
            tables := c.env.tables.set c.module.tableIndex
              { table with funcIndexes := table.funcIndexes.set c.tableOffset funcIndex } } }) :=
    Preserves.modify fun c h =>
      have h' := ModuleFree.setModule c c.module c.importSource c.initExprValue
        (u32 (c.tableOffset + 1)) rfl h
      StoreFree.setStores _ (c.env.tables.set c.module.tableIndex
        { table with funcIndexes := table.funcIndexes.set c.tableOffset funcIndex })
        c.env.memories h'
  simp only [onElemSegmentFunctionIndex]
  infer_instance

instance (data : List UInt8) : Preserves J (onDataSegmentData data) := by
  have := preserves_setMemories (J := J)
  simp only [onDataSegmentData]
  infer_instance

end Stores

/-- `J` does not depend on the signatures, functions and globals, nor on their mappings. -/
class SpaceFree (J : Context → Prop) : Prop where
  setSpaces : ∀ c sigs funcs globals sigIndexMapping funcIndexMapping globalIndexMapping
    numFuncImports numGlobalImports currentFunc, J c →
    J { c with
      env := { c.env with sigs, funcs, globals }
      sigIndexMapping, funcIndexMapping, globalIndexMapping
      numFuncImports, numGlobalImports, currentFunc }

/-- `J` does not depend on the signatures and functions. -/
class FuncFree (J : Context → Prop) : Prop where
  setFuncs : ∀ c sigs funcs currentFunc, J c →
    J { c with env := { c.env with sigs, funcs }, currentFunc }

instance SpaceFree.funcFree {J : Context → Prop} [SpaceFree J] : FuncFree J where
  setFuncs c sigs funcs currentFunc h := SpaceFree.setSpaces c sigs funcs c.env.globals
    c.sigIndexMapping c.funcIndexMapping c.globalIndexMapping c.numFuncImports c.numGlobalImports
    currentFunc h

section Funcs

variable {J : Context → Prop} [FuncFree J]

theorem preserves_setSigs (f : Environment → List FuncSignature) :
    Preserves J (modifyEnv fun env => { env with sigs := f env }) :=
  Preserves.modify fun c h => FuncFree.setFuncs c (f c.env) c.env.funcs c.currentFunc h

theorem preserves_setFuncs (f : Environment → List Func) :
    Preserves J (modifyEnv fun env => { env with funcs := f env }) :=
  Preserves.modify fun c h => FuncFree.setFuncs c c.env.sigs (f c.env) c.currentFunc h

instance (index : Nat) (paramTypes resultTypes : List ValueType) :
    Preserves J (onSignature index paramTypes resultTypes) := by
  have := preserves_setSigs (J := J)
  simp only [onSignature]
  infer_instance

instance (funcIndex : Nat) (func : DefinedFunc) : Preserves J (setDefinedFunc funcIndex func) :=
  preserves_setFuncs _

instance (index sigIndex : Nat) : Preserves J (onFunctionSignature index sigIndex) := by
  simp only [onFunctionSignature]
  infer_instance

instance (count : Nat) : Preserves J (onLocalDeclCount count) := by
  unfold onLocalDeclCount
  refine Preserves.seq fun func => ?_
  infer_instance

variable [TypeFree J] [LabelFree J] [CodeFree J]

instance (index : Nat) : Preserves J (beginFunctionBody index) := by
  have (funcIndex : Nat) : Preserves J (Callback.modify fun c =>
      { c with
        currentFunc := some funcIndex, depthFixups := [], typeStack := [], labelStack := [] }) :=
    Preserves.modify fun c h =>
      have h₁ := CodeFree.setCode c c.env.istream c.istreamOffset [] c.funcFixups h
      have h₂ := FuncFree.setFuncs _ c.env.sigs c.env.funcs (some funcIndex) h₁
      LabelFree.setLabelStack _ [] (TypeFree.setTypeStack _ [] h₂)
  have := preserves_setTypeStack (J := J)
  simp only [beginFunctionBody]
  infer_instance

instance (declIndex count : Nat) (type : ValueType) :
    Preserves J (onLocalDecl declIndex count type) := by
  have := preserves_setLabelStack (J := J)
  have hlocal (type : ValueType) : Preserves J (do
      let (funcIndex, func) ← getCurrentFunc
      setDefinedFunc funcIndex { func with paramAndLocalTypes := func.paramAndLocalTypes ++ [type] }
      pushType type) := by
    refine Preserves.seq fun func => ?_
    infer_instance
  unfold onLocalDecl
  refine Preserves.seq fun func => ?_
  infer_instance

instance : Preserves J endFunctionBody := by
  have : Preserves J (Callback.modify fun c => { c with currentFunc := none, typeStack := [] }) :=
    Preserves.modify fun c h =>
      TypeFree.setTypeStack _ [] (FuncFree.setFuncs c c.env.sigs c.env.funcs none h)
  simp only [endFunctionBody]
  infer_instance

end Funcs

section Spaces

variable {J : Context → Prop} [SpaceFree J]

theorem preserves_setSpaces {f : Context → Context}
    (hf : ∀ c, f c = { c with
      env :=
        { c.env with
          sigs := (f c).env.sigs
          funcs := (f c).env.funcs
          globals := (f c).env.globals }
      sigIndexMapping := (f c).sigIndexMapping
      funcIndexMapping := (f c).funcIndexMapping
      globalIndexMapping := (f c).globalIndexMapping
      numFuncImports := (f c).numFuncImports
      numGlobalImports := (f c).numGlobalImports
      currentFunc := (f c).currentFunc } := by intro; rfl) : Preserves J (Callback.modify f) :=
  Preserves.modify fun c h => by
    rw [hf c]
    exact SpaceFree.setSpaces c _ _ _ _ _ _ _ _ _ h

instance (count : Nat) : Preserves J (onSignatureCount count) := preserves_setSpaces

instance (count : Nat) : Preserves J (onGlobalCount count) := preserves_setSpaces

instance (globalIndex : Nat) (global : Global) : Preserves J (setGlobal globalIndex global) :=
  preserves_setSpaces

instance (index : Nat) (type : ValueType) (mutable_ : Bool) :
    Preserves J (beginGlobal index type mutable_) := by
  simp only [beginGlobal]
  infer_instance

instance (index : Nat) : Preserves J (endGlobalInitExpr index) := by
  simp only [endGlobalInitExpr]
  infer_instance

instance (funcIndex : Nat) : Preserves J (appendFuncImport funcIndex) :=
  preserves_setSpaces

instance (globalIndex : Nat) : Preserves J (appendGlobalImport globalIndex) :=
  preserves_setSpaces

variable [CodeFree J]

instance (count : Nat) : Preserves J (onFunctionSignaturesCount count) :=
  Preserves.modify fun c h =>
    have h' := CodeFree.setCode c c.env.istream c.istreamOffset c.depthFixups
      (List.replicate count []) h
    SpaceFree.setSpaces _ c.env.sigs
      (c.env.funcs ++ List.replicate count (.defined ⟨0, 0, 0, 0, []⟩)) c.env.globals
      c.sigIndexMapping (c.funcIndexMapping ++ (List.range count).map (c.env.funcs.length + ·))
      c.globalIndexMapping c.numFuncImports c.numGlobalImports c.currentFunc h'

end Spaces

/-- `J` does not depend on what the modules before the one being read export. -/
class ExportFree (J : Context → Prop) : Prop where
  appendExport : ∀ c moduleIndex kind itemIndex name, J c →
    J { c with
      env :=
        { c.env with
          modules := c.env.modules.modify moduleIndex
            (Module.modifyHeader fun m => m.appendExport kind itemIndex name) } }

section Imports

variable {J : Context → Prop} [ModuleFree J] [StoreFree J] [ExportFree J]

instance (moduleIndex : Nat) (kind : ExternalKind) (itemIndex : Nat) (name : List UInt8) :
    Preserves J (appendHostExport moduleIndex kind itemIndex name) :=
  Preserves.modify fun c h => ExportFree.appendExport c moduleIndex kind itemIndex name h

instance (moduleIndex : Nat) : Preserves J (getHostDelegate moduleIndex) := by
  unfold getHostDelegate
  refine Preserves.seq fun c => ?_
  refine Preserves.seq fun m => ?_
  cases m <;> infer_instance

instance (import_ : Import) (expectedKind : ExternalKind) :
    Preserves J (checkImportKind import_ expectedKind) := by
  simp only [checkImportKind]
  infer_instance

instance (declared actual : Limits) : Preserves J (checkImportLimits declared actual) := by
  simp only [checkImportLimits]
  infer_instance

instance (index : Nat) (limits : Limits) : Preserves J (onImportTable index limits) := by
  have := preserves_setTables (J := J)
  unfold onImportTable
  refine Preserves.seq fun c => ?_
  refine Preserves.seq fun _ => ?_
  refine Preserves.seq fun import_ => ?_
  cases c.importSource with
  | host moduleIndex =>
      refine Preserves.seq fun delegate => ?_
      cases delegate.importTable import_ (newTable limits) <;> infer_instance
  | module importIndex => infer_instance

instance (index : Nat) (limits : Limits) : Preserves J (onImportMemory index limits) := by
  have := preserves_setMemories (J := J)
  unfold onImportMemory
  refine Preserves.seq fun c => ?_
  refine Preserves.seq fun _ => ?_
  refine Preserves.seq fun import_ => ?_
  cases c.importSource with
  | host moduleIndex =>
      refine Preserves.seq fun delegate => ?_
      cases delegate.importMemory import_ <;> infer_instance
  | module importIndex => infer_instance

instance [FuncFree J] [∀ funcIndex, Preserves J (appendFuncImport funcIndex)]
    (index sigIndex : Nat) : Preserves J (onImportFunc index sigIndex) := by
  have := preserves_setFuncs (J := J)
  unfold onImportFunc
  refine Preserves.seq fun import_ => ?_
  refine Preserves.seq fun c => ?_
  refine Preserves.seq fun _ => ?_
  refine Preserves.seq fun envIndex => ?_
  cases c.importSource with
  | host moduleIndex =>
      refine Preserves.seq fun delegate => ?_
      refine Preserves.seq fun sig => ?_
      cases delegate.importFunc import_ sig <;> infer_instance
  | module importIndex => infer_instance

instance [SpaceFree J] (index : Nat) (type : ValueType) (mutable_ : Bool) :
    Preserves J (onImportGlobal index type mutable_) := by
  have (global : Global) : Preserves J (modifyEnv fun env =>
      { env with globals := env.globals ++ [global] }) := preserves_setSpaces
  unfold onImportGlobal
  refine Preserves.seq fun c => ?_
  refine Preserves.seq fun import_ => ?_
  cases c.importSource with
  | host moduleIndex =>
      refine Preserves.seq fun delegate => ?_
      cases delegate.importGlobal import_ { typedValue := ⟨type, 0⟩, mutable_ } <;> infer_instance
  | module importIndex => infer_instance

end Imports

/-! ## Views -/

instance (v : Context) : TypeFree (fun c => c.static = v) := ⟨fun _ _ h => h⟩
instance (v : Context) : LabelFree (fun c => c.static = v) := ⟨fun _ _ h => h⟩
instance (v : Context) : CodeFree (fun c => c.static = v) := ⟨fun _ _ _ _ _ h => h⟩

instance (v : List WasmType × List Label) : CodeFree (fun c => c.stacks = v) :=
  ⟨fun _ _ _ _ _ h => h⟩

theorem keepsStatic_onExpr (instr : Instr) : KeepsStatic (onExpr instr) := fun _ => inferInstance

end Interpreter

end SexprWasm
