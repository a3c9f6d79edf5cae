import SexprWasm.BinaryReader.Counts
import SexprWasm.Interpreter.Frames
import SexprWasm.Lib.IndexSpace

/-!
# What the loader knows of its index spaces

`Spaces` ties the mappings of a context to the counters of the reader's
automaton: after the imports come the module's own signatures,
functions and globals, which were appended to the environment that the
load started from. Every callback keeps it (`spaces_interpreterReader`),
also one that fails.
-/

namespace SexprWasm

namespace Interpreter

set_option synthInstance.maxSize 2000

open Callback

structure Spaces (env₀ : Environment) (p : Proto) (c : Context) : Prop where
  sigs : IndexSpace env₀.sigs c.env.sigs c.sigIndexMapping 0 p.numSignatures
  funcs : IndexSpace env₀.funcs c.env.funcs c.funcIndexMapping p.numFuncImports
    p.numFunctionSignatures
  globals : IndexSpace env₀.globals c.env.globals c.globalIndexMapping p.numGlobalImports
    p.numGlobals
  numFuncImports : c.numFuncImports = p.numFuncImports
  numGlobalImports : c.numGlobalImports = p.numGlobalImports
  ownFuncs : ∀ k, c.env.funcs.length - p.numFunctionSignatures ≤ k → k < c.env.funcs.length →
    ∃ func, c.env.funcs[k]? = some (.defined func)
  currentFunc : ∀ k, c.currentFunc = some k →
    c.env.funcs.length - p.numFunctionSignatures ≤ k ∧ k < c.env.funcs.length

variable {env₀ : Environment} {p : Proto} {c c' : Context}

theorem spaces_initial (env₀ : Environment) : Spaces env₀ .initial (initialContext env₀) where
  sigs := IndexSpace.initial _
  funcs := IndexSpace.initial _
  globals := IndexSpace.initial _
  numFuncImports := rfl
  numGlobalImports := rfl
  ownFuncs k h h' := absurd h' (Nat.not_lt_of_le h)
  currentFunc k h := by cases h

/-- Nothing in `Spaces` depends on the stacks and the code. -/
theorem Spaces.of_static (h : Spaces env₀ p c) (hc : c'.static = c.static) : Spaces env₀ p c' := by
  have hs : Spaces env₀ p c.static := { h with }
  rw [← hc] at hs
  exact { hs with }

theorem Spaces.of_counts (h : Spaces env₀ p c) {phase : Phase} {sectionCode : Nat} :
    Spaces env₀ { p with phase, sectionCode } c := { h with }

/-! ## Own functions -/

theorem Spaces.setOwnFunc (h : Spaces env₀ p c) {k : Nat}
    (hk : c.env.funcs.length - p.numFunctionSignatures ≤ k) (func : DefinedFunc) :
    Spaces env₀ p { c with env := { c.env with funcs := c.env.funcs.set k (.defined func) } } where
  sigs := h.sigs
  funcs := h.funcs.set (by have := h.funcs.room; omega) _
  globals := h.globals
  numFuncImports := h.numFuncImports
  numGlobalImports := h.numGlobalImports
  ownFuncs i hi hi' := by
    simp only [List.length_set] at hi hi'
    by_cases hik : k = i
    · exact ⟨func, by rw [hik, List.getElem?_set_self (by omega)]⟩
    · obtain ⟨func', h'⟩ := h.ownFuncs i hi hi'
      exact ⟨func', by rw [List.getElem?_set_ne hik, h']⟩
  currentFunc i hi := by simpa using h.currentFunc i hi

/-- An own function by its index among the module's own. -/
theorem Spaces.translateDefinedFunc (h : Spaces env₀ p c) {i k : Nat}
    (hk : c.funcIndexMapping[i + c.numFuncImports]? = some k) :
    c.env.funcs.length - p.numFunctionSignatures ≤ k ∧ k < c.env.funcs.length := by
  rw [h.numFuncImports, Nat.add_comm] at hk
  obtain ⟨hi, rfl⟩ := h.funcs.translate hk
  have := h.funcs.room
  omega

theorem Spaces.setGlobal (h : Spaces env₀ p c) {i k : Nat}
    (hk : c.globalIndexMapping[i + c.numGlobalImports]? = some k) (global : Global) :
    Spaces env₀ p { c with env := { c.env with globals := c.env.globals.set k global } } := by
  rw [h.numGlobalImports, Nat.add_comm] at hk
  exact { h with globals := h.globals.set (h.globals.translate_above hk).1 _ }

theorem wp_setDefinedFunc {Q : Unit → Context → Prop} {E : Context → Prop} {A : Prop} {k : Nat}
    {func : DefinedFunc} : wp (setDefinedFunc k func) Q E A c ↔
      Q () { c with env := { c.env with funcs := c.env.funcs.set k (.defined func) } } := Iff.rfl

theorem wp_getDefinedFunc {Q : DefinedFunc → Context → Prop} {E : Context → Prop} {k : Nat}
    (h : ∀ func, c.env.funcs[k]? = some (.defined func) → Q func c) :
    wp (getDefinedFunc k) Q E True c := by
  simp only [getDefinedFunc, getFuncByEnvIndex, wp_bind, wp_get, wp_orAbort]
  refine ⟨fun func hf => ?_, fun _ => trivial⟩
  cases func with
  | defined func => exact h func hf
  | host func => trivial

theorem wp_getCurrentFunc {Q : Nat × DefinedFunc → Context → Prop} {E : Context → Prop}
    (h : ∀ k func, c.currentFunc = some k → c.env.funcs[k]? = some (.defined func) →
      Q (k, func) c) : wp getCurrentFunc Q E True c := by
  simp only [getCurrentFunc, wp_bind, wp_get, wp_orAbort, wp_pure, implies_true, and_true]
  exact fun k hk => wp_getDefinedFunc fun func hf => h k func hk hf

instance : TypeFree (Spaces env₀ p) := ⟨fun _ _ h => { h with }⟩
instance : LabelFree (Spaces env₀ p) := ⟨fun _ _ h => { h with }⟩
instance : CodeFree (Spaces env₀ p) := ⟨fun _ _ _ _ _ h => { h with }⟩

instance : ModuleFree (Spaces env₀ p) := ⟨fun _ _ _ _ _ _ h => { h with }⟩
instance : StoreFree (Spaces env₀ p) := ⟨fun _ _ _ h => { h with }⟩

instance (count : Nat) : CodeFree (fun c => Spaces env₀ p c ∧ c.env.funcs.length = count) :=
  ⟨fun _ _ _ _ _ h => ⟨{ h.1 with }, h.2⟩⟩

/-! ## The callbacks -/

section Callbacks

variable (h : Spaces env₀ p c)
include h

theorem spaces_onSignatureCount (h0 : p.numSignatures = 0) (count : Nat) :
    wp (onSignatureCount count) (fun _ => Spaces env₀ { p with numSignatures := count })
      (Spaces env₀ p) True c := by
  have hsigs := h.sigs
  rw [h0] at hsigs
  have hnil : c.sigIndexMapping = [] := List.length_eq_zero_iff.mp hsigs.length
  have happ := hsigs.appendOwn count ⟨[], []⟩
  rw [hnil] at happ
  exact { h with sigs := happ }

theorem spaces_onSignature (index : Nat) (paramTypes resultTypes : List ValueType) :
    wp (onSignature index paramTypes resultTypes) (fun _ => Spaces env₀ p) (Spaces env₀ p)
      True c := by
  simp only [onSignature, translateSigIndexToEnv, getSignatureByEnvIndex, modifyEnv, wp_bind,
    wp_get, wp_orAbort, wp_modify, implies_true, and_true]
  intro envIndex hk _ _
  rw [← Nat.zero_add index] at hk
  exact { h with sigs := h.sigs.set (h.sigs.translate_above hk).1 _ }

theorem spaces_onImportFunc (h0 : p.numFunctionSignatures = 0) (index sigIndex : Nat) :
    wp (onImportFunc index sigIndex)
      (fun _ => Spaces env₀ { p with numFuncImports := p.numFuncImports + 1 }) (Spaces env₀ p)
      True c := by
  have hfuncs := h.funcs
  have hown := h.ownFuncs
  have hcur := h.currentFunc
  rw [h0] at hfuncs hown hcur
  have himport (new : List Func) (k : Nat) :
      Spaces env₀ { p with numFuncImports := p.numFuncImports + 1 }
        { c with
          env := { c.env with funcs := c.env.funcs ++ new }
          funcIndexMapping := c.funcIndexMapping ++ [k]
          numFuncImports := c.numFuncImports + 1 } :=
    { sigs := h.sigs
      funcs := by
        rw [h0]
        exact hfuncs.appendImport new k
      globals := h.globals
      numFuncImports := congrArg (· + 1) h.numFuncImports
      numGlobalImports := h.numGlobalImports
      ownFuncs := by
        rw [h0]
        intro k hk hk'
        omega
      currentFunc := fun k hk => by have := hcur k hk; omega }
  unfold onImportFunc
  simp only [getImport, translateSigIndexToEnv, wp_bind, wp_get, wp_orAbort, wp_assert,
    implies_true, and_true]
  intro import_ _ _ envIndex _
  cases c.importSource with
  | host moduleIndex =>
      simp only [getHostDelegate, wp_bind, wp_get, wp_orAbort, implies_true, and_true]
      intro m _
      cases m with
      | defined m => trivial
      | host m =>
          simp only [getSignatureByEnvIndex, wp_bind, wp_get, wp_orAbort, wp_pure, implies_true,
            and_true]
          intro sig _
          cases m.importDelegate.importFunc import_ sig with
          | none => exact h
          | some callback =>
              have := himport [.host ⟨envIndex, import_.moduleName, import_.fieldName, callback⟩]
                c.env.funcs.length
              exact { this with }
  | module importIndex =>
      simp only [checkImportKind, getFuncByEnvIndex, getSignatureByEnvIndex, wp_bind, wp_get,
        wp_orAbort, wp_ensure, implies_true, and_true]
      refine ⟨fun _ func _ importSig _ sig _ => ⟨fun _ => ?_, fun _ => h⟩, fun _ => h⟩
      have := himport [] importIndex
      rw [List.append_nil] at this
      exact { this with }

theorem spaces_onImportTable (index : Nat) (limits : Limits) :
    wp (onImportTable index limits)
      (fun _ => Spaces env₀ { p with numTableImports := p.numTableImports + 1 }) (Spaces env₀ p)
      True c := by
  unfold onImportTable
  simp only [getImport, wp_bind, wp_get, wp_orAbort, wp_ensure, implies_true, and_true]
  refine ⟨fun _ import_ _ => ?_, fun _ => h⟩
  cases c.importSource with
  | host moduleIndex =>
      simp only [getHostDelegate, wp_bind, wp_get, wp_orAbort, implies_true, and_true]
      intro m _
      cases m with
      | defined m => trivial
      | host m =>
          simp only [wp_pure]
          cases m.importDelegate.importTable import_ (newTable limits) with
          | none => exact h
          | some table =>
              simp only [modifyEnv, checkImportLimits, setTableIndex, modifyModule,
                appendHostExport, wp_bind, wp_modify, wp_ensure]
              exact ⟨fun _ => { h with }, fun _ => { h with }⟩
  | module importIndex =>
      simp only [checkImportKind, checkImportLimits, setTableIndex, modifyModule, wp_bind,
        wp_orAbort, wp_ensure, wp_modify, implies_true, and_true]
      exact ⟨fun _ table _ => ⟨fun _ => { h with }, fun _ => h⟩, fun _ => h⟩

theorem spaces_onImportMemory (index : Nat) (limits : Limits) :
    wp (onImportMemory index limits)
      (fun _ => Spaces env₀ { p with numMemoryImports := p.numMemoryImports + 1 })
      (Spaces env₀ p) True c := by
  unfold onImportMemory
  simp only [getImport, wp_bind, wp_get, wp_orAbort, wp_ensure, implies_true, and_true]
  refine ⟨fun _ import_ _ => ?_, fun _ => h⟩
  cases c.importSource with
  | host moduleIndex =>
      simp only [getHostDelegate, wp_bind, wp_get, wp_orAbort, implies_true, and_true]
      intro m _
      cases m with
      | defined m => trivial
      | host m =>
          simp only [wp_pure]
          cases m.importDelegate.importMemory import_ with
          | none => exact h
          | some memory =>
              simp only [modifyEnv, checkImportLimits, setMemoryIndex, modifyModule,
                appendHostExport, wp_bind, wp_modify, wp_ensure]
              exact ⟨fun _ => { h with }, fun _ => { h with }⟩
  | module importIndex =>
      simp only [checkImportKind, checkImportLimits, setMemoryIndex, modifyModule, wp_bind,
        wp_orAbort, wp_ensure, wp_modify, implies_true, and_true]
      exact ⟨fun _ memory _ => ⟨fun _ => { h with }, fun _ => h⟩, fun _ => h⟩

theorem spaces_onImportGlobal (h0 : p.numGlobals = 0) (index : Nat) (type : ValueType)
    (mutable_ : Bool) :
    wp (onImportGlobal index type mutable_)
      (fun _ => Spaces env₀ { p with numGlobalImports := p.numGlobalImports + 1 })
      (Spaces env₀ p) True c := by
  have hglobals := h.globals
  rw [h0] at hglobals
  have himport (new : List Global) (k : Nat) :
      Spaces env₀ { p with numGlobalImports := p.numGlobalImports + 1 }
        { c with
          env := { c.env with globals := c.env.globals ++ new }
          globalIndexMapping := c.globalIndexMapping ++ [k]
          numGlobalImports := c.numGlobalImports + 1 } :=
    { h with
      globals := by
        rw [h0]
        exact hglobals.appendImport new k
      numGlobalImports := congrArg (· + 1) h.numGlobalImports }
  unfold onImportGlobal
  simp only [getImport, wp_bind, wp_get, wp_orAbort, implies_true, and_true]
  intro import_ _
  cases c.importSource with
  | host moduleIndex =>
      simp only [getHostDelegate, wp_bind, wp_get, wp_orAbort, implies_true, and_true]
      intro m _
      cases m with
      | defined m => trivial
      | host m =>
          simp only [wp_pure]
          cases m.importDelegate.importGlobal import_ ⟨⟨type, 0⟩, mutable_⟩ with
          | none => exact h
          | some global =>
              have := himport [global] c.env.globals.length
              exact { this with }
  | module importIndex =>
      simp only [checkImportKind, wp_bind, wp_ensure]
      refine ⟨fun _ => ?_, fun _ => h⟩
      have := himport [] importIndex
      rw [List.append_nil] at this
      exact { this with }

theorem spaces_onFunctionSignaturesCount (h0 : p.numFunctionSignatures = 0) (count : Nat) :
    wp (onFunctionSignaturesCount count)
      (fun _ => Spaces env₀ { p with numFunctionSignatures := count }) (Spaces env₀ p) True c := by
  have hfuncs := h.funcs
  have hcur := h.currentFunc
  rw [h0] at hfuncs hcur
  have happ := hfuncs.appendOwn count (.defined ⟨0, 0, 0, 0, []⟩)
  refine { h with funcs := happ, ownFuncs := fun k hk hk' => ?_, currentFunc := fun k hk => ?_ }
  · simp only [List.length_append, List.length_replicate] at hk hk'
    refine ⟨⟨0, 0, 0, 0, []⟩, ?_⟩
    rw [List.getElem?_append_right (by omega), List.getElem?_replicate, if_pos (by omega)]
  · have := hcur k hk
    omega

theorem spaces_onFunctionSignature (index sigIndex : Nat) :
    wp (onFunctionSignature index sigIndex) (fun _ => Spaces env₀ p) (Spaces env₀ p) True c := by
  simp only [onFunctionSignature, translateDefinedFuncIndexToEnv, translateFuncIndexToEnv,
    translateSigIndexToEnv, wp_bind, wp_get, wp_orAbort, implies_true, and_true]
  intro k hk
  refine wp_getDefinedFunc fun func _ => ?_
  intro envIndex _
  exact h.setOwnFunc (h.translateDefinedFunc hk).1 _

theorem spaces_onGlobalCount (h0 : p.numGlobals = 0) (count : Nat) :
    wp (onGlobalCount count) (fun _ => Spaces env₀ { p with numGlobals := count }) (Spaces env₀ p)
      True c := by
  have hglobals := h.globals
  rw [h0] at hglobals
  exact { h with globals := hglobals.appendOwn count _ }

theorem spaces_beginGlobal (index : Nat) (type : ValueType) (mutable_ : Bool) :
    wp (beginGlobal index type mutable_) (fun _ => Spaces env₀ p) (Spaces env₀ p) True c := by
  simp only [beginGlobal, translateDefinedGlobalIndexToEnv, translateGlobalIndexToEnv,
    getGlobalByEnvIndex, setGlobal, modifyEnv, wp_bind, wp_get, wp_orAbort, wp_modify,
    implies_true, and_true]
  exact fun k hk global _ => h.setGlobal hk _

theorem spaces_endGlobalInitExpr (index : Nat) :
    wp (endGlobalInitExpr index) (fun _ => Spaces env₀ p) (Spaces env₀ p) True c := by
  simp only [endGlobalInitExpr, translateDefinedGlobalIndexToEnv, translateGlobalIndexToEnv,
    getGlobalByEnvIndex, setGlobal, modifyEnv, wp_bind, wp_get, wp_orAbort, wp_modify,
    implies_true, and_true]
  exact fun k hk global _ => h.setGlobal hk _

theorem spaces_beginFunctionBody (index : Nat) :
    wp (beginFunctionBody index) (fun _ => Spaces env₀ p) (Spaces env₀ p) True c := by
  simp only [beginFunctionBody, translateDefinedFuncIndexToEnv, translateFuncIndexToEnv,
    getSignatureByEnvIndex, getIstreamOffset, wp_bind, wp_get, wp_orAbort, wp_modify, wp_pure,
    implies_true, and_true]
  intro k hk
  have hown := h.translateDefinedFunc hk
  refine wp_getDefinedFunc fun func _ => ?_
  intro sig _ fixups _
  have hcur : Spaces env₀ p { c with
      currentFunc := some k, depthFixups := [], typeStack := [], labelStack := [] } :=
    { h with currentFunc := fun i hi => by cases hi; exact hown }
  have hloop : Preserves
      (fun c' : Context => Spaces env₀ p c' ∧ c'.env.funcs.length = c.env.funcs.length)
      (forEach (fun fixup => emitI32At fixup c.istreamOffset) fixups) := inferInstance
  refine (hloop.wp _ ⟨hcur, rfl⟩).mono (fun _ c' h' => ?_) (fun _ h' => h'.1) id
  rw [wp_setDefinedFunc]
  have := h'.1.setOwnFunc (k := k) (by rw [h'.2]; exact hown.1)
    { func with
      offset := c.istreamOffset
      localDeclCount := 0
      localCount := 0
      paramAndLocalTypes := func.paramAndLocalTypes ++ sig.paramTypes }
  exact { this with }

theorem spaces_onLocalDeclCount (count : Nat) :
    wp (onLocalDeclCount count) (fun _ => Spaces env₀ p) (Spaces env₀ p) True c := by
  exact wp_bind.mpr (wp_getCurrentFunc fun k func hk _ => h.setOwnFunc (h.currentFunc k hk).1 _)

end Callbacks

instance (declIndex count : Nat) (type : ValueType) :
    Preserves (Spaces env₀ p) (onLocalDecl declIndex count type) := by
  have hlabels := preserves_setLabelStack (J := Spaces env₀ p)
  have hloop (type : ValueType) : Preserves (Spaces env₀ p) (do
      let (funcIndex, func) ← getCurrentFunc
      setDefinedFunc funcIndex { func with paramAndLocalTypes := func.paramAndLocalTypes ++ [type] }
      pushType type) := ⟨fun c h => by
    refine wp_bind.mpr (wp_getCurrentFunc fun k func hk _ => ?_)
    exact Preserves.wp (m := pushType type) _ (h.setOwnFunc (h.currentFunc k hk).1 _)⟩
  refine ⟨fun c h => ?_⟩
  unfold onLocalDecl
  refine wp_bind.mpr (wp_getCurrentFunc fun k func hk _ => ?_)
  exact wp_bind.mpr (Preserves.wp _ (h.setOwnFunc (h.currentFunc k hk).1 _))

instance : Preserves (Spaces env₀ p) endFunctionBody := by
  have : Preserves (Spaces env₀ p) (Callback.modify fun c =>
      { c with currentFunc := none, typeStack := [] }) :=
    Preserves.modify fun c h => { h with currentFunc := fun k hk => by cases hk }
  simp only [endFunctionBody]
  infer_instance

variable {data : List UInt8} {p' : Proto} {o : Nat} {e : Event}

/-- The step lemma: what a callback does to the index spaces the automaton counts. -/
theorem spaces_count (hp : p.Ordered) (h : Spaces env₀ p c)
    (hstep : Proto.step data p (o, e) = some p') :
    wp (interpreterReader e) (fun _ => Spaces env₀ (p.count e)) (Spaces env₀ p) True c := by
  obtain ⟨hsig, himportFunc, himportGlobal, hfunc, hglobal⟩ := hp.zero_of_count hstep
  cases e with
  | onSignatureCount count => exact spaces_onSignatureCount h (hsig _ rfl) count
  | onSignature index paramTypes resultTypes => exact spaces_onSignature h index _ _
  | onImportFunc index sigIndex => exact spaces_onImportFunc h (himportFunc _ _ rfl) index sigIndex
  | onImportTable index limits => exact spaces_onImportTable h index limits
  | onImportMemory index limits => exact spaces_onImportMemory h index limits
  | onImportGlobal index type mutable_ =>
      exact spaces_onImportGlobal h (himportGlobal _ _ _ rfl) index type mutable_
  | onFunctionSignaturesCount count =>
      exact spaces_onFunctionSignaturesCount h (hfunc _ rfl) count
  | onFunctionSignature index sigIndex => exact spaces_onFunctionSignature h index sigIndex
  | onGlobalCount count => exact spaces_onGlobalCount h (hglobal _ rfl) count
  | beginGlobal index type mutable_ => exact spaces_beginGlobal h index type mutable_
  | endGlobalInitExpr index => exact spaces_endGlobalInitExpr h index
  | beginFunctionBody index => exact spaces_beginFunctionBody h index
  | onLocalDeclCount count => exact spaces_onLocalDeclCount h count
  | onLocalDecl declIndex count type =>
      exact Preserves.wp (m := onLocalDecl declIndex count type) c h
  | endFunctionBody _ => exact Preserves.wp (m := endFunctionBody) c h
  | onExpr instr => exact Preserves.wp (m := onExpr instr) c h
  | onImportCount count => exact Preserves.wp (m := onImportCount count) c h
  | onImport index moduleName fieldName =>
      exact Preserves.wp (m := onImport index moduleName fieldName) c h
  | onTable _ limits => exact Preserves.wp (m := onTable limits) c h
  | onMemory _ limits => exact Preserves.wp (m := onMemory limits) c h
  | onExport _ kind itemIndex name => exact Preserves.wp (m := onExport kind itemIndex name) c h
  | onStartFunction funcIndex => exact Preserves.wp (m := onStartFunction funcIndex) c h
  | endElemSegmentInitExpr _ => exact Preserves.wp (m := endElemSegmentInitExpr) c h
  | onElemSegmentFunctionIndex _ funcIndex =>
      exact Preserves.wp (m := onElemSegmentFunctionIndex funcIndex) c h
  | onDataSegmentData _ data => exact Preserves.wp (m := onDataSegmentData data) c h
  | onInitExpr _ e => exact Preserves.wp (m := onInitExpr e) c h
  | onTableCount | onMemoryCount => exact { h with }
  | _ => exact h

/-- The same, with the state the automaton moves to. -/
theorem spaces_step (hp : p.Ordered) (h : Spaces env₀ p c)
    (hstep : Proto.step data p (o, e) = some p') :
    wp (interpreterReader e) (fun _ => Spaces env₀ p') (Spaces env₀ p) True c := by
  rw [Proto.step_counts hstep]
  exact (spaces_count hp h hstep).mono (fun _ _ h' => h'.of_counts) (fun _ => id) id

end Interpreter

end SexprWasm
