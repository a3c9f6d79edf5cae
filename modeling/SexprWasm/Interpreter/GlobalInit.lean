import SexprWasm.Interpreter.EntitySpaces

/-!
# The initial values of globals

The value of a defined global goes through `init_expr_value`, which the
last callback of an init expression has set. `GlobalDecls.read` collects
what the module declares: the type of each global, and its init
expression with the globals there are at that point. The value of the
expression (`GlobalDecl.value?`) is what the global gets, with the type
that was declared, exactly in the modules whose init expressions are
typed (`GlobalDecl.initType?`). The loader checks none of this.
-/

namespace SexprWasm

/-! ## The reader in the global section -/

namespace Proto

variable {data : List UInt8} {p p' : Proto} {o : Nat} {e : Event}

/-- The globals whose init expressions are behind the reader. -/
def finishedGlobals (p : Proto) : Nat :=
  if p.sectionCode < 6 then 0
  else if p.sectionCode = 6 then
    match p.phase with
    | .opened => 0
    | .entries _ k | .beforeInit _ k | .inInit _ k => k
    | .afterInit _ k => k + 1
    | _ => p.numGlobals
  else p.numGlobals

/-- The reader is between the header of a global and the end of its init expression. -/
def inGlobal (p : Proto) : Bool :=
  p.sectionCode = 6 &&
    match p.phase with
    | .beforeInit _ _ | .inInit _ _ => true
    | _ => false

/-- What a callback says of the globals that have been read. -/
def globalStep (p p' : Proto) : Event → Prop
  | .beginGlobal i _ _ => p.finishedGlobals = i ∧ p'.finishedGlobals = i ∧ p.inGlobal = false ∧
      p'.inGlobal = true
  | .endGlobalInitExpr i => p.finishedGlobals = i ∧ p'.finishedGlobals = i + 1 ∧
      p.inGlobal = true ∧ p'.inGlobal = false
  | .onGlobalCount _ | .onImportGlobal _ _ _ => p.finishedGlobals = 0 ∧ p'.finishedGlobals = 0 ∧
      p.inGlobal = false ∧ p'.inGlobal = false
  | _ => p'.finishedGlobals = p.finishedGlobals ∧ p'.inGlobal = p.inGlobal

theorem Ordered.numGlobals_eq_zero (hp : p.Ordered)
    (h : p.sectionCode < 6 ∨ p.sectionCode = 6 ∧ p.phase = .opened) : p.numGlobals = 0 := by
  refine hp.unreached 6 _ (fun hreached => ?_) rfl
  rcases hreached with hlt | ⟨heq, hopened⟩
  · omega
  · rcases h with hlt | ⟨-, hphase⟩
    · omega
    · exact hopened hphase

theorem step_globalStep_of_eq (hp : p.Ordered) (h6 : p.sectionCode = 6)
    (h : Proto.step data p (o, e) = some p') : p.globalStep p' e := by
  have hfits := hp.fits
  rw [h6] at hfits
  have h0 := hp.numGlobals_eq_zero
  have hcounted : ∀ n, p.phase = .entries n n → n = p.numGlobals := fun n hphase =>
    hp.counted n n _ (by rw [hphase]; rfl) (by rw [h6]; rfl)
  cases e
  all_goals
    simp only [Proto.step, Proto.goto, Proto.entry, Proto.endSection, Proto.beginEntry,
      Proto.importDone, Proto.beginInit, Proto.endInit, Proto.beginSection, Proto.bodyStep,
      Option.map_if, h6, Nat.reduceEqDiff, false_and, if_false, reduceCtorEq] at h
    repeat' split at h
  all_goals try cases h
  all_goals try rename p.phase = _ => hphase
  all_goals
    first
    | simp [globalStep, finishedGlobals, inGlobal, h6, hphase]; done
    | grind [globalStep, finishedGlobals, inGlobal, Phase.fits]

theorem inGlobal_of_ne (h6 : p.sectionCode ≠ 6) : p.inGlobal = false := by
  rw [inGlobal, decide_eq_false h6, Bool.false_and]

/-- Outside of their section nothing is read of the globals. -/
theorem step_finishedGlobals (hp : p.Ordered) (h6 : p.sectionCode ≠ 6)
    (h : Proto.step data p (o, e) = some p') :
    p'.finishedGlobals = p.finishedGlobals ∧ p'.inGlobal = false := by
  have hglobals : ∀ q : Proto, q.counter? 6 = some q.numGlobals := fun _ => rfl
  have hkept : p'.sectionCode = p.sectionCode → p'.counter? 6 = p.counter? 6 →
      p'.finishedGlobals = p.finishedGlobals ∧ p'.inGlobal = false := by
    intro hcode hcount
    rw [hglobals, hglobals, Option.some_inj] at hcount
    refine ⟨?_, inGlobal_of_ne (hcode ▸ h6)⟩
    simp only [finishedGlobals, hcode, hcount, if_neg h6]
  cases step_move hp.fits h with
  | outside hphase hphase' hcode hopened hcount =>
    have hcount := hcount 6
    by_cases h6' : p'.sectionCode = 6
    · have hzero := hp.numGlobals_eq_zero (.inl (by omega))
      rw [hglobals, hglobals, Option.some_inj, hzero] at hcount
      have hlt : p.sectionCode < 6 := by omega
      constructor
      · rw [finishedGlobals, finishedGlobals, if_pos hlt, h6', if_neg (by decide), if_pos rfl, hcount]
        cases hp' : p'.phase <;> simp_all [Phase.entry?]
      · rw [inGlobal]
        cases hp' : p'.phase <;> simp_all [Phase.entry?]
    · refine ⟨?_, inGlobal_of_ne h6'⟩
      have hzero := hp.numGlobals_eq_zero
      rw [hglobals, hglobals, Option.some_inj] at hcount
      simp only [finishedGlobals, if_neg h6, if_neg h6', hcount]
      grind
  | count n _ _ hcode _ hothers => exact hkept hcode (hothers 6 (Ne.symm h6))
  | inside n k _ _ hcode hcount => exact hkept hcode (hcount 6)
  | past n k _ _ hcode hcount => exact hkept hcode (hcount 6)
  | done n k _ _ _ hcode hcount => exact hkept hcode (hcount 6)

/-- The only callbacks between the header and the end of the init expression. -/
theorem event_of_inGlobal (hin : p.inGlobal = true) (h : Proto.step data p (o, e) = some p') :
    (∃ i, e = .beginGlobalInitExpr i) ∨ (∃ i expr, e = .onInitExpr i expr) ∨
      ∃ i, e = .endGlobalInitExpr i := by
  rw [inGlobal, Bool.and_eq_true, decide_eq_true_iff] at hin
  obtain ⟨h6, hin⟩ := hin
  cases e
  all_goals
    simp only [Proto.step, Proto.goto, Proto.entry, Proto.endSection, Proto.beginEntry,
      Proto.importDone, Proto.beginInit, Proto.endInit, Proto.beginSection, Proto.bodyStep,
      Option.map_if, h6, Nat.reduceEqDiff, false_and, if_false, reduceCtorEq] at h
    repeat' split at h
  all_goals try cases h
  all_goals grind

theorem step_globalStep (hp : p.Ordered) (h : Proto.step data p (o, e) = some p') :
    p.globalStep p' e := by
  by_cases h6 : p.sectionCode = 6
  · exact step_globalStep_of_eq hp h6 h
  have hin := inGlobal_of_ne h6
  obtain ⟨hfinished, hin'⟩ := step_finishedGlobals hp h6 h
  cases e with
  | beginGlobal =>
    simp only [Proto.step, Proto.beginEntry, h6, false_and, if_false] at h
    split at h <;> cases h
  | endGlobalInitExpr =>
    simp only [Proto.step, Proto.endInit, h6, false_and, if_false] at h
    split at h <;> cases h
  | onGlobalCount =>
    simp only [Proto.step, Proto.goto, h6, false_and, if_false, Option.map_none] at h
    cases h
  | onImportGlobal =>
    have h2 : p.sectionCode = 2 := by
      simp only [Proto.step, Proto.importDone] at h
      grind
    have hzero : p.finishedGlobals = 0 := by
      rw [finishedGlobals, h2]
      rfl
    exact ⟨hzero, hfinished.trans hzero, hin, hin'⟩
  | _ => exact ⟨hfinished, hin'.trans hin.symm⟩

end Proto

namespace Interpreter

set_option synthInstance.maxSize 2000

open Callback

/-! ## What is declared -/

/-- A global of the module. Its init expression comes with the globals there are when it is
read. -/
structure GlobalDecl where
  type : ValueType
  init : Option (InitExpr × List Global) := none

/-- `current` is between its header and the end of its init expression. -/
structure GlobalDecls where
  done : List GlobalDecl := []
  current : Option GlobalDecl := none

def GlobalDecls.step (ds : GlobalDecls) : Context × Event → GlobalDecls
  | (_, .beginGlobal _ type _) => { ds with current := some { type } }
  | (c, .onInitExpr _ expr) =>
    { ds with current := ds.current.map fun d => { d with init := some (expr, c.env.globals) } }
  | (_, .endGlobalInitExpr _) => { done := ds.done ++ ds.current.toList }
  | _ => ds

def GlobalDecls.read (h : List (Context × Event)) : GlobalDecls := h.foldl step {}

/-- The value of an init expression, given those of the globals. -/
def evalInitExpr (global? : Nat → Option TypedValue) : InitExpr → Option TypedValue
  | .i32Const value => some ⟨.i32, value⟩
  | .i64Const value => some ⟨.i64, value⟩
  | .f32Const valueBits => some ⟨.f32, valueBits⟩
  | .f64Const valueBits => some ⟨.f64, valueBits⟩
  | .getGlobal index => global? index

/-- The type of an init expression, given those of the globals. -/
def typeOfInitExpr (global? : Nat → Option WasmType) : InitExpr → Option WasmType
  | .i32Const _ => some .i32
  | .i64Const _ => some .i64
  | .f32Const _ => some .f32
  | .f64Const _ => some .f64
  | .getGlobal index => global? index

/-- The index spaces as own global `i` may use them: what is imported, and what is earlier. -/
def EntitySpace.before (s : EntitySpace) (i : Nat) : EntitySpace :=
  { s with own := s.own.take i }

/-- The value of a global by its index. -/
def EntitySpace.value? (s : EntitySpace) (globals : List Global) (index : Nat) :
    Option TypedValue := do
  let entity ← s.entity? index
  let global ← globals[entity]?
  some global.typedValue

/-- What the init expression of own global `i` says. -/
def GlobalDecl.value? (d : GlobalDecl) (s : EntitySpace) (i : Nat) : Option TypedValue := do
  let (expr, globals) ← d.init
  evalInitExpr ((s.before i).value? globals) expr

/-- The type of the init expression of own global `i`: an imported global has the type it is
found with, an earlier one the type it is declared with. -/
def GlobalDecl.initType? (d : GlobalDecl) (s : EntitySpace) (ds : List GlobalDecl) (i : Nat) :
    Option WasmType := do
  let (expr, globals) ← d.init
  typeOfInitExpr (fun index => match s.imports[index]? with
    | some entity => (globals[entity]?).map (·.typedValue.type)
    | none => ((ds.take i)[index - s.imports.length]?).map (·.type.toType)) expr

/-! ## The callbacks -/

section Kept

variable {v : List Global}

instance : TypeFree (fun c => c.env.globals = v) := ⟨fun _ _ h => h⟩
instance : LabelFree (fun c => c.env.globals = v) := ⟨fun _ _ h => h⟩
instance : CodeFree (fun c => c.env.globals = v) := ⟨fun _ _ _ _ _ h => h⟩
instance : ModuleFree (fun c => c.env.globals = v) := ⟨fun _ _ _ _ _ _ h => h⟩
instance : StoreFree (fun c => c.env.globals = v) := ⟨fun _ _ _ h => h⟩
instance : FuncFree (fun c => c.env.globals = v) := ⟨fun _ _ _ _ h => h⟩
instance : ExportFree (fun c => c.env.globals = v) := ⟨fun _ _ _ _ _ h => h⟩

instance (funcIndex : Nat) : Preserves (fun c => c.env.globals = v) (appendFuncImport funcIndex) :=
  Preserves.modify fun _ h => h

instance (count : Nat) :
    Preserves (fun c => c.env.globals = v) (onFunctionSignaturesCount count) :=
  Preserves.modify fun _ h => h

instance (count : Nat) : Preserves (fun c => c.env.globals = v) (onSignatureCount count) :=
  Preserves.modify fun _ h => h

end Kept

/-- The callbacks that change the globals of the environment. -/
def writesGlobals : Event → Bool
  | .onGlobalCount _ | .onImportGlobal _ _ _ | .beginGlobal _ _ _ | .endGlobalInitExpr _ => true
  | _ => false

variable {env₀ : Environment} {s s' : IndexSpaces} {ds : GlobalDecls} {p p' : Proto}
  {c c' : Context} {e : Event} {data : List UInt8} {o : Nat}

theorem preserves_globals (v : List Global) (he : writesGlobals e = false) :
    Preserves (fun c => c.env.globals = v) (interpreterReader e) := by
  cases e with
  | onGlobalCount | onImportGlobal | beginGlobal | endGlobalInitExpr => cases he
  | _ =>
    simp only [interpreterReader]
    infer_instance

theorem globals_of_not_writes (he : writesGlobals e = false)
    (hrun : interpreterReader e c = .ok () c') : c'.env.globals = c.env.globals :=
  ((preserves_globals c.env.globals he).wp c rfl).of_ok hrun

theorem step_globals (he : writesGlobals e = false) (hread : s.step (c, e) = some s') :
    s'.globals = s.globals := by
  cases e with
  | onGlobalCount | onImportGlobal => cases he
  | onImportFunc =>
    obtain ⟨entity, -, rfl⟩ := Option.map_eq_some_iff.mp hread
    rfl
  | _ =>
    cases hread
    rfl

theorem wp_onInitExpr_value (h : Maps s c) (expr : InitExpr) :
    wp (onInitExpr expr) (fun _ c' => c'.env.globals = c.env.globals ∧
      evalInitExpr (s.globals.value? c.env.globals) expr = some c'.initExprValue)
      (fun _ => True) True c := by
  cases expr with
  | getGlobal index =>
    simp only [onInitExpr, getGlobalByModuleIndex, translateGlobalIndexToEnv, getGlobalByEnvIndex,
      wp_bind, wp_get, wp_orAbort, wp_modify, implies_true, true_and, and_true]
    intro entity hentity global hglobal
    simp only [evalInitExpr, EntitySpace.value?, h.global_entity?, hentity, hglobal,
      Option.bind_eq_bind, Option.bind_some]
  | _ => exact ⟨rfl, rfl⟩

/-- Where an own global is. -/
theorem Designated.own_global (h : Designated env₀ s p c) {i entity : Nat}
    (hown : s.globals.own[i]? = some entity) :
    i < p.numGlobals ∧ entity = c.env.globals.length - p.numGlobals + i := by
  rw [h.maps.global_own, h.spaces.numGlobalImports, Nat.add_comm] at hown
  exact h.spaces.globals.translate hown

theorem Designated.length_globals_own (h : Designated env₀ s p c) :
    s.globals.own.length = p.numGlobals := by
  have hlen := h.spaces.globals.length
  rw [h.maps.globals, List.length_append, ← h.spaces.numGlobalImports, h.maps.numGlobalImports] at hlen
  omega

/-- Own global `i` has the value its init expression had when it was read, and what is not
from `i` on is still the same. -/
structure Initialized (s : EntitySpace) (globals : List Global) (i : Nat) (d : GlobalDecl) :
    Prop where
  stored : ∃ entity global, s.own[i]? = some entity ∧ globals[entity]? = some global ∧
    ∀ expr before, d.init = some (expr, before) →
      evalInitExpr (s.value? before) expr = some global.typedValue
  unchanged : ∀ expr before, d.init = some (expr, before) → ∀ entity,
    (∀ k, i ≤ k → s.own[k]? ≠ some entity) → before[entity]? = globals[entity]?

/-- What is declared is what has been initialised. -/
structure GlobalsRead (s : EntitySpace) (ds : GlobalDecls) (p : Proto) (c : Context) : Prop where
  finished : ds.done.length = p.finishedGlobals
  opened : ds.current.isSome = p.inGlobal
  init : ∀ d expr before, ds.current = some d → d.init = some (expr, before) →
    before = c.env.globals ∧ evalInitExpr (s.value? before) expr = some c.initExprValue
  done : ∀ i d, ds.done[i]? = some d → Initialized s c.env.globals i d

theorem globalsRead_initial (env : Environment) :
    GlobalsRead {} {} .initial (initialContext env) where
  finished := rfl
  opened := rfl
  init d expr before h := by cases h
  done i d h := by cases h

/-- Nothing has been declared yet. -/
theorem GlobalsRead.of_zero {sp sp' : EntitySpace} (h : GlobalsRead sp ds p c)
    (h0 : p.finishedGlobals = 0) (h0' : p'.finishedGlobals = 0) (hin : p.inGlobal = false)
    (hin' : p'.inGlobal = false) : GlobalsRead sp' ds p' c' := by
  have hnone : ds.current = none := by
    rw [← Option.isNone_iff_eq_none, ← Option.not_isSome, h.opened, hin]
    rfl
  have hnil : ds.done = [] := List.length_eq_zero_iff.mp (h.finished.trans h0)
  exact
    { finished := by rw [hnil, h0']; rfl
      opened := by rw [hnone, hin']; rfl
      init := fun d expr before hd => by rw [hnone] at hd; cases hd
      done := fun i d hd => by rw [hnil] at hd; cases hd }

/-- A later global is written. -/
theorem Initialized.set {sp : EntitySpace} {globals : List Global} {i j entity : Nat}
    {d : GlobalDecl} (h : Initialized sp globals i d) (hown : sp.own[j]? = some entity)
    (hne : sp.own[i]? ≠ some entity) (hij : i ≤ j) (global : Global) :
    Initialized sp (globals.set entity global) i d where
  stored := by
    obtain ⟨entity', global', hown', hglobal', heval⟩ := h.stored
    refine ⟨entity', global', hown', ?_, heval⟩
    rwa [List.getElem?_set_ne]
    rintro rfl
    exact hne hown'
  unchanged expr before hinit entity' hentity' := by
    rw [h.unchanged expr before hinit entity' hentity', List.getElem?_set_ne]
    rintro rfl
    exact hentity' j hij hown

theorem Designated.done_set (h : Designated env₀ s p c) (hds : GlobalsRead s.globals ds p c)
    {entity : Nat} (hown : s.globals.own[ds.done.length]? = some entity) (global : Global) :
    ∀ i d, ds.done[i]? = some d →
      Initialized s.globals (c.env.globals.set entity global) i d := by
  intro i d hd
  have hlt := (List.getElem?_eq_some_iff.mp hd).1
  refine (hds.done i d hd).set hown (fun hi => ?_) (Nat.le_of_lt hlt) global
  have hi := (h.own_global hi).2
  have hj := (h.own_global hown).2
  omega

/-- The end of an init expression. -/
theorem GlobalsRead.done_end (hds : GlobalsRead s.globals ds p c) {entity : Nat}
    (hown : s.globals.own[ds.done.length]? = some entity) {global : Global} (hglobal : c.env.globals[entity]? = some global) {d : GlobalDecl} (hd : ds.current = some d) :
    Initialized s.globals
      (c.env.globals.set entity { global with typedValue := c.initExprValue }) ds.done.length d where
  stored := by
    refine ⟨entity, _, hown, List.getElem?_set_self (List.getElem?_eq_some_iff.mp hglobal).1,
      fun expr before hinit => (hds.init d expr before hd hinit).2⟩
  unchanged expr before hinit entity' hentity' := by
    rw [(hds.init d expr before hd hinit).1, List.getElem?_set_ne]
    rintro rfl
    exact hentity' ds.done.length (Nat.le_refl _) hown

/-- The step of the invariant. -/
theorem GlobalsRead.step (hds : GlobalsRead s.globals ds p c) (h : Designated env₀ s p c)
    (hstep : Proto.step data p (o, e) = some p') (hrun : interpreterReader e c = .ok () c')
    (hread : s.step (c, e) = some s') : GlobalsRead s'.globals (ds.step (c, e)) p' c' := by
  have hglobals := Proto.step_globalStep h.ordered hstep
  obtain ⟨s'', hread', -, htranslates⟩ := reads_interpreterReader h hstep hrun
  cases e with
  | onGlobalCount | onImportGlobal =>
    obtain ⟨h0, h0', hin, hin'⟩ := hglobals
    exact hds.of_zero h0 h0' hin hin'
  | beginGlobal index type mutable_ =>
    obtain ⟨rfl, hfinished', hin, hin'⟩ := hglobals
    obtain ⟨entity, global, hown, -, hset⟩ := htranslates
    cases hread
    rw [← hds.finished] at hown
    exact
      { finished := hds.finished.trans hfinished'.symm
        opened := hin'.symm
        init := fun d expr before hd hinit => by
          cases hd
          cases hinit
        done := by
          rw [hset]
          exact h.done_set hds hown _ }
  | endGlobalInitExpr index =>
    obtain ⟨rfl, hfinished', hin, hin'⟩ := hglobals
    obtain ⟨entity, global, hown, hglobal, hset⟩ := htranslates
    cases hread
    rw [← hds.finished] at hown
    obtain ⟨d₀, hd₀⟩ := Option.isSome_iff_exists.mp (hds.opened.trans hin)
    simp only [GlobalDecls.step, hd₀, Option.toList_some]
    exact
      { finished := by
          rw [List.length_append, hds.finished, hfinished']
          rfl
        opened := hin'.symm
        init := fun d expr before hd => by cases hd
        done := by
          rw [hset]
          intro i d hd
          rcases Nat.lt_or_ge i ds.done.length with hlt | hge
          · rw [List.getElem?_append_left hlt] at hd
            exact h.done_set hds hown _ i d hd
          · rw [List.getElem?_append_right hge, List.getElem?_singleton] at hd
            split at hd
            · cases hd
              obtain rfl : i = ds.done.length := by omega
              exact hds.done_end hown hglobal hd₀
            · cases hd }
  | onInitExpr index expr =>
    obtain ⟨hfinished', hin'⟩ := hglobals
    obtain ⟨hkept, hvalue⟩ := (wp_onInitExpr_value h.maps expr).of_ok hrun
    cases hread
    exact
      { finished := hds.finished.trans hfinished'.symm
        opened := by rw [GlobalDecls.step, Option.isSome_map, hds.opened, hin']
        init := fun d expr' before hd hinit => by
          obtain ⟨d₀, -, rfl⟩ := Option.map_eq_some_iff.mp hd
          cases hinit
          exact ⟨hkept.symm, hvalue⟩
        done := by
          rw [hkept]
          exact hds.done }
  | beginGlobalInitExpr index =>
    obtain ⟨hfinished', hin'⟩ := hglobals
    cases hrun
    cases hread
    exact { hds with
      finished := hds.finished.trans hfinished'.symm
      opened := hds.opened.trans hin'.symm }
  | _ =>
    obtain ⟨hfinished', hin'⟩ := hglobals
    have hkept := globals_of_not_writes rfl hrun
    have hin : p.inGlobal = false := by
      by_contra hin
      rcases Proto.event_of_inGlobal (eq_true_of_ne_false hin) hstep with
        ⟨_, he⟩ | ⟨_, _, he⟩ | ⟨_, he⟩ <;> cases he
    rw [step_globals rfl hread]
    exact
      { finished := hds.finished.trans hfinished'.symm
        opened := hds.opened.trans hin'.symm
        init := fun d expr before hd => by
          have hsome : ds.current.isSome = true := Option.isSome_of_eq_some hd
          rw [hds.opened, hin] at hsome
          cases hsome
        done := by
          rw [hkept]
          exact hds.done }

/-! ## Typed init expressions -/

/-- Own global `i` has the type that is declared, and the value of its init expression. -/
def InitializedAs (s : EntitySpace) (globals : List Global) (i : Nat) (d : GlobalDecl) : Prop :=
  ∃ entity global, s.own[i]? = some entity ∧ globals[entity]? = some global ∧
    global.typedValue.type = d.type ∧ d.value? s i = some global.typedValue

section Typed

variable {sp : EntitySpace} {decls : List GlobalDecl} {globals before : List Global} {i : Nat}
  {d : GlobalDecl} {expr : InitExpr}

theorem EntitySpace.entity?_before {index entity : Nat}
    (h : (sp.before i).entity? index = some entity) : sp.entity? index = some entity := by
  rw [EntitySpace.entity?, EntitySpace.before] at h
  rw [EntitySpace.entity?, ← List.take_append_drop i sp.own, ← List.append_assoc,
    List.getElem?_append_left (List.getElem?_eq_some_iff.mp h).1, h]

/-- A value is the value in all of the space. -/
theorem GlobalDecl.eval_of_value? {v : TypedValue} (hinit : d.init = some (expr, before))
    (hv : d.value? sp i = some v) : evalInitExpr (sp.value? before) expr = some v := by
  rw [GlobalDecl.value?, hinit] at hv
  cases expr with
  | getGlobal index =>
    have hv : (sp.before i).value? before index = some v := hv
    obtain ⟨entity, hentity, hv⟩ := Option.bind_eq_some_iff.mp hv
    rw [evalInitExpr, EntitySpace.value?, EntitySpace.entity?_before hentity]
    exact hv
  | _ => exact hv

/-- The type of the global behind an index, where the earlier globals have their types. -/
theorem typeOf_value?_before (hlen : decls.length = sp.own.length)
    (hinj : ∀ i j entity : Nat, sp.own[i]? = some entity → sp.own[j]? = some entity → i = j)
    (hunchanged : ∀ entity : Nat, (∀ k : Nat, i ≤ k → sp.own[k]? ≠ some entity) →
      before[entity]? = globals[entity]?)
    (hearlier : ∀ (j : Nat) d', j < i → decls[j]? = some d' → InitializedAs sp globals j d') (index : Nat) :
    (match sp.imports[index]? with
    | some entity => (before[entity]?).map (·.typedValue.type)
    | none => ((decls.take i)[index - sp.imports.length]?).map (·.type.toType)) =
      ((sp.before i).value? before index).map (·.type) := by
  simp only [EntitySpace.value?, EntitySpace.entity?, EntitySpace.before]
  cases himport : sp.imports[index]? with
  | some entity =>
    rw [List.getElem?_append_left (List.getElem?_eq_some_iff.mp himport).1, himport]
    simp only [Option.bind_eq_bind, Option.bind_some]
    cases before[entity]? <;> rfl
  | none =>
    rw [List.getElem?_append_right (List.getElem?_eq_none_iff.mp himport)]
    by_cases hj : index - sp.imports.length < i ∧ index - sp.imports.length < decls.length
    · obtain ⟨hji, hlt⟩ := hj
      have hdecl := List.getElem?_eq_getElem hlt
      obtain ⟨entity, global, hown, hglobal, htype, -⟩ := hearlier _ _ hji hdecl
      have hbefore : before[entity]? = some global := by
        rw [hunchanged entity fun k hk hown' => ?_, hglobal]
        have := hinj _ _ _ hown hown'
        omega
      rw [List.getElem?_take_of_lt hji, List.getElem?_take_of_lt hji, hown, hdecl]
      simp only [Option.bind_eq_bind, Option.bind_some, hbefore, Option.map_some, htype]
    · rw [List.getElem?_eq_none (by rw [List.length_take]; omega),
        List.getElem?_eq_none (by rw [List.length_take]; omega)]
      rfl

/-- Where the earlier globals have their types, an init expression has the type of its value. -/
theorem GlobalDecl.initType?_eq (hlen : decls.length = sp.own.length)
    (hinj : ∀ i j entity : Nat, sp.own[i]? = some entity → sp.own[j]? = some entity → i = j)
    (h : Initialized sp globals i d)
    (hearlier : ∀ (j : Nat) d', j < i → decls[j]? = some d' → InitializedAs sp globals j d') :
    d.initType? sp decls i = (d.value? sp i).map (·.type) := by
  rw [GlobalDecl.initType?, GlobalDecl.value?]
  rcases hinit : d.init with _ | ⟨expr, before⟩
  · rfl
  cases expr with
  | getGlobal index =>
    exact typeOf_value?_before hlen hinj (fun entity => h.unchanged _ _ hinit entity) hearlier index
  | _ => rfl

/-- The globals are initialised as declared if and only if their init expressions are typed. -/
theorem initializedAs_iff (hlen : decls.length = sp.own.length)
    (hinj : ∀ i j entity : Nat, sp.own[i]? = some entity → sp.own[j]? = some entity → i = j)
    (h : ∀ (i : Nat) d, decls[i]? = some d → Initialized sp globals i d) :
    (∀ (i : Nat) d, decls[i]? = some d → InitializedAs sp globals i d) ↔
      ∀ (i : Nat) d, decls[i]? = some d → d.initType? sp decls i = some d.type.toType := by
  constructor
  · intro hall i d hd
    obtain ⟨entity, global, -, -, htype, hvalue⟩ := hall i d hd
    rw [GlobalDecl.initType?_eq hlen hinj (h i d hd) fun j d' _ => hall j d', hvalue,
      Option.map_some, htype]
  · intro htyped i
    induction i using Nat.strong_induction_on with
    | _ i ih =>
      intro d hd
      have htype := htyped i d hd
      rw [GlobalDecl.initType?_eq hlen hinj (h i d hd) fun j d' hj => ih j hj d'] at htype
      obtain ⟨v, hv, htype⟩ := Option.map_eq_some_iff.mp htype
      obtain ⟨entity, global, hown, hglobal, heval⟩ := (h i d hd).stored
      rcases hinit : d.init with _ | ⟨expr, before⟩
      · rw [GlobalDecl.value?, hinit] at hv
        cases hv
      · have hstored := heval expr before hinit
        rw [GlobalDecl.eval_of_value? hinit hv] at hstored
        cases hstored
        exact ⟨entity, global, hown, hglobal, htype, hv⟩

end Typed

/-! ## Loads -/

theorem GlobalDecls.read_concat (h : List (Context × Event)) (read : Context × Event) :
    GlobalDecls.read (h ++ [read]) = (GlobalDecls.read h).step read :=
  List.foldl_concat ..

theorem Proto.finishedGlobals_of_finished (hp : p.Ordered) (h : p.phase = .finished) :
    p.finishedGlobals = p.numGlobals := by
  rw [Proto.finishedGlobals]
  split
  · rename_i hlt
    exact (hp.numGlobals_eq_zero (.inl hlt)).symm
  · rw [h]
    split <;> rfl

def loadHistory (options : ReadBinaryOptions) (data : List UInt8) (env : Environment) :
    List (Context × Event) :=
  history interpreterReader (BinaryReader.events { data, options }) (initialContext env)

/-- The globals a module declares, in the order of their indexes. -/
def declaredGlobals (options : ReadBinaryOptions) (data : List UInt8) (env : Environment) :
    List GlobalDecl :=
  (GlobalDecls.read (loadHistory options data env)).done

/-- In a load that is accepted the globals of the module get the values of their init expressions,
with the types they are declared with, if and only if every init expression is there and has that
type, among the imported and the earlier globals. -/
theorem wasmReadBinaryInterpreter_initializes {options : ReadBinaryOptions} {env env' : Environment}
    (haccepted : wasmReadBinaryInterpreter options data env = .ok () env') :
    ∃ s, IndexSpaces.read (loadHistory options data env) = some s ∧
      (declaredGlobals options data env).length = s.globals.own.length ∧
      (∀ (i : Nat) d expr before, (declaredGlobals options data env)[i]? = some d →
        d.init = some (expr, before) → ∀ entity : Nat,
          (∀ k : Nat, i ≤ k → s.globals.own[k]? ≠ some entity) →
          before[entity]? = env'.globals[entity]?) ∧
      ((∀ (i : Nat) d, (declaredGlobals options data env)[i]? = some d →
        InitializedAs s.globals env'.globals i d) ↔
        ∀ (i : Nat) d, (declaredGlobals options data env)[i]? = some d →
          d.initType? s.globals (declaredGlobals options data env) i = some d.type.toType) := by
  rw [wasmReadBinaryInterpreter] at haccepted
  rcases hread : wasmReadBinary interpreterReader options data (initialContext env) with
    ⟨u, c⟩ | c | _
  · rw [hread] at haccepted
    cases haccepted
    obtain ⟨p, hfinished, s, hspaces, hdesignated, hds⟩ :=
      BinaryReader.wasmReadBinary_history_finished
        (J := fun h p c => ∃ s, IndexSpaces.read h = some s ∧ Designated env s p c ∧
          GlobalsRead s.globals (GlobalDecls.read h) p c)
        (by
          rintro h p p' o e c c' ⟨s, hspaces, hdesignated, hds⟩ hstep he
          obtain ⟨s', hread, hdesignated'⟩ := hdesignated.step hstep he
          refine ⟨s', IndexSpaces.read_concat hspaces hread, hdesignated', ?_⟩
          rw [GlobalDecls.read_concat]
          exact hds.step hdesignated hstep he hread)
        ⟨{}, rfl, designated_initial env, globalsRead_initial env⟩ hread
    have hlen : (declaredGlobals options data env).length = s.globals.own.length := by
      rw [hdesignated.length_globals_own,
        ← Proto.finishedGlobals_of_finished hdesignated.ordered hfinished]
      exact hds.finished
    refine ⟨s, hspaces, hlen, fun i d expr before hd hinit => (hds.done i d hd).unchanged _ _ hinit,
      initializedAs_iff hlen (fun i j entity hi hj => ?_) hds.done⟩
    have hi := (hdesignated.own_global hi).2
    have hj := (hdesignated.own_global hj).2
    omega
  · rw [hread] at haccepted
    cases haccepted
  · rw [hread] at haccepted
    cases haccepted

/-- A global, and one with the value of the first. -/
def twoGlobals : List UInt8 :=
  [0x00, 0x61, 0x73, 0x6d, 0x0d, 0x00, 0x00, 0x00,
    0x06, 0x0b, 0x02, 0x7f, 0x00, 0x41, 0x07, 0x0b, 0x7f, 0x00, 0x23, 0x00, 0x0b]

theorem wasmReadBinaryInterpreter_initializes_twoGlobals :
    ∃ env' s, wasmReadBinaryInterpreter { readDebugNames := false } twoGlobals {} = .ok () env' ∧
      IndexSpaces.read (loadHistory { readDebugNames := false } twoGlobals {}) = some s ∧
      ∀ (i : Nat) d, (declaredGlobals { readDebugNames := false } twoGlobals {})[i]? = some d →
        InitializedAs s.globals env'.globals i d := by
  have haccepted : (wasmReadBinaryInterpreter { readDebugNames := false } twoGlobals {}).ok?.isSome := by
    decide +kernel
  obtain ⟨⟨_, env'⟩, henv'⟩ := Option.isSome_iff_exists.mp haccepted
  obtain ⟨s, hspaces, -, -, htyped⟩ :=
    wasmReadBinaryInterpreter_initializes (Outcome.ok?_eq_some.mp henv')
  refine ⟨env', s, Outcome.ok?_eq_some.mp henv', hspaces, htyped.mpr fun i d hd => ?_⟩
  have hall : (IndexSpaces.read (loadHistory { readDebugNames := false } twoGlobals {})).map
      (fun s => (declaredGlobals { readDebugNames := false } twoGlobals {}).zipIdx.all fun (d, i) =>
        d.initType? s.globals (declaredGlobals { readDebugNames := false } twoGlobals {}) i =
          some d.type.toType) = some true := by
    decide +kernel
  rw [hspaces, Option.map_some, Option.some_inj, List.all_eq_true] at hall
  exact of_decide_eq_true (hall (d, i) (List.mem_zipIdx_iff_getElem?.mpr hd))

/-- A global of type `i64` whose init expression is `i32.const 7`. -/
def illTypedGlobal : List UInt8 :=
  [0x00, 0x61, 0x73, 0x6d, 0x0d, 0x00, 0x00, 0x00,
    0x06, 0x06, 0x01, 0x7e, 0x00, 0x41, 0x07, 0x0b]

theorem wasmReadBinaryInterpreter_illTypedGlobal :
    ¬∀ (options : ReadBinaryOptions) (data : List UInt8) (env env' : Environment),
      wasmReadBinaryInterpreter options data env = .ok () env' →
        ∃ s, IndexSpaces.read (loadHistory options data env) = some s ∧
          ∀ (i : Nat) d, (declaredGlobals options data env)[i]? = some d →
            InitializedAs s.globals env'.globals i d := by
  intro h
  have haccepted : (wasmReadBinaryInterpreter { readDebugNames := false } illTypedGlobal {}).ok?.map
      (fun r => r.2.globals.map (·.typedValue.type)) = some [.i32] := by
    decide +kernel
  have hdeclared : (declaredGlobals { readDebugNames := false } illTypedGlobal {}).map (·.type) =
      [.i64] := by
    decide +kernel
  obtain ⟨⟨_, env'⟩, henv', hglobals⟩ := Option.map_eq_some_iff.mp haccepted
  obtain ⟨s, -, hall⟩ := h _ _ _ _ (Outcome.ok?_eq_some.mp henv')
  obtain ⟨d, hd, hdtype⟩ := List.map_eq_singleton_iff.mp hdeclared
  obtain ⟨entity, global, -, hglobal, htype, -⟩ := hall 0 d (by rw [hd]; rfl)
  have hmem := List.mem_map_of_mem (f := fun g : Global => g.typedValue.type)
    (List.mem_of_getElem? hglobal)
  rw [hglobals, htype, hdtype] at hmem
  exact absurd hmem (by decide)

end Interpreter

end SexprWasm
