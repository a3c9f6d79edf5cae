import SexprWasm.Text.ApplyNames
import SexprWasm.Text.ResolveNamesSound
import SexprWasm.Text.UniqueNames

/-!
# Applying names and resolving them again

The pass comes to the places of `Module.places` in order and stops at
the first index out of range. What it leaves resolves to the module it
was given if and only if each place before that one does, because the
two passes rewrite the same places and no others (`Out`). A place does
if its index has no name, or the name leads back to the index.
-/

namespace SexprWasm

namespace Text

open Naming
open ResolveNames (resolved)

namespace FuncScope

variable (f : FuncScope)

/-- The names of the parameters, by index. -/
def paramNames : List StringSlice :=
  (makeTypeBindingReverseMapping f.numParams f.paramBindings).getD (.replicate f.numParams none)

/-- The names of the locals, by index. -/
def localNames : List StringSlice :=
  (makeTypeBindingReverseMapping f.numLocals f.localBindings).getD (.replicate f.numLocals none)

/-- The tables of the function bind parameters and locals. -/
def NamesBound : Prop := Binds f.paramBindings f.paramNames ∧ Binds f.localBindings f.localNames

instance : Decidable f.NamesBound := inferInstanceAs (Decidable (_ ∧ _))

end FuncScope

/-- The names of the entities of a module, by index. -/
def Module.names (m : Module) : VarKind → List StringSlice
  | .func => m.funcs.map (·.name)
  | .global => m.globals.map (·.name)
  | .funcType => m.funcTypes.map (·.name)
  | .table => m.tables.map (·.name)
  | .memory => m.memories.map (·.name)
  | .label | .local_ => []

/-- The tables of the module bind the names of the entities, and no name is exported twice. -/
def Module.NamesBound (m : Module) : Prop :=
  (∀ kind, kind ≠ .label → kind ≠ .local_ → Binds (m.bindingsOf kind) (m.names kind)) ∧
    m.exportBindings.Distinct ∧ ∀ f ∈ m.funcs, f.scope.NamesBound

/-- The name at an index, if there is one. -/
def nameAt (names : List StringSlice) (i : Int) : StringSlice :=
  if i < 0 then none else names[i.toNat]?.join

theorem nameAt_eq_none {names : List StringSlice} {i : Int} (h : ¬ (0 ≤ i ∧ i < names.length)) :
    nameAt names i = none := by
  rw [nameAt]
  split
  · rfl
  · rw [List.getElem?_eq_none (by omega), Option.join_none]

theorem nameAt_eq_some {names : List StringSlice} {i : Int} {n : Name} :
    nameAt names i = some n ↔ ∃ k : Nat, i = k ∧ names[k]? = some (some n) := by
  rw [nameAt]
  constructor
  · intro h
    split at h
    · cases h
    · exact ⟨i.toNat, by omega, Option.join_eq_some_iff.mp h⟩
  · rintro ⟨k, rfl, hk⟩
    have hnn : ¬ (k : Int) < 0 := by omega
    simp [hnn, hk]

namespace ApplyNames

/-- A variable the pass comes to, the namespace it takes the name from, and whether an index out
of range stops it there. -/
structure Place where
  use : Use
  namedAs : VarKind
  stops : Bool

variable (m : Module)

/-- The name of the entity an index denotes. -/
def nameOf (s : Scope) (kind : VarKind) (i : Int) : StringSlice :=
  match kind with
  | .label => nameAt s.labels i
  | .local_ => s.func.bind fun f => nameAt (f.paramNames ++ f.localNames) (cInt i)
  | kind => nameAt (m.names kind) (cInt i)

/-- The index is that of an entity; a label need not be. -/
def inRange (s : Scope) (kind : VarKind) (i : Int) : Bool :=
  match kind with
  | .label => true
  | .local_ => s.func.any fun f => 0 ≤ cInt i && cInt i < f.numParams + f.numLocals
  | kind => 0 ≤ cInt i && cInt i < (m.names kind).length

/-- What becomes of a variable. -/
def applied (s : Scope) (kind : VarKind) (var : Var) : Var :=
  match var with
  | .name n => .name n
  | .index i =>
    match nameOf m s kind i with
    | none => .index i
    | some n => .name n

namespace Place

variable (p : Place)

/-- The pass goes on after the place. -/
def passes : Bool :=
  match p.use.var with
  | .name _ => true
  | .index i => !p.stops || inRange m p.use.scope p.namedAs i

/-- The variable comes back. -/
def Kept : Prop :=
  resolved m p.use.scope p.use.kind (applied m p.use.scope p.namedAs p.use.var) = p.use.var

end Place

/-! ## Walks -/

section walks

variable {m} {α β γ : Type} {P : Prop} {ps qs : List Place} {ctx : Context} {a : α} {c : γ}
  {back : α → α} {back' : γ → γ} {Q R : Context → Prop}

/-- What a walk over `ps` comes to: it ends in a state of `Q`, unless a place stops it, and what
it leaves leads `back` to `a` if and only if every place does that it came past, and `P`, what
was walked over before, does. -/
def Out (m : Module) (P : Prop) (ps : List Place) (back : α → α) (a : α) (Q : Context → Prop) :
    Visit Context α → Prop
  | .ok a' ctx => Q ctx ∧ ps.all (·.passes m) = true ∧
      (back a' = a ↔ P ∧ ∀ p ∈ ps, p.Kept m)
  | .error a' _ => ps.all (·.passes m) = false ∧
      (back a' = a ↔ P ∧ ∀ p ∈ ps.takeWhile (·.passes m), p.Kept m)
  | .abort => False

theorem takeWhile_append_of_all (hall : ps.all (·.passes m) = true) :
    (ps ++ qs).takeWhile (·.passes m) = ps ++ qs.takeWhile (·.passes m) :=
  List.takeWhile_append_of_pos fun p hp => List.all_eq_true.mp hall p hp

theorem takeWhile_append_of_stop (hstop : ps.all (·.passes m) = false) :
    (ps ++ qs).takeWhile (·.passes m) = ps.takeWhile (·.passes m) := by
  induction ps with
  | nil => cases hstop
  | cons p ps ih =>
    by_cases hp : p.passes m
    · rw [List.all_cons, hp, Bool.true_and] at hstop
      rw [List.cons_append, List.takeWhile_cons_of_pos hp, List.takeWhile_cons_of_pos hp, ih hstop]
    · rw [List.cons_append, List.takeWhile_cons_of_neg hp, List.takeWhile_cons_of_neg hp]

theorem Out.bind {v : Visit Context α} {stopped : α → γ}
    {k : α → Context → Visit Context γ} (hv : Out m True ps back a Q v)
    (hstop : ∀ a', back' (stopped a') = c ↔ P ∧ back a' = a)
    (hk : ∀ a' ctx, Q ctx → Out m (P ∧ back a' = a) qs back' c R (k a' ctx)) :
    Out m P (ps ++ qs) back' c R (v.andThen stopped k) := by
  cases v with
  | ok a' ctx =>
    obtain ⟨hctx, hall, hback⟩ := hv
    have hnext := hk a' ctx hctx
    rw [true_and] at hback
    rw [Visit.andThen_ok]
    cases hv' : k a' ctx with
    | ok c' ctx' =>
      rw [hv'] at hnext
      obtain ⟨hctx', hall', hback'⟩ := hnext
      refine ⟨hctx', by rw [List.all_append, hall, hall', Bool.true_and], ?_⟩
      rw [hback', hback, List.forall_mem_append, and_assoc]
    | error c' ctx' =>
      rw [hv'] at hnext
      obtain ⟨hstop', hback'⟩ := hnext
      refine ⟨by rw [List.all_append, hstop', Bool.and_false], ?_⟩
      rw [hback', hback, takeWhile_append_of_all hall, List.forall_mem_append, and_assoc]
    | abort =>
      rw [hv'] at hnext
      exact hnext
  | error a' ctx =>
    obtain ⟨hno, hback⟩ := hv
    rw [true_and] at hback
    refine ⟨by rw [List.all_append, hno, Bool.false_and], ?_⟩
    rw [hstop, hback, takeWhile_append_of_stop hno]
  | abort => exact hv

/-- `Out.bind` after a walk that ends where it began. -/
theorem Out.andThen {v : Visit Context α} {stopped : α → γ}
    {k : α → Context → Visit Context γ} (hv : Out m True ps back a (· = ctx) v)
    (hstop : ∀ a', back' (stopped a') = c ↔ P ∧ back a' = a)
    (hk : ∀ a', Out m (P ∧ back a' = a) qs back' c R (k a' ctx)) :
    Out m P (ps ++ qs) back' c R (v.andThen stopped k) :=
  hv.bind hstop fun a' ctx' hctx => hctx ▸ hk a'

theorem Out.map {v : Visit Context α} {f : α → γ} (hv : Out m True ps back a Q v)
    (hf : ∀ a', back' (f a') = c ↔ P ∧ back a' = a) : Out m P ps back' c Q (v.map f) := by
  cases v with
  | ok a' ctx =>
    obtain ⟨hctx, hall, hback⟩ := hv
    rw [true_and] at hback
    exact ⟨hctx, hall, by rw [hf, hback]⟩
  | error a' ctx =>
    obtain ⟨hno, hback⟩ := hv
    rw [true_and] at hback
    exact ⟨hno, by rw [hf, hback]⟩
  | abort => exact hv

theorem Out.mono {v : Visit Context α} (hv : Out m P ps back a Q v) (hQ : ∀ ctx, Q ctx → R ctx) :
    Out m P ps back a R v := by
  cases v with
  | ok a' ctx => exact ⟨hQ ctx hv.1, hv.2⟩
  | error a' ctx => exact hv
  | abort => exact hv

theorem Out.nil (hback : back a = a) (hctx : Q ctx) : Out m True [] back a Q (.ok a ctx) :=
  ⟨hctx, rfl, by simp [hback]⟩

end walks

/-! ## Variables -/

variable {m} {ctx : Context}

def Context.scope (ctx : Context) : Scope := ⟨ctx.currentFunc.map (·.scope), ctx.labels⟩

@[simp] theorem scope_push {label : StringSlice} :
    Context.scope { ctx with labels := label :: ctx.labels } = ctx.scope.push label := rfl

/-- The pass is in a function, whose names are mapped back. -/
def Context.InFunc (ctx : Context) : Prop :=
  ∃ f, ctx.currentFunc = some f ∧ ctx.paramIndexToName = f.scope.paramNames ∧
    ctx.localIndexToName = f.scope.localNames ∧
    f.scope.paramNames.length = f.numParams ∧ f.scope.localNames.length = f.numLocals

/-- A visit of one variable does what `applied` says, or stops. -/
def Applies (m : Module) (kind : VarKind) (ctx : Context) (visit : Var → Context → Visit Context Var) :
    Prop :=
  ∀ i, visit (.index i) ctx =
    if inRange m ctx.scope kind i then .ok (applied m ctx.scope kind (.index i)) ctx
    else .error (.index i) ctx

theorem useNameForVar_index (name : StringSlice) (i : Int) :
    useNameForVar (some name) (.index i) ctx =
      .ok (match name with | none => .index i | some n => .name n) ctx := by
  cases name <;> rfl

theorem useNameForEntityVar_index {α : Type} {bindings : BindingHash} {entities : List α}
    {name : α → StringSlice} (i : Int) :
    useNameForEntityVar bindings entities name (.index i) ctx =
      if 0 ≤ cInt i && cInt i < (entities.map name).length then
        .ok (match nameAt (entities.map name) (cInt i) with
          | none => .index i
          | some n => .name n) ctx
      else .error (.index i) ctx := by
  rw [useNameForEntityVar, getByVar, getIndexFromVar]
  by_cases hneg : cInt i < 0
  · have hnot : ¬ 0 ≤ cInt i := by omega
    simp [hneg, hnot]
  · have hnn : 0 ≤ cInt i := by omega
    by_cases hlt : (cInt i).toNat < entities.length
    · have hlt' : cInt i < entities.length := by omega
      simp [hneg, hnn, hlt, hlt', useNameForVar_index, nameAt]
    · have hlt' : ¬ cInt i < entities.length := by omega
      simp [hneg, hlt, hlt']

theorem applies_func : Applies m .func ctx (useNameForFuncVar m) :=
  fun i => useNameForEntityVar_index i

theorem applies_funcType : Applies m .funcType ctx (useNameForFuncTypeVar m) :=
  fun i => useNameForEntityVar_index i

theorem applies_global : Applies m .global ctx (useNameForGlobalVar m) :=
  fun i => useNameForEntityVar_index i

theorem applies_table : Applies m .table ctx (useNameForTableVar m) :=
  fun i => useNameForEntityVar_index i

theorem applies_memory : Applies m .memory ctx (useNameForMemoryVar m) :=
  fun i => useNameForEntityVar_index i

theorem applies_label : Applies m .label ctx useNameForLabelVar := by
  intro i
  rw [useNameForLabelVar, findLabelByVar]
  by_cases hi : i < 0 ∨ ctx.labels.length ≤ i
  · have hnone : nameAt ctx.labels i = none := by
      rcases hi with hi | hi
      · simp [nameAt, hi]
      · have hge : ctx.labels.length ≤ i.toNat := by omega
        simp [nameAt, List.getElem?_eq_none hge]
    simp [hi, useNameForVar, inRange, applied, nameOf, Context.scope, hnone]
  · have hneg : ¬ i < 0 := by omega
    have hlt : i.toNat < ctx.labels.length := by omega
    rw [if_neg hi, List.getElem?_eq_getElem hlt, useNameForVar_index]
    simp [inRange, applied, nameOf, Context.scope, nameAt, hneg, hlt]

theorem applies_local (hf : ctx.InFunc) : Applies m .local_ ctx useNameForParamAndLocalVar := by
  intro i
  obtain ⟨f, hfunc, hp, hl, hplen, hllen⟩ := hf
  have hindex : f.getLocalIndexByVar (.index i) = cInt i := rfl
  have hnp : f.scope.numParams = f.numParams := rfl
  have hnl : f.scope.numLocals = f.numLocals := rfl
  simp only [useNameForParamAndLocalVar, hfunc, hindex, inRange, applied, nameOf, Context.scope,
    Option.map_some, Option.any_some, Option.bind_some, hnp, hnl, hp, hl]
  by_cases hout : cInt i < 0 ∨ f.numParams + f.numLocals ≤ cInt i
  · have hin : ¬ (0 ≤ cInt i ∧ cInt i < f.numParams + f.numLocals) := by omega
    simp [hout, hin]
  · have hin : 0 ≤ cInt i ∧ cInt i < f.numParams + f.numLocals := by omega
    have hneg : ¬ cInt i < 0 := by omega
    have hname : (if cInt i < f.numParams then f.scope.paramNames[(cInt i).toNat]?
          else f.scope.localNames[(cInt i - f.numParams).toNat]?) =
        (f.scope.paramNames ++ f.scope.localNames)[(cInt i).toNat]? := by
      by_cases hparam : cInt i < f.numParams
      · rw [if_pos hparam, List.getElem?_append_left (by omega)]
      · rw [if_neg hparam, List.getElem?_append_right (by omega), hplen]
        congr 1
        omega
    have hlt : (cInt i).toNat < (f.scope.paramNames ++ f.scope.localNames).length := by
      rw [List.length_append]
      omega
    rw [if_neg hout, hname, List.getElem?_eq_getElem hlt]
    simp only [hin.1, hin.2, decide_true, Bool.and_self, if_true, nameAt, hneg, if_false,
      List.getElem?_eq_getElem hlt, Option.join_some]
    cases (f.scope.paramNames ++ f.scope.localNames)[(cInt i).toNat] <;> rfl

/-- The place of a variable that is named as what it is. -/
def place (s : Scope) (kind : VarKind) (var : Var) : Place := ⟨⟨s, kind, var⟩, kind, true⟩

theorem Out.var {kind : VarKind} {visit : Var → Context → Visit Context Var} {var : Var}
    (hv : Applies m kind ctx visit) (hindex : var.isIndex = true) :
    Out m True [place ctx.scope kind var] (resolved m ctx.scope kind) var (· = ctx) (visit var ctx) := by
  cases var with
  | name n => cases hindex
  | index i =>
    rw [hv i]
    by_cases hin : inRange m ctx.scope kind i
    · rw [if_pos hin]
      refine ⟨rfl, ?_, ?_⟩
      · simp [Place.passes, place, hin]
      · simp [Place.Kept, place]
    · rw [if_neg hin]
      have hstop : (place ctx.scope kind (.index i)).passes m = false := by
        simp [Place.passes, place, hin]
      refine ⟨by simp [hstop], ?_⟩
      simp [hstop, resolved]

theorem resolved_of_isIndex {s : Scope} {kind : VarKind} {var : Var} (h : var.isIndex = true) :
    resolved m s kind var = var := by
  cases var with
  | index i => rfl
  | name n => cases h

theorem map_resolved {s : Scope} {kind : VarKind} {vars : List Var}
    (h : ∀ var ∈ vars, var.isIndex = true) : vars.map (resolved m s kind) = vars := by
  conv_rhs => rw [← List.map_id vars]
  exact List.map_congr_left fun var hvar => resolved_of_isIndex (h var hvar)

theorem Out.vars {kind : VarKind} {visit : Var → Context → Visit Context Var} {vars : List Var}
    (hv : Applies m kind ctx visit) (hindex : ∀ var ∈ vars, var.isIndex = true) :
    Out m True (vars.map (place ctx.scope kind)) (List.map (resolved m ctx.scope kind)) vars
      (· = ctx) (visitVars visit vars ctx) := by
  induction vars with
  | nil => exact Out.nil rfl rfl
  | cons var vars ih =>
    have hrest := ih fun var hvar => hindex var (List.mem_cons_of_mem _ hvar)
    have hself : vars.map (resolved m ctx.scope kind) = vars :=
      map_resolved fun var hvar => hindex var (List.mem_cons_of_mem _ hvar)
    show Out m True ([place ctx.scope kind var] ++ vars.map (place ctx.scope kind)) _ _ _
      ((visit var ctx).andThen (· :: vars) fun var s => (visitVars visit vars s).map (var :: ·))
    refine Out.andThen (Out.var hv (hindex var List.mem_cons_self)) (fun a' => ?_) fun a' => ?_
    · simp [hself]
    · exact hrest.map fun as => by simp

/-- All of `uses` are indices. -/
def Indexed (uses : List Use) : Prop := ∀ u ∈ uses, u.var.isIndex = true

theorem indexed_append {us vs : List Use} : Indexed (us ++ vs) ↔ Indexed us ∧ Indexed vs :=
  List.forall_mem_append

theorem Out.expr {e : Expr} (hf : ctx.InFunc)
    (hindex : ∀ v ∈ e.vars, v.2.isIndex = true) :
    Out m True (e.vars.map fun (kind, var) => place ctx.scope kind var)
      (Expr.mapVars (resolved m ctx.scope)) e (· = ctx) (visitExpr (visitor m) e ctx) := by
  have hone : ∀ {kind : VarKind} {visit : Var → Context → Visit Context Var} {f : Var → Expr}
      {var : Var}, Applies m kind ctx visit → var.isIndex = true →
      (∀ v, (f v).mapVars (resolved m ctx.scope) = f var ↔
        resolved m ctx.scope kind v = var) →
      Out m True [place ctx.scope kind var] (Expr.mapVars (resolved m ctx.scope)) (f var) (· = ctx)
        ((visit var ctx).map f) := by
    intro kind visit f var hv hvar hmap
    exact (Out.var hv hvar).map fun v => by rw [hmap, true_and]
  cases e with
  | br var =>
    exact hone applies_label (hindex _ List.mem_cons_self) fun v => by simp [Expr.mapVars]
  | brIf var =>
    exact hone applies_label (hindex _ List.mem_cons_self) fun v => by simp [Expr.mapVars]
  | brTable targets defaultTarget =>
    have htargets : ∀ var ∈ targets, var.isIndex = true := fun var hvar =>
      hindex (.label, var) (List.mem_append_left _ (List.mem_map.mpr ⟨var, hvar, rfl⟩))
    have hdefault : defaultTarget.isIndex = true :=
      hindex (.label, defaultTarget) (List.mem_append_right _ List.mem_cons_self)
    have hboth : Out m True (targets.map (place ctx.scope .label) ++
        [place ctx.scope .label defaultTarget])
        (fun v => (v.1.map (resolved m ctx.scope .label), resolved m ctx.scope .label v.2))
        (targets, defaultTarget) (· = ctx) ((visitor m).onBrTableExpr (targets, defaultTarget) ctx) := by
      refine (Out.vars applies_label htargets).andThen (fun ts => ?_) fun ts => ?_
      · simp [resolved_of_isIndex hdefault]
      · exact (Out.var applies_label hdefault).map fun v => by simp
    have hplaces : (Expr.brTable targets defaultTarget).vars.map
        (fun (kind, var) => place ctx.scope kind var) =
        targets.map (place ctx.scope .label) ++ [place ctx.scope .label defaultTarget] := by
      simp [Expr.vars, Function.comp_def]
    rw [hplaces]
    exact hboth.map fun v => by simp [Expr.mapVars, Prod.ext_iff]
  | call var =>
    exact hone applies_func (hindex _ List.mem_cons_self) fun v => by simp [Expr.mapVars]
  | callIndirect var =>
    exact hone applies_funcType (hindex _ List.mem_cons_self) fun v => by simp [Expr.mapVars]
  | getLocal var =>
    exact hone (applies_local hf) (hindex _ List.mem_cons_self) fun v => by simp [Expr.mapVars]
  | setLocal var =>
    exact hone (applies_local hf) (hindex _ List.mem_cons_self) fun v => by simp [Expr.mapVars]
  | teeLocal var =>
    exact hone (applies_local hf) (hindex _ List.mem_cons_self) fun v => by simp [Expr.mapVars]
  | getGlobal var =>
    exact hone applies_global (hindex _ List.mem_cons_self) fun v => by simp [Expr.mapVars]
  | setGlobal var =>
    exact hone applies_global (hindex _ List.mem_cons_self) fun v => by simp [Expr.mapVars]
  | _ => exact Out.nil rfl rfl

/-- The places of variables that are named as what they are. -/
def placesOf (uses : List Use) : List Place := uses.map fun u => place u.scope u.kind u.var

@[simp] theorem placesOf_append {us vs : List Use} :
    placesOf (us ++ vs) = placesOf us ++ placesOf vs := List.map_append

theorem mapVars_resolved {s : Scope} {e : ExprList} (h : Indexed (e.uses s)) :
    e.mapVars (resolved m) s = e :=
  ExprList.mapVars_eq_self (resolved m) |>.mpr fun u hu => resolved_of_isIndex (h u hu)

/-- A walk over an expression list does at every place what `applied` says, up to the first
index out of range. -/
theorem Out.exprList (e : ExprList) (ctx : Context) (hf : ctx.InFunc)
    (hindex : Indexed (e.uses ctx.scope)) :
    Out m True (placesOf (e.uses ctx.scope)) (fun e => e.mapVars (resolved m) ctx.scope) e
      (· = ctx) (visitExprList (visitor m) e ctx) := by
  induction e generalizing ctx with
  | nil => exact Out.nil rfl rfl
  | expr e next ih =>
    obtain ⟨hexpr, hnext⟩ := indexed_append.mp hindex
    have hvars : ∀ v ∈ e.vars, v.2.isIndex = true := fun v hv =>
      hexpr _ (List.mem_map.mpr ⟨v, hv, rfl⟩)
    have hplaces : placesOf (e.vars.map fun (kind, var) => ⟨ctx.scope, kind, var⟩) =
        e.vars.map fun (kind, var) => place ctx.scope kind var := by
      simp [placesOf]
    rw [ExprList.uses, placesOf_append, hplaces, visitExprList]
    refine (Out.expr hf hvars).andThen (fun e' => ?_) fun e' => ?_
    · simp [ExprList.mapVars, mapVars_resolved hnext]
    · exact (ih ctx hf hnext).map fun next' => by simp [ExprList.mapVars]
  | block label sig first next ihf ihn =>
    obtain ⟨hfirst, hnext⟩ := indexed_append.mp hindex
    have hin := ihf { ctx with labels := label :: ctx.labels } hf hfirst
    rw [ExprList.uses, placesOf_append]
    refine hin.andThen (fun first' => ?_) fun first' => ?_
    · simp [ExprList.mapVars, mapVars_resolved hnext]
    · exact (ihn ctx hf hnext).map fun next' => by simp [ExprList.mapVars]
  | loop label sig first next ihf ihn =>
    obtain ⟨hfirst, hnext⟩ := indexed_append.mp hindex
    have hin := ihf { ctx with labels := label :: ctx.labels } hf hfirst
    rw [ExprList.uses, placesOf_append]
    refine hin.andThen (fun first' => ?_) fun first' => ?_
    · simp [ExprList.mapVars, mapVars_resolved hnext]
    · exact (ihn ctx hf hnext).map fun next' => by simp [ExprList.mapVars]
  | if_ label sig true_ false_ next iht ihf ihn =>
    obtain ⟨hboth, hnext⟩ := indexed_append.mp hindex
    obtain ⟨htrue, hfalse⟩ := indexed_append.mp hboth
    have hint := iht { ctx with labels := label :: ctx.labels } hf htrue
    have hinf := ihf { ctx with labels := label :: ctx.labels } hf hfalse
    rw [ExprList.uses, List.append_assoc, placesOf_append, placesOf_append]
    refine hint.andThen (fun true' => ?_) fun true' => hinf.andThen (fun false' => ?_) fun false' => ?_
    · simp [ExprList.mapVars, mapVars_resolved hnext, mapVars_resolved hfalse]
    · simp [ExprList.mapVars, mapVars_resolved hnext]
    · exact (ihn ctx hf hnext).map fun next' => by simp [ExprList.mapVars, and_assoc]

/-! ## Modules -/

/-- Between the parts of a module the pass is in no function and under no label. -/
def AtTop (ctx : Context) : Prop := ctx.currentFunc = none ∧ ctx.labels = []

theorem AtTop.scope (h : AtTop ctx) : ctx.scope = {} := by simp [Context.scope, h.1, h.2]

theorem Out.forEach {α : Type} {visit : α → Context → Visit Context α} {places : α → List Place}
    {back : α → α} {as : List α}
    (hv : ∀ a ∈ as, ∀ ctx, AtTop ctx → Out m True (places a) back a AtTop (visit a ctx))
    (hback : ∀ a ∈ as, back a = a) {ctx : Context} (hctx : AtTop ctx) :
    Out m True (as.flatMap places) (List.map back) as AtTop (forEach visit as ctx) := by
  induction as generalizing ctx with
  | nil => exact Out.nil rfl hctx
  | cons a as ih =>
    have hself : as.map back = as := by
      conv_rhs => rw [← List.map_id as]
      exact List.map_congr_left fun a ha => hback a (List.mem_cons_of_mem _ ha)
    rw [List.flatMap_cons]
    refine (hv a List.mem_cons_self ctx hctx).bind (fun a' => ?_) fun a' ctx' hctx' => ?_
    · simp [hself]
    · exact (ih (fun b hb => hv b (List.mem_cons_of_mem _ hb))
        (fun b hb => hback b (List.mem_cons_of_mem _ hb)) hctx').map fun as' => by simp

theorem mapVars_func_iff {g : Scope → VarKind → Var → Var} {f : Func} {typeVar : Option Var}
    {firstExpr : ExprList} :
    Func.mapVars g { f with decl := { f.decl with typeVar }, firstExpr } = f ↔
      typeVar.map (g { func := some f.scope } .funcType) = f.decl.typeVar ∧
        firstExpr.mapVars g { func := some f.scope } = f.firstExpr := by
  have hkeep : ∀ e tv, ({ f with decl := { f.decl with typeVar := tv }, firstExpr := e } : Func) = f ↔
      tv = f.decl.typeVar ∧ e = f.firstExpr := by
    intro e tv
    obtain ⟨name, ⟨typeVar, sig⟩, localTypes, pb, lb, firstExpr⟩ := f
    simp
  exact hkeep _ _

theorem Out.func {f : Func} (hc : f.scope.NamesBound) (hindex : Indexed f.uses)
    (hctx : AtTop ctx) :
    Out m True (placesOf f.uses) (Func.mapVars (resolved m)) f AtTop (visitFunc m f ctx) := by
  obtain ⟨pnames, hpm, hplen, -⟩ := hc.1.reverseMapping
  obtain ⟨lnames, hlm, hllen, -⟩ := hc.2.reverseMapping
  have hpm' : makeTypeBindingReverseMapping f.numParams f.paramBindings = some pnames := hpm
  have hlm' : makeTypeBindingReverseMapping f.numLocals f.localBindings = some lnames := hlm
  obtain ⟨htype, hexpr⟩ := indexed_append.mp hindex
  have hbody : ∀ (typeVar : Option Var) (ctx' : Context), ctx'.currentFunc = some f →
      ctx'.labels = [] →
      Out m (True ∧ typeVar.map (resolved m { func := some f.scope } .funcType) = f.decl.typeVar)
        (placesOf (f.firstExpr.uses { func := some f.scope })) (Func.mapVars (resolved m)) f AtTop
        ((visitExprList (visitor m) f.firstExpr
          { ctx' with paramIndexToName := pnames, localIndexToName := lnames }).andThen
          (fun firstExpr => { f with decl := { f.decl with typeVar }, firstExpr })
          fun firstExpr ctx => .ok { f with decl := { f.decl with typeVar }, firstExpr }
            { ctx with currentFunc := none }) := by
    intro typeVar ctx' hfunc htop
    have hscope : Context.scope { ctx' with paramIndexToName := pnames, localIndexToName := lnames } =
        { func := some f.scope } := by
      simp [Context.scope, hfunc, htop]
    have hparams : f.scope.paramNames = pnames := by simp [FuncScope.paramNames, hpm]
    have hlocals : f.scope.localNames = lnames := by simp [FuncScope.localNames, hlm]
    have hin : Context.InFunc { ctx' with paramIndexToName := pnames, localIndexToName := lnames } :=
      ⟨f, hfunc, hparams.symm, hlocals.symm, hparams ▸ hplen, hlocals ▸ hllen⟩
    have hwalk := Out.exprList (m := m) f.firstExpr _ hin (hscope.symm ▸ hexpr)
    rw [hscope] at hwalk
    rw [← List.append_nil (placesOf _)]
    refine hwalk.andThen (fun e' => by rw [mapVars_func_iff, true_and]) fun e' => ⟨⟨rfl, htop⟩, rfl, ?_⟩
    rw [mapVars_func_iff]
    simp
  have htypeVar : ∀ visit : Visit Context (Option Var),
      (f.decl.typeVar = none → visit = .ok none { ctx with currentFunc := some f }) →
      (∀ var, f.decl.typeVar = some var →
        visit = (useNameForFuncTypeVar m var { ctx with currentFunc := some f }).map some) →
      Out m True (placesOf (f.decl.typeVar.toList.map (⟨{ func := some f.scope }, .funcType, ·⟩)))
        (Option.map (resolved m { func := some f.scope } .funcType)) f.decl.typeVar
        (· = { ctx with currentFunc := some f }) visit := by
    intro visit hnone hsome
    have hscope : Context.scope { ctx with currentFunc := some f } = { func := some f.scope } := by
      simp [Context.scope, hctx.2]
    cases htv : f.decl.typeVar with
    | none =>
      rw [hnone htv]
      exact Out.nil rfl rfl
    | some var =>
      rw [htv] at htype
      rw [hsome var htv]
      have hvar : Out m True [place { func := some f.scope } .funcType var]
          (resolved m { func := some f.scope } .funcType) var
          (· = { ctx with currentFunc := some f })
          (useNameForFuncTypeVar m var { ctx with currentFunc := some f }) := by
        rw [← hscope]
        exact Out.var applies_funcType (htype _ List.mem_cons_self)
      exact hvar.map fun var' => by simp
  rw [Func.uses, placesOf_append]
  refine (htypeVar _ (fun h => by rw [h]) fun var h => by rw [h]).andThen (fun tv => ?_) fun tv => ?_
  · have hexpr' : f.firstExpr.mapVars (resolved m) { func := some f.scope } = f.firstExpr :=
      mapVars_resolved hexpr
    have hiff : Func.mapVars (resolved m) { f with decl := { f.decl with typeVar := tv } } = f ↔
        tv.map (resolved m { func := some f.scope } .funcType) = f.decl.typeVar ∧
          f.firstExpr.mapVars (resolved m) { func := some f.scope } = f.firstExpr :=
      mapVars_func_iff
    rw [true_and]
    exact hiff.trans (and_iff_left hexpr')
  · simp only [hpm', hlm']
    exact hbody tv { ctx with currentFunc := some f } rfl hctx.2

/-- The place of an export: the name is that of a function, and the pass goes on. -/
def exportPlace (e : Export) : Place := ⟨e.use, .func, false⟩

def elemSegmentPlaces (segment : ElemSegment) : List Place :=
  place {} .table segment.tableVar :: segment.vars.map (place {} .func)

def dataSegmentPlaces (segment : DataSegment) : List Place := [place {} .memory segment.memoryVar]

theorem Out.export_ {e : Export} (hindex : e.var.isIndex = true) (hctx : AtTop ctx) :
    Out m True [exportPlace e] (Export.mapVars (resolved m)) e AtTop (visitExport m e ctx) := by
  obtain ⟨kind, var⟩ := e
  cases var with
  | name n => cases hindex
  | index i =>
    have happly : useNameForFuncVar m (.index i) ctx =
        if inRange m ctx.scope .func i then .ok (applied m ctx.scope .func (.index i)) ctx
        else .error (.index i) ctx := applies_func i
    have hpasses : (exportPlace ⟨kind, .index i⟩).passes m = true := rfl
    rw [visitExport, happly]
    by_cases hin : inRange m ctx.scope .func i
    · rw [if_pos hin]
      refine ⟨hctx, by simp [hpasses], ?_⟩
      rw [hctx.scope]
      simp [exportPlace, Place.Kept, Export.use, Export.mapVars]
    · rw [if_neg hin]
      have hnone : applied m {} .func (.index i) = .index i := by
        have hname : nameAt (m.names .func) (cInt i) = none := by
          refine nameAt_eq_none fun hrange => hin ?_
          simp [inRange, hrange.1, hrange.2]
        simp [applied, nameOf, hname]
      refine ⟨hctx, by simp [hpasses], ?_⟩
      simp [exportPlace, Place.Kept, Export.use, Export.mapVars, hnone, resolved]

theorem Out.elemSegment {segment : ElemSegment} (hindex : Indexed segment.uses)
    (hctx : AtTop ctx) :
    Out m True (elemSegmentPlaces segment) (ElemSegment.mapVars (resolved m)) segment AtTop
      (visitElemSegment m segment ctx) := by
  obtain ⟨htable, hvars⟩ := indexed_append.mp hindex
  have htable' : segment.tableVar.isIndex = true := htable _ List.mem_cons_self
  have hoffset : segment.offset.mapVars (resolved m) {} = segment.offset :=
    mapVars_resolved fun u hu => htable u (List.mem_cons_of_mem _ hu)
  have hvars' : ∀ var ∈ segment.vars, var.isIndex = true := fun var hvar =>
    hvars _ (List.mem_map.mpr ⟨var, hvar, rfl⟩)
  have hmap : ∀ tableVar vars, ElemSegment.mapVars (resolved m) { segment with tableVar, vars } =
        segment ↔ resolved m {} .table tableVar = segment.tableVar ∧
          vars.map (resolved m {} .func) = segment.vars := by
    intro tableVar vars
    obtain ⟨t, o, vs⟩ := segment
    simpa [ElemSegment.mapVars] using fun _ _ => hoffset
  have hfirst : Out m True [place {} .table segment.tableVar] (resolved m {} .table)
      segment.tableVar (· = ctx) (useNameForTableVar m segment.tableVar ctx) := by
    rw [← hctx.scope]
    exact Out.var applies_table htable'
  have hrest : Out m True (segment.vars.map (place {} .func)) (List.map (resolved m {} .func))
      segment.vars (· = ctx) (visitVars (useNameForFuncVar m) segment.vars ctx) := by
    rw [← hctx.scope]
    exact Out.vars applies_func hvars'
  show Out m True ([place {} .table segment.tableVar] ++ segment.vars.map (place {} .func)) _ _ _ _
  refine hfirst.andThen (fun tableVar => ?_) fun tableVar => ?_
  · have hself : segment.vars.map (resolved m {} .func) = segment.vars := map_resolved hvars'
    rw [true_and]
    exact (hmap tableVar segment.vars).trans (and_iff_left hself)
  · have htop : ∀ ctx', ctx' = ctx → AtTop ctx' := fun ctx' h => h ▸ hctx
    refine (hrest.mono htop).map fun vars => ?_
    rw [true_and]
    exact hmap tableVar vars

theorem Out.dataSegment {segment : DataSegment} (hindex : Indexed segment.uses)
    (hctx : AtTop ctx) :
    Out m True (dataSegmentPlaces segment) (DataSegment.mapVars (resolved m)) segment AtTop
      (visitDataSegment m segment ctx) := by
  have hvar := hindex ⟨{}, .memory, segment.memoryVar⟩ List.mem_cons_self
  have hoffset : segment.offset.mapVars (resolved m) {} = segment.offset :=
    mapVars_resolved fun u hu => hindex u (List.mem_cons_of_mem _ hu)
  have hmemory : Out m True [place {} .memory segment.memoryVar] (resolved m {} .memory)
      segment.memoryVar (· = ctx) (useNameForMemoryVar m segment.memoryVar ctx) := by
    rw [← hctx.scope]
    exact Out.var applies_memory hvar
  have htop : ∀ ctx', ctx' = ctx → AtTop ctx' := fun ctx' h => h ▸ hctx
  refine (hmemory.mono htop).map fun memoryVar => ?_
  obtain ⟨v, o, d⟩ := segment
  simpa [DataSegment.mapVars] using fun _ => hoffset

/-- The places the pass comes to, in order. -/
def places (m : Module) : List Place :=
  m.funcs.flatMap (fun f => placesOf f.uses) ++ (m.exports.flatMap (fun e => [exportPlace e]) ++
    (m.elemSegments.flatMap elemSegmentPlaces ++ m.dataSegments.flatMap dataSegmentPlaces))

theorem resolved_with (fs : List Func) (es : List Export) (els : List ElemSegment)
    (ds : List DataSegment) :
    resolved { m with funcs := fs, exports := es, elemSegments := els, dataSegments := ds } =
      resolved m := by
  funext s kind var
  cases var with
  | index i => rfl
  | name n => cases kind <;> rfl

theorem mapVars_func {f : Func} (hindex : Indexed f.uses) : f.mapVars (resolved m) = f := by
  obtain ⟨htype, hexpr⟩ := indexed_append.mp hindex
  refine mapVars_func_iff.mpr ⟨?_, mapVars_resolved hexpr⟩
  cases htv : f.decl.typeVar with
  | none => rfl
  | some var =>
    rw [htv] at htype
    have hvar : var.isIndex = true := htype ⟨_, .funcType, var⟩ List.mem_cons_self
    rw [Option.map_some, resolved_of_isIndex hvar]

theorem mapVars_export {e : Export} (hindex : e.var.isIndex = true) :
    e.mapVars (resolved m) = e := by
  rw [Export.mapVars, resolved_of_isIndex hindex]

theorem mapVars_global {g : Global} (hindex : Indexed g.uses) : g.mapVars (resolved m) = g := by
  rw [Global.mapVars, mapVars_resolved hindex]

theorem mapVars_elemSegment {segment : ElemSegment} (hindex : Indexed segment.uses) :
    segment.mapVars (resolved m) = segment := by
  obtain ⟨htable, hvars⟩ := indexed_append.mp hindex
  have htable' := htable ⟨{}, .table, segment.tableVar⟩ List.mem_cons_self
  have hvars' : ∀ var ∈ segment.vars, var.isIndex = true := fun var hvar =>
    hvars _ (List.mem_map.mpr ⟨var, hvar, rfl⟩)
  rw [ElemSegment.mapVars, resolved_of_isIndex htable',
    mapVars_resolved fun u hu => htable u (List.mem_cons_of_mem _ hu), map_resolved hvars']

theorem mapVars_dataSegment {segment : DataSegment} (hindex : Indexed segment.uses) :
    segment.mapVars (resolved m) = segment := by
  have hvar := hindex ⟨{}, .memory, segment.memoryVar⟩ List.mem_cons_self
  rw [DataSegment.mapVars, resolved_of_isIndex hvar,
    mapVars_resolved fun u hu => hindex u (List.mem_cons_of_mem _ hu)]

theorem map_eq_self {α : Type} {f : α → α} {as : List α} (h : ∀ a ∈ as, f a = a) :
    as.map f = as := by
  conv_rhs => rw [← List.map_id as]
  exact List.map_congr_left h

/-- The variables of the parts of an indexed module are indices. -/
structure Parts (m : Module) : Prop where
  funcs : ∀ f ∈ m.funcs, Indexed f.uses
  exports : ∀ e ∈ m.exports, e.var.isIndex = true
  globals : ∀ g ∈ m.globals, Indexed g.uses
  elemSegments : ∀ segment ∈ m.elemSegments, Indexed segment.uses
  dataSegments : ∀ segment ∈ m.dataSegments, Indexed segment.uses
  starts : ∀ var ∈ m.starts.getLast?, var.isIndex = true

theorem parts_of_indexed (h : Indexed m.uses) : Parts m := by
  simp only [Module.uses, indexed_append] at h
  obtain ⟨⟨⟨⟨⟨hfuncs, hexports⟩, hglobals⟩, helems⟩, hdatas⟩, hstarts⟩ := h
  exact
    { funcs := fun f hf u hu => hfuncs u (List.mem_flatMap.mpr ⟨f, hf, hu⟩)
      exports := fun e he => hexports e.use (List.mem_map.mpr ⟨e, he, rfl⟩)
      globals := fun g hg u hu => hglobals u (List.mem_flatMap.mpr ⟨g, hg, hu⟩)
      elemSegments := fun el hel u hu => helems u (List.mem_flatMap.mpr ⟨el, hel, hu⟩)
      dataSegments := fun d hd u hu => hdatas u (List.mem_flatMap.mpr ⟨d, hd, hu⟩)
      starts := fun var hvar =>
        hstarts ⟨{}, .func, var⟩ (List.mem_map.mpr ⟨var, Option.mem_toList.mpr hvar, rfl⟩) }

theorem mapStart_resolved (hstarts : ∀ var ∈ m.starts.getLast?, var.isIndex = true) :
    mapStart (resolved m) m.starts = m.starts := by
  rw [mapStart]
  rcases List.eq_nil_or_concat m.starts with hnil | ⟨init, last, hcons⟩
  · simp [hnil]
  · have hlast : last.isIndex = true := hstarts last (by simp [hcons])
    simp [hcons, resolved_of_isIndex hlast]

/-- What the parts of an indexed module lead back to. -/
theorem mapVars_module_iff (hp : Parts m) (fs : List Func) (es : List Export)
    (els : List ElemSegment) (ds : List DataSegment) :
    ({ m with funcs := fs, exports := es, elemSegments := els, dataSegments := ds } :
        Module).mapVars (resolved
          { m with funcs := fs, exports := es, elemSegments := els, dataSegments := ds }) = m ↔
      fs.map (Func.mapVars (resolved m)) = m.funcs ∧
        es.map (Export.mapVars (resolved m)) = m.exports ∧
        els.map (ElemSegment.mapVars (resolved m)) = m.elemSegments ∧
        ds.map (DataSegment.mapVars (resolved m)) = m.dataSegments := by
  have hglobals : m.globals.map (Global.mapVars (resolved m)) = m.globals :=
    map_eq_self fun g hg => mapVars_global (hp.globals g hg)
  have hstarts := mapStart_resolved hp.starts
  rw [resolved_with]
  constructor
  · intro heq
    exact ⟨congrArg Module.funcs heq, congrArg Module.exports heq, congrArg Module.elemSegments heq,
      congrArg Module.dataSegments heq⟩
  · rintro ⟨hf, he, hel, hd⟩
    simp only [Module.mapVars, hf, he, hel, hd, hglobals, hstarts]

theorem Out.module (hp : Parts m) (hc : ∀ f ∈ m.funcs, f.scope.NamesBound) :
    Out m True (places m) (fun m' => m'.mapVars (resolved m')) m AtTop (visitModule m {}) := by
  have htop : AtTop ({} : Context) := ⟨rfl, rfl⟩
  have hexports : m.exports.map (Export.mapVars (resolved m)) = m.exports :=
    map_eq_self fun e he => mapVars_export (hp.exports e he)
  have helems : m.elemSegments.map (ElemSegment.mapVars (resolved m)) = m.elemSegments :=
    map_eq_self fun el hel => mapVars_elemSegment (hp.elemSegments el hel)
  have hdatas : m.dataSegments.map (DataSegment.mapVars (resolved m)) = m.dataSegments :=
    map_eq_self fun d hd => mapVars_dataSegment (hp.dataSegments d hd)
  have hiff := mapVars_module_iff hp
  have hfuncsOut := Out.forEach (fun f hf ctx => Out.func (m := m) (hc f hf) (hp.funcs f hf))
    (fun f hf => mapVars_func (hp.funcs f hf)) htop
  refine hfuncsOut.bind (fun fs => ?_) fun fs ctx hctx => ?_
  · refine (hiff fs m.exports m.elemSegments m.dataSegments).trans ?_
    simp [hexports, helems, hdatas]
  refine (Out.forEach (fun e he ctx => Out.export_ (m := m) (hp.exports e he))
    (fun e he => mapVars_export (hp.exports e he)) hctx).bind (fun es => ?_) fun es ctx hctx => ?_
  · refine (hiff fs es m.elemSegments m.dataSegments).trans ?_
    simp [helems, hdatas]
  refine (Out.forEach (fun el hel ctx => Out.elemSegment (m := m) (hp.elemSegments el hel))
    (fun el hel => mapVars_elemSegment (hp.elemSegments el hel)) hctx).bind
      (fun els => ?_) fun els ctx hctx => ?_
  · refine (hiff fs es els m.dataSegments).trans ?_
    simp [hdatas, and_assoc]
  refine (Out.forEach (fun d hd ctx => Out.dataSegment (m := m) (hp.dataSegments d hd))
    (fun d hd => mapVars_dataSegment (hp.dataSegments d hd)) hctx).map fun ds => ?_
  refine (hiff fs es els ds).trans ?_
  simp [and_assoc]

/-! ## When a name leads back -/

section leadsBack

variable {h : BindingHash} {names : List StringSlice} {n : Name} {i : Int}

theorem mem_bindings_iff (hb : Binds h names) : (n, i) ∈ h.bindings ↔ nameAt names i = some n := by
  rw [hb.1.mem_iff, mem_bound, nameAt_eq_some]
  constructor
  · rintro ⟨k, hk, hi⟩
    exact ⟨k, by omega, hk⟩
  · rintro ⟨k, hi, hk⟩
    exact ⟨k, hk, by omega⟩

theorem distinct_of_binds (hb : Binds h names) : h.Distinct := by
  have hnames := (hb.1.map Prod.fst).nodup_iff
  rw [names_bound] at hnames
  exact hnames.mpr hb.2.1

/-- A lookup in a table of names finds the index of the name. -/
theorem find_eq_iff (hb : Binds h names) (hi : i ≠ -1) :
    h.find n = i ↔ nameAt names i = some n := by
  rw [← mem_bindings_iff hb]
  constructor
  · rintro rfl
    exact BindingHash.mem_of_find_ne hi
  · exact (distinct_of_binds hb).find_eq

theorem nameAt_nonneg (hname : nameAt names i = some n) : 0 ≤ i := by
  obtain ⟨k, rfl, -⟩ := nameAt_eq_some.mp hname
  omega

/-- The name leads back to the index: no block between has the same label, no parameter has the
name of the local, or the entity of that index has the name. -/
def LeadsBack (m : Module) (u : Use) (n : Name) (i : Int) : Prop :=
  match u.kind with
  | .label => ∀ j < i.toNat, u.scope.labels[j]? ≠ some (some n)
  | .local_ => ∀ f, u.scope.func = some f →
      cInt i = i ∧ (f.numParams ≤ i → some n ∉ f.paramNames)
  | kind => nameAt (m.names kind) i = some n

theorem resolved_label_iff {s : Scope} (hname : nameOf m s .label i = some n) :
    resolved m s .label (.name n) = .index i ↔ LeadsBack m ⟨s, .label, .index i⟩ n i := by
  obtain ⟨k, rfl, hk⟩ := nameAt_eq_some.mp hname
  obtain ⟨hlt, hval⟩ := List.getElem?_eq_some_iff.mp hk
  have hfind : s.labels.findIdx? (· == some n) = some k ↔
      ∀ j < k, s.labels[j]? ≠ some (some n) := by
    rw [List.findIdx?_eq_some_iff_getElem]
    constructor
    · rintro ⟨_, _, hbefore⟩ j hj hget
      obtain ⟨_, hget⟩ := List.getElem?_eq_some_iff.mp hget
      exact hbefore j hj (by simp [hget])
    · intro hbefore
      refine ⟨hlt, by simp [hval], fun j hj heq => hbefore j hj ?_⟩
      rw [List.getElem?_eq_getElem (by omega), beq_iff_eq.mp heq]
  simp only [LeadsBack, Int.toNat_natCast]
  rw [← hfind]
  cases hf : s.labels.findIdx? (· == some n) with
  | none => simp [resolved, hf]
  | some k' =>
    simp only [resolved, hf, Var.index.injEq, Option.some.injEq]
    omega

theorem resolved_entity_iff {s : Scope} {kind : VarKind} (hl : kind ≠ .label)
    (hloc : kind ≠ .local_) (hb : Binds (m.bindingsOf kind) (m.names kind)) :
    resolved m s kind (.name n) = .index i ↔ LeadsBack m ⟨s, kind, .index i⟩ n i := by
  have hback : LeadsBack m ⟨s, kind, .index i⟩ n i ↔ nameAt (m.names kind) i = some n := by
    cases kind <;> first | exact absurd rfl hl | exact absurd rfl hloc | rfl
  rw [ResolveNames.resolved_entity hl hloc, hback]
  constructor
  · intro hr
    split at hr
    · cases hr
    rename_i hne
    rw [Var.index.injEq] at hr
    rw [hr] at hne
    exact (find_eq_iff hb hne).mp hr
  · intro hname
    have hne : i ≠ -1 := by have := nameAt_nonneg hname; omega
    have hfind := (find_eq_iff hb hne).mpr hname
    simp [hfind, hne]

theorem resolved_local_iff {s : Scope} {f : FuncScope} (hf : s.func = some f)
    (hb : f.NamesBound) (hplen : f.paramNames.length = f.numParams)
    (hname : nameOf m s .local_ i = some n) :
    resolved m s .local_ (.name n) = .index i ↔ LeadsBack m ⟨s, .local_, .index i⟩ n i := by
  rw [nameOf, hf, Option.bind_some] at hname
  obtain ⟨k, hk, hget⟩ := nameAt_eq_some.mp hname
  have hres : resolved m s .local_ (.name n) =
      if f.getLocalIndexByVar (.name n) = -1 then .name n
      else .index (f.getLocalIndexByVar (.name n)) := by
    simp [resolved, hf]
  have hback : LeadsBack m ⟨s, .local_, .index i⟩ n i ↔
      cInt i = i ∧ (f.numParams ≤ i → some n ∉ f.paramNames) := by
    simp [LeadsBack, hf]
  rw [hres, hback]
  by_cases hparam : some n ∈ f.paramNames
  · -- the name is that of a parameter, which is the one that is found
    obtain ⟨j, hj⟩ := List.mem_iff_getElem?.mp hparam
    have hjlt : j < f.numParams := by
      rw [← hplen]
      exact (List.getElem?_eq_some_iff.mp hj).1
    have hjname : nameAt f.paramNames j = some n := nameAt_eq_some.mpr ⟨j, rfl, hj⟩
    have hjint : (j : Int) < 2 ^ 31 := hb.1.2.2.2 (n, j) ((mem_bindings_iff hb.1).mpr hjname)
    have hfind : f.paramBindings.find n = j := (find_eq_iff hb.1 (by omega)).mpr hjname
    have hne : (j : Int) ≠ -1 := by omega
    have hindex : f.getLocalIndexByVar (.name n) = j := by
      rw [FuncScope.getLocalIndexByVar_param (by omega), hfind]
    rw [hindex, if_neg hne, Var.index.injEq]
    constructor
    · rintro rfl
      exact ⟨cInt_of_lt (by omega) hjint, fun hle => by omega⟩
    · rintro ⟨hint, hin⟩
      have hklt : k < f.numParams := by
        by_contra hge
        exact hin (by omega) hparam
      rw [List.getElem?_append_left (by omega)] at hget
      have hkname : nameAt f.paramNames k = some n := nameAt_eq_some.mpr ⟨k, rfl, hget⟩
      have hfind' : f.paramBindings.find n = k := (find_eq_iff hb.1 (by omega)).mpr hkname
      omega
  · have hpnot : f.paramBindings.find n = -1 := by
      refine BindingHash.find_eq_neg_one fun j hj => hparam ?_
      obtain ⟨j, -, hj⟩ := nameAt_eq_some.mp ((mem_bindings_iff hb.1).mp hj)
      exact List.mem_of_getElem? hj
    have hkge : f.numParams ≤ k := by
      by_contra hlt
      rw [List.getElem?_append_left (by omega)] at hget
      exact hparam (List.mem_of_getElem? hget)
    rw [List.getElem?_append_right (by omega), hplen] at hget
    have hlname : nameAt f.localNames (k - f.numParams) = some n :=
      nameAt_eq_some.mpr ⟨k - f.numParams, by omega, hget⟩
    have hfind : f.localBindings.find n = k - f.numParams :=
      (find_eq_iff hb.2 (by omega)).mpr hlname
    have hindex : f.getLocalIndexByVar (.name n) = k := by
      rw [FuncScope.getLocalIndexByVar_local hpnot (by omega), hfind]
      have hsum : (f.numParams : Int) + (k - f.numParams) = cInt i := by omega
      rw [hsum, ← hk]
      exact Int.bmod_bmod
    have hne : (k : Int) ≠ -1 := by omega
    rw [hindex, if_neg hne, Var.index.injEq]
    constructor
    · rintro rfl
      exact ⟨hk, fun _ => hparam⟩
    · rintro ⟨hint, -⟩
      omega

end leadsBack

/-- The index at the place has no name, or a name that leads back to it. -/
def Place.Invertible (m : Module) (p : Place) : Prop :=
  ∀ i n, p.use.var = .index i → nameOf m p.use.scope p.namedAs i = some n →
    LeadsBack m p.use n i

/-- A place names its entity as what it is, unless it is that of an entity of the module. -/
def Place.Fits (p : Place) : Prop :=
  (p.namedAs = p.use.kind ∨ p.use.kind ≠ .label ∧ p.use.kind ≠ .local_)

theorem length_paramNames {f : FuncScope} (hb : f.NamesBound) :
    f.paramNames.length = f.numParams := by
  obtain ⟨names, hm, hlen, -⟩ := hb.1.reverseMapping
  simpa [FuncScope.paramNames, hm] using hlen

theorem kept_iff {p : Place} (hc : m.NamesBound) (hindex : p.use.var.isIndex = true)
    (hfits : p.Fits) (hfunc : ∀ f, p.use.scope.func = some f → f.NamesBound) :
    p.Kept m ↔ p.Invertible m := by
  obtain ⟨⟨s, kind, var⟩, namedAs, stops⟩ := p
  cases var with
  | name n => cases hindex
  | index i =>
    have hinv : Place.Invertible m ⟨⟨s, kind, .index i⟩, namedAs, stops⟩ ↔
        ∀ n, nameOf m s namedAs i = some n → LeadsBack m ⟨s, kind, .index i⟩ n i := by
      refine ⟨fun h n hn => h i n rfl hn, ?_⟩
      rintro h j n hj hn
      obtain rfl := Var.index.inj hj
      exact h n hn
    have hkept : Place.Kept m ⟨⟨s, kind, .index i⟩, namedAs, stops⟩ ↔
        resolved m s kind (applied m s namedAs (.index i)) = .index i := Iff.rfl
    rw [hinv, hkept]
    cases hname : nameOf m s namedAs i with
    | none => simp [applied, hname, resolved]
    | some n =>
      have happlied : applied m s namedAs (.index i) = .name n := by simp [applied, hname]
      rw [happlied]
      have hleads : resolved m s kind (.name n) = .index i ↔
          LeadsBack m ⟨s, kind, .index i⟩ n i := by
        by_cases hl : kind = .label
        · subst hl
          obtain rfl : namedAs = .label := hfits.resolve_right fun h => h.1 rfl
          exact resolved_label_iff hname
        by_cases hloc : kind = .local_
        · subst hloc
          obtain rfl : namedAs = .local_ := hfits.resolve_right fun h => h.2 rfl
          obtain ⟨f, hf, -⟩ := Option.bind_eq_some_iff.mp hname
          exact resolved_local_iff hf (hfunc f hf) (length_paramNames (hfunc f hf)) hname
        · exact resolved_entity_iff hl hloc (hc.1 kind hl hloc)
      rw [hleads]
      simp

theorem places_spec {p : Place} (hp : p ∈ places m) : p.Fits ∧ p.use ∈ m.uses := by
  have hfits : ∀ s kind var, (place s kind var).Fits := fun s kind var => .inl rfl
  rw [places, List.mem_append, List.mem_append, List.mem_append] at hp
  simp only [Module.uses, List.mem_append, List.mem_flatMap, List.mem_map]
  rcases hp with hp | hp | hp | hp
  · obtain ⟨f, hf, hp⟩ := List.mem_flatMap.mp hp
    obtain ⟨u, hu, rfl⟩ := List.mem_map.mp hp
    exact ⟨hfits _ _ _, .inl (.inl (.inl (.inl (.inl ⟨f, hf, hu⟩))))⟩
  · obtain ⟨e, he, hp⟩ := List.mem_flatMap.mp hp
    obtain rfl := List.mem_singleton.mp hp
    refine ⟨.inr ?_, .inl (.inl (.inl (.inl (.inr ⟨e, he, rfl⟩))))⟩
    cases hkind : e.kind <;> simp [exportPlace, Export.use, exportKind, hkind]
  · obtain ⟨el, hel, hp⟩ := List.mem_flatMap.mp hp
    have hmem : ∀ u ∈ el.uses, ∃ a ∈ m.elemSegments, u ∈ a.uses := fun u hu => ⟨el, hel, hu⟩
    rcases List.mem_cons.mp hp with rfl | hp
    · exact ⟨hfits _ _ _, .inl (.inl (.inr (hmem _ (List.mem_append_left _ List.mem_cons_self))))⟩
    · obtain ⟨var, hvar, rfl⟩ := List.mem_map.mp hp
      exact ⟨hfits _ _ _, .inl (.inl (.inr (hmem _ (List.mem_append_right _
        (List.mem_map.mpr ⟨var, hvar, rfl⟩)))))⟩
  · obtain ⟨d, hd, hp⟩ := List.mem_flatMap.mp hp
    obtain rfl := List.mem_singleton.mp hp
    exact ⟨hfits _ _ _, .inl (.inr ⟨d, hd, List.mem_cons_self⟩)⟩

end ApplyNames

open ApplyNames ResolveNames

variable {m : Module}

theorem resolveNamesModule_eq : resolveNamesModule m =
    if anyDangling m.uses then none
    else some (m.mapVars (resolved m),
      tablesDistinct m && m.funcs.all funcDistinct && allResolved m m.uses) := by
  rw [resolveNamesModule, visitModule_eq {} rfl, visited]
  split <;> simp [ResolveNames.Context.note]

/-- A module with indices only and no name bound twice is what comes of resolving another one
as soon as the variables are. -/
theorem resolveNamesModule_eq_iff {m' : Module} (hindex : Indexed m.uses)
    (htables : tablesDistinct m = true) (hfuncs : m.funcs.all funcDistinct = true) :
    resolveNamesModule m' = some (m, true) ↔ m'.mapVars (resolved m') = m := by
  rw [resolveNamesModule_eq]
  constructor
  · intro h
    split at h
    · cases h
    exact (Prod.mk.inj (Option.some.inj h)).1
  · rintro rfl
    have huses : ∀ u ∈ m'.uses, (resolved m' u.scope u.kind u.var).isIndex = true := by
      intro u hu
      refine hindex (u.map (resolved m')) ?_
      rw [Module.uses_mapVars]
      exact List.mem_map.mpr ⟨u, hu, rfl⟩
    have hdangling : anyDangling m'.uses = false := by
      rw [anyDangling, List.any_eq_false]
      intro u hu hd
      have hres := huses u hu
      simp only [dangling, Bool.and_eq_true, beq_iff_eq, Bool.not_eq_true',
        Option.isNone_iff_eq_none] at hd
      cases hvar : u.var with
      | index i => simp [hvar, Var.isIndex] at hd
      | name n => simp [hvar, resolved, hd.1.1, hd.2, Var.isIndex] at hres
    have htables' : tablesDistinct m' = true := htables
    have hfuncs' : m'.funcs.all funcDistinct = true := by
      have hsame : m'.funcs.all funcDistinct =
          (m'.mapVars (resolved m')).funcs.all funcDistinct := by
        simp only [Module.mapVars, List.all_map]
        rfl
      rw [hsame, hfuncs]
    have hall : allResolved m' m'.uses = true := List.all_eq_true.mpr huses
    simp [hdangling, htables', hfuncs', hall]

/-- Every place that the pass comes to before it stops leads back. -/
def Module.Invertible (m : Module) : Prop :=
  ∀ p ∈ (ApplyNames.places m).takeWhile (·.passes m), p.Invertible m

/-- Applying names and resolving them again gives back the module, if and only if at every place
that is come to the index has no name or the name leads back to it. -/
theorem resolve_applyNames_iff (m : Module) (hindex : ∀ u ∈ m.uses, u.var.isIndex = true)
    (hc : m.NamesBound) :
    (∃ m' ok, applyNames m = some (m', ok) ∧ resolveNamesModule m' = some (m, true)) ↔
      m.Invertible := by
  have hdistinct : ∀ kind, kind ≠ .label → kind ≠ .local_ → (m.bindingsOf kind).Distinct :=
    fun kind hl hloc => distinct_of_binds (hc.1 kind hl hloc)
  have htables : tablesDistinct m = true := by
    have hreports : ∀ {h : BindingHash}, h.Distinct → h.reportsDuplicate = false :=
      BindingHash.reportsDuplicate_eq_false.mpr
    have hfunc := hreports (hdistinct .func (by simp) (by simp))
    have hglobal := hreports (hdistinct .global (by simp) (by simp))
    have htype := hreports (hdistinct .funcType (by simp) (by simp))
    have htable := hreports (hdistinct .table (by simp) (by simp))
    have hmemory := hreports (hdistinct .memory (by simp) (by simp))
    simp only [Module.bindingsOf] at hfunc hglobal htype htable hmemory
    simp [tablesDistinct, hreports hc.2.1, hfunc, hglobal, htype, htable, hmemory]
  have hfuncs : m.funcs.all funcDistinct = true := by
    rw [List.all_eq_true]
    intro f hf
    obtain ⟨hp, hl⟩ := hc.2.2 f hf
    have hp' : f.paramBindings.reportsDuplicate = false :=
      BindingHash.reportsDuplicate_eq_false.mpr (distinct_of_binds hp)
    have hl' : f.localBindings.reportsDuplicate = false :=
      BindingHash.reportsDuplicate_eq_false.mpr (distinct_of_binds hl)
    simp [funcDistinct, hp', hl']
  have hkept : ∀ p ∈ places m, p.Kept m ↔ p.Invertible m := by
    intro p hp
    obtain ⟨hfits, huse⟩ := places_spec hp
    refine kept_iff hc (hindex _ huse) hfits fun f hf => ?_
    obtain ⟨f', hf', rfl⟩ := func_of_mem_uses huse hf
    exact hc.2.2 f' hf'
  have hout := Out.module (parts_of_indexed hindex) hc.2.2
  have hback : ∀ m' : Module, resolveNamesModule m' = some (m, true) ↔
      m'.mapVars (resolved m') = m := fun m' => resolveNamesModule_eq_iff hindex htables hfuncs
  rw [applyNames, Module.Invertible]
  cases hv : ApplyNames.visitModule m {} with
  | ok m' ctx =>
    rw [hv] at hout
    obtain ⟨-, hall, hiff⟩ := hout
    have htake : (places m).takeWhile (·.passes m) = places m := by
      have happend : (places m ++ []).takeWhile (·.passes m) = places m ++ _ :=
        takeWhile_append_of_all hall
      simpa using happend
    rw [htake, ← forall₂_congr hkept]
    simp [hback, hiff]
  | error m' ctx =>
    rw [hv] at hout
    obtain ⟨-, hiff⟩ := hout
    have hkept' : ∀ p ∈ (places m).takeWhile (·.passes m), p.Kept m ↔ p.Invertible m :=
      fun p hp => hkept p ((List.takeWhile_sublist _).subset hp)
    rw [← forall₂_congr hkept']
    simp [hback, hiff]
  | abort =>
    rw [hv] at hout
    exact hout.elim

/-- A function that branches to the outer one of two blocks, labelled `outer` and `inner`. -/
def nestedBlocks (outer inner : Name) : Module where
  funcs := [{ name := some (cstr "$f")
              firstExpr := .block (some outer) [] (.block (some inner) []
                (.expr (.br (.index 1)) .nil) .nil) .nil }]
  funcBindings := ({} : BindingHash).insert (cstr "$f") 0

theorem nestedBlocks_indexed (outer inner : Name) :
    ∀ u ∈ (nestedBlocks outer inner).uses, u.var.isIndex = true := by
  have huses : (nestedBlocks outer inner).uses.map (·.var) = [.index 1] := rfl
  intro u hu
  have hvar : u.var ∈ (nestedBlocks outer inner).uses.map (·.var) := List.mem_map_of_mem hu
  rw [huses, List.mem_singleton] at hvar
  rw [hvar]
  rfl

theorem nestedBlocks_namesBound (outer inner : Name) : (nestedBlocks outer inner).NamesBound := by
  have hfunc : Binds (({} : BindingHash).insert (cstr "$f") 0) [some (cstr "$f")] := by
    decide +kernel
  have hempty : Binds {} [] := by decide
  refine ⟨fun kind hl hloc => ?_, List.nodup_nil, fun f hf => ?_⟩
  · cases kind with
    | label => exact absurd rfl hl
    | local_ => exact absurd rfl hloc
    | func => exact hfunc
    | _ => exact hempty
  · obtain rfl := List.mem_singleton.mp hf
    exact ⟨hempty, hempty⟩

theorem resolve_applyNames_iff_nestedBlocks :
    (∃ m' ok, applyNames (nestedBlocks (cstr "$a") (cstr "$b")) = some (m', ok) ∧
      resolveNamesModule m' = some (nestedBlocks (cstr "$a") (cstr "$b"), true)) ↔
      (nestedBlocks (cstr "$a") (cstr "$b")).Invertible :=
  resolve_applyNames_iff _ (nestedBlocks_indexed _ _) (nestedBlocks_namesBound _ _)

/-- A branch to the outer one of two blocks with one label comes back as a branch to the inner
one. -/
theorem resolve_applyNames_sameLabel :
    (∀ u ∈ (nestedBlocks (cstr "$a") (cstr "$a")).uses, u.var.isIndex = true) ∧
      (nestedBlocks (cstr "$a") (cstr "$a")).NamesBound ∧
      ¬ ∃ m' ok, applyNames (nestedBlocks (cstr "$a") (cstr "$a")) = some (m', ok) ∧
        resolveNamesModule m' = some (nestedBlocks (cstr "$a") (cstr "$a"), true) := by
  refine ⟨nestedBlocks_indexed _ _, nestedBlocks_namesBound _ _, ?_⟩
  rintro ⟨m', ok, happly, hresolve⟩
  have hrun : (applyNames (nestedBlocks (cstr "$a") (cstr "$a"))).bind
      (fun r => resolveNamesModule r.1) ≠
        some (nestedBlocks (cstr "$a") (cstr "$a"), true) := by decide +kernel
  exact hrun (by rw [happly, Option.bind_some, hresolve])

end Text

end SexprWasm
