import SexprWasm.Text.Uses
import SexprWasm.Text.ResolveNames

/-!
# Resolution is complete and correct

The pass treats the variables one by one: `resolved` says what becomes
of each, and a walk is the map of `resolved` over the tree together with
the conjunction of what was found (`visitExprList_eq`). Only the name of
a local outside a function stops it. A module it reports no error about
therefore holds indices only, each of them what the name stood for.
-/

namespace SexprWasm

namespace Text

namespace ResolveNames

variable {m : Module} {α β : Type} {ctx : Context} {a : α} {b : β} {d d' ok ok' : Bool}

/-- What becomes of a variable. -/
def resolved (m : Module) (s : Scope) (kind : VarKind) (var : Var) : Var :=
  match var with
  | .index i => .index i
  | .name n =>
    match kind with
    | .label =>
      match s.labels.findIdx? (· == some n) with
      | some i => .index i
      | none => .name n
    | .local_ =>
      match s.func with
      | none => .name n
      | some f =>
        if f.getLocalIndexByVar (.name n) = -1 then .name n
        else .index (f.getLocalIndexByVar (.name n))
    | kind =>
      if (m.bindingsOf kind).find n = -1 then .name n else .index ((m.bindingsOf kind).find n)

/-- The name of a local outside a function. -/
def dangling (s : Scope) (kind : VarKind) (var : Var) : Bool :=
  kind == .local_ && !var.isIndex && s.func.isNone

/-- What is found so far, and `ok`. -/
def Context.note (ctx : Context) (ok : Bool) : Context := { ctx with result := ctx.result && ok }

def Context.scope (ctx : Context) : Scope := ⟨ctx.currentFunc, ctx.labels⟩

@[simp] theorem scope_note : (ctx.note ok).scope = ctx.scope := rfl

@[simp] theorem note_note : (ctx.note ok).note ok' = ctx.note (ok && ok') := by
  simp [Context.note, Bool.and_assoc]

@[simp] theorem note_true : ctx.note true = ctx := by simp [Context.note]

theorem printError_eq : ctx.printError = ctx.note false := by
  simp [Context.printError, Context.note]

theorem checkDuplicateBindings_eq {bindings : BindingHash} :
    checkDuplicateBindings bindings ctx = ctx.note (!bindings.reportsDuplicate) := by
  unfold checkDuplicateBindings
  cases bindings.reportsDuplicate <;> simp [printError_eq]

/-- A walk that comes to `a` with `ok` found, unless a dangling name stops it. -/
def settled (d ok : Bool) (a : α) (ctx : Context) : Visit Context α :=
  if d then .abort else .ok a (ctx.note ok)

theorem settled_andThen {stopped : α → β} {k : α → Context → Visit Context β}
    (hk : k a (ctx.note ok) = settled d' ok' b (ctx.note ok)) :
    (settled d ok a ctx).andThen stopped k = settled (d || d') (ok && ok') b ctx := by
  cases d with
  | true => rfl
  | false =>
    have hstep : (settled false ok a ctx).andThen stopped k = k a (ctx.note ok) := rfl
    rw [hstep, hk, settled, settled, note_note, Bool.false_or]

theorem settled_map {f : α → β} : (settled d ok a ctx).map f = settled d ok (f a) ctx := by
  cases d <;> rfl

/-- A visit of one variable does what `resolved` says. -/
def Resolves (m : Module) (kind : VarKind) (visit : Var → Context → Visit Context Var) : Prop :=
  ∀ var ctx, visit var ctx = settled (dangling ctx.scope kind var)
    (resolved m ctx.scope kind var).isIndex (resolved m ctx.scope kind var) ctx

theorem resolves_label : Resolves m .label resolveLabelVar := by
  intro var ctx
  cases var with
  | index i => simp [resolveLabelVar, dangling, resolved, settled, Var.isIndex]
  | name n =>
    simp only [resolveLabelVar, dangling, resolved, settled, Context.scope]
    cases hf : ctx.labels.findIdx? (· == some n) <;> simp [Var.isIndex, printError_eq]

theorem resolves_local : Resolves m .local_ resolveLocalVar := by
  intro var ctx
  cases var with
  | index i => simp [resolveLocalVar, dangling, resolved, settled, Var.isIndex]
  | name n =>
    obtain ⟨func, labels, result⟩ := ctx
    cases func with
    | none => simp [resolveLocalVar, dangling, settled, Context.scope, Var.isIndex]
    | some f =>
      by_cases hi : f.getLocalIndexByVar (.name n) = -1 <;>
        simp [resolveLocalVar, dangling, resolved, settled, Context.scope, hi, Var.isIndex,
          printError_eq]

theorem resolved_entity {s : Scope} {kind : VarKind} {n : Name} (hl : kind ≠ .label)
    (hloc : kind ≠ .local_) :
    resolved m s kind (.name n) = if (m.bindingsOf kind).find n = -1 then .name n
      else .index ((m.bindingsOf kind).find n) := by
  cases kind <;> first | exact absurd rfl hl | exact absurd rfl hloc | rfl

theorem resolves_var {kind : VarKind} (hl : kind ≠ .label) (hloc : kind ≠ .local_) :
    Resolves m kind (resolveVar (m.bindingsOf kind)) := by
  intro var ctx
  cases var with
  | index i => simp [resolveVar, dangling, resolved, settled, Var.isIndex]
  | name n =>
    by_cases hi : (m.bindingsOf kind).find n = -1 <;>
      simp [resolveVar, dangling, hloc, resolved_entity hl hloc, settled, getIndexFromVar, hi,
        Var.isIndex, printError_eq]

theorem resolves_func : Resolves m .func (resolveFuncVar m) := resolves_var (by simp) (by simp)

theorem resolves_global : Resolves m .global (resolveGlobalVar m) :=
  resolves_var (by simp) (by simp)

theorem resolves_funcType : Resolves m .funcType (resolveFuncTypeVar m) :=
  resolves_var (by simp) (by simp)

theorem resolves_table : Resolves m .table (resolveTableVar m) := resolves_var (by simp) (by simp)

theorem resolves_memory : Resolves m .memory (resolveMemoryVar m) :=
  resolves_var (by simp) (by simp)

/-! ## Walks -/

/-- `uses` hold a dangling name. -/
def anyDangling (uses : List Use) : Bool := uses.any fun u => dangling u.scope u.kind u.var

/-- All of `uses` are resolved. -/
def allResolved (m : Module) (uses : List Use) : Bool :=
  uses.all fun u => (resolved m u.scope u.kind u.var).isIndex

@[simp] theorem anyDangling_nil : anyDangling [] = false := rfl

@[simp] theorem allResolved_nil : allResolved m [] = true := rfl

@[simp] theorem anyDangling_append {us vs : List Use} :
    anyDangling (us ++ vs) = (anyDangling us || anyDangling vs) := List.any_append

@[simp] theorem allResolved_append {us vs : List Use} :
    allResolved m (us ++ vs) = (allResolved m us && allResolved m vs) := List.all_append

theorem visitVars_eq {kind : VarKind} {visit : Var → Context → Visit Context Var}
    (hv : Resolves m kind visit) (vars : List Var) (ctx : Context) :
    visitVars visit vars ctx = settled (anyDangling (vars.map (⟨ctx.scope, kind, ·⟩)))
      (allResolved m (vars.map (⟨ctx.scope, kind, ·⟩)))
      (vars.map (resolved m ctx.scope kind)) ctx := by
  induction vars generalizing ctx with
  | nil => simp [visitVars, settled]
  | cons var vars ih =>
    have hstep := hv var ctx
    rw [visitVars, hstep]
    refine settled_andThen ?_
    rw [ih, settled_map]
    rfl

theorem visitExpr_eq (e : Expr) (ctx : Context) :
    visitExpr (visitor m) e ctx =
      settled (anyDangling (e.vars.map fun (kind, var) => ⟨ctx.scope, kind, var⟩))
        (allResolved m (e.vars.map fun (kind, var) => ⟨ctx.scope, kind, var⟩))
        (e.mapVars (resolved m ctx.scope)) ctx := by
  have hone : ∀ {kind : VarKind} {visit : Var → Context → Visit Context Var} {f : Var → Expr}
      {var : Var}, Resolves m kind visit → (visit var ctx).map f =
        settled (anyDangling [⟨ctx.scope, kind, var⟩]) (allResolved m [⟨ctx.scope, kind, var⟩])
          (f (resolved m ctx.scope kind var)) ctx := by
    intro kind visit f var hv
    rw [hv var ctx, settled_map]
    simp [anyDangling, allResolved]
  cases e with
  | br var => exact hone resolves_label
  | brIf var => exact hone resolves_label
  | brTable targets defaultTarget =>
    have hstep : visitExpr (visitor m) (.brTable targets defaultTarget) ctx =
        ((visitVars resolveLabelVar targets ctx).andThen (·, defaultTarget) fun targets ctx =>
          (resolveLabelVar defaultTarget ctx).map (targets, ·)).map fun p =>
            Expr.brTable p.1 p.2 := rfl
    have hdefault : ∀ (targets : List Var) (ctx : Context),
        (resolveLabelVar defaultTarget ctx).map (targets, ·) = settled
          (dangling ctx.scope .label defaultTarget)
          (resolved m ctx.scope .label defaultTarget).isIndex
          (targets, resolved m ctx.scope .label defaultTarget) ctx := by
      intro targets ctx
      rw [resolves_label (m := m), settled_map]
    rw [hstep, visitVars_eq (resolves_label (m := m)), settled_andThen (hdefault _ _), settled_map]
    simp [Expr.vars, Expr.mapVars, anyDangling, allResolved, List.map_map, Function.comp_def]
  | call var => exact hone resolves_func
  | callIndirect var => exact hone resolves_funcType
  | getLocal var => exact hone resolves_local
  | setLocal var => exact hone resolves_local
  | teeLocal var => exact hone resolves_local
  | getGlobal var => exact hone resolves_global
  | setGlobal var => exact hone resolves_global
  | _ => simp [visitExpr, Expr.vars, Expr.mapVars, settled]

/-- A walk under a label: what it finds is noted, and its label is gone after it. -/
theorem settled_popLabel {label : StringSlice} {stopped : α → β} {stopped' : α → Unit → β}
    {k : α → Context → Visit Context β} :
    (settled d ok a { ctx with labels := label :: ctx.labels }).andThen stopped
        (fun a s => (popLabel s).andThen (stopped' a) fun _ s => k a s) =
      (settled d ok a ctx).andThen stopped k := by
  cases d <;> rfl

/-- A walk rewrites every variable as `resolved` says, and notes whether all became indices. -/
theorem visitExprList_eq (e : ExprList) (ctx : Context) :
    visitExprList (visitor m) e ctx = settled (anyDangling (e.uses ctx.scope))
      (allResolved m (e.uses ctx.scope)) (e.mapVars (resolved m) ctx.scope) ctx := by
  induction e generalizing ctx with
  | nil => simp [visitExprList, ExprList.uses, ExprList.mapVars, settled]
  | expr e next ih =>
    rw [visitExprList, visitExpr_eq]
    simp only [ExprList.uses, anyDangling_append, allResolved_append]
    refine settled_andThen ?_
    rw [ih, settled_map]
    rfl
  | block label sig first next ihf ihn =>
    have hpush : (visitor m).beginBlockExpr label ctx =
        .ok label { ctx with labels := label :: ctx.labels } := rfl
    have hpop : (visitor m).endBlockExpr = popLabel := rfl
    rw [visitExprList, hpush, Visit.andThen_ok, hpop, ihf, settled_popLabel]
    simp only [ExprList.uses, anyDangling_append, allResolved_append]
    refine settled_andThen ?_
    rw [ihn, settled_map]
    rfl
  | loop label sig first next ihf ihn =>
    have hpush : (visitor m).beginLoopExpr label ctx =
        .ok label { ctx with labels := label :: ctx.labels } := rfl
    have hpop : (visitor m).endLoopExpr = popLabel := rfl
    rw [visitExprList, hpush, Visit.andThen_ok, hpop, ihf, settled_popLabel]
    simp only [ExprList.uses, anyDangling_append, allResolved_append]
    refine settled_andThen ?_
    rw [ihn, settled_map]
    rfl
  | if_ label sig true_ false_ next iht ihf ihn =>
    have hpush : (visitor m).beginIfExpr label ctx =
        .ok label { ctx with labels := label :: ctx.labels } := rfl
    have hpop : (visitor m).endIfExpr = popLabel := rfl
    rw [visitExprList, hpush, Visit.andThen_ok, hpop, iht]
    have hrest : ∀ t : ExprList, ∀ ctx : Context,
        ((visitExprList (visitor m) false_ { ctx with labels := label :: ctx.labels }).andThen
          (ExprList.if_ label sig t · next) fun false_ s =>
          (popLabel s).andThen (fun _ => ExprList.if_ label sig t false_ next) fun _ s =>
          (visitExprList (visitor m) next s).map (ExprList.if_ label sig t false_)) =
        settled (anyDangling (false_.uses (ctx.scope.push label) ++ next.uses ctx.scope))
          (allResolved m (false_.uses (ctx.scope.push label) ++ next.uses ctx.scope))
          (ExprList.if_ label sig t (false_.mapVars (resolved m) (ctx.scope.push label))
            (next.mapVars (resolved m) ctx.scope)) ctx := by
      intro t ctx
      rw [ihf, settled_popLabel, anyDangling_append, allResolved_append]
      refine settled_andThen ?_
      rw [ihn, settled_map]
      rfl
    have hcut : ∀ (d ok : Bool) (t : ExprList),
        (settled d ok t { ctx with labels := label :: ctx.labels }).andThen
          (ExprList.if_ label sig · false_ next) (fun true_ s =>
            (visitExprList (visitor m) false_ s).andThen (ExprList.if_ label sig true_ · next)
              fun false_ s =>
                (popLabel s).andThen (fun _ => ExprList.if_ label sig true_ false_ next) fun _ s =>
                (visitExprList (visitor m) next s).map (ExprList.if_ label sig true_ false_)) =
        (settled d ok t ctx).andThen (ExprList.if_ label sig · false_ next) (fun true_ s =>
            (visitExprList (visitor m) false_ { s with labels := label :: s.labels }).andThen
              (ExprList.if_ label sig true_ · next) fun false_ s =>
                (popLabel s).andThen (fun _ => ExprList.if_ label sig true_ false_ next) fun _ s =>
                (visitExprList (visitor m) next s).map (ExprList.if_ label sig true_ false_)) := by
      intro d ok t
      cases d <;> rfl
    rw [hcut, settled_andThen (hrest _ _)]
    simp only [ExprList.uses, List.append_assoc, anyDangling_append, allResolved_append]
    rfl

/-! ## Modules -/

/-- What a visit of a part of the module comes to. -/
def visited (d ok : Bool) (a : α) (ctx : Context) : Option (α × Context) :=
  if d then none else some (a, ctx.note ok)

theorem settled_ignore : (settled d ok a ctx).ignore = visited d ok a ctx := by cases d <;> rfl

theorem visited_bind {k : α × Context → Option (β × Context)}
    (hk : k (a, ctx.note ok) = visited d' ok' b (ctx.note ok)) :
    (visited d ok a ctx).bind k = visited (d || d') (ok && ok') b ctx := by
  cases d with
  | true => rfl
  | false =>
    have hstep : (visited false ok a ctx).bind k = k (a, ctx.note ok) := rfl
    rw [hstep, hk, visited, visited, note_note, Bool.false_or]

theorem forEach_eq {visit : α → Context → Option (α × Context)} {dang found : α → Bool} {f : α → α}
    (hv : ∀ a ctx, ctx.scope = {} → visit a ctx = visited (dang a) (found a) (f a) ctx)
    (as : List α) (ctx : Context) (hs : ctx.scope = {}) :
    forEach visit as ctx = visited (as.any dang) (as.all found) (as.map f) ctx := by
  induction as generalizing ctx with
  | nil => simp [forEach, visited]
  | cons a as ih =>
    have hstep : forEach visit (a :: as) ctx = (visit a ctx).bind fun p =>
        (forEach visit as p.2).bind fun q => some (p.1 :: q.1, q.2) := rfl
    rw [hstep, hv a ctx hs]
    refine visited_bind ?_
    show (forEach visit as _).bind _ = _
    rw [ih (ctx.note (found a)) hs]
    cases as.any dang <;> rfl

theorem resolved_ignore {kind : VarKind} {visit : Var → Context → Visit Context Var}
    (hv : Resolves m kind visit) (var : Var) (ctx : Context)
    (hs : ctx.scope = {}) : (visit var ctx).ignore = visited (anyDangling [⟨{}, kind, var⟩])
      (allResolved m [⟨{}, kind, var⟩]) (resolved m {} kind var) ctx := by
  rw [hv, settled_ignore, hs]
  simp [anyDangling, allResolved]

theorem visitExprList_ignore (e : ExprList) (ctx : Context) (hs : ctx.scope = {}) :
    (visitExprList (visitor m) e ctx).ignore = visited (anyDangling (e.uses {}))
      (allResolved m (e.uses {})) (e.mapVars (resolved m) {}) ctx := by
  rw [visitExprList_eq, settled_ignore, hs]

/-- The tables of a function hold no name twice. -/
def funcDistinct (func : Func) : Bool :=
  !func.paramBindings.reportsDuplicate && !func.localBindings.reportsDuplicate

theorem visitFunc_eq (func : Func) (ctx : Context) (hs : ctx.scope = {}) :
    visitFunc m func ctx = visited (anyDangling func.uses)
      (allResolved m func.uses && funcDistinct func) (func.mapVars (resolved m)) ctx := by
  obtain ⟨currentFunc, labels, result⟩ := ctx
  obtain ⟨rfl, rfl⟩ : currentFunc = none ∧ labels = [] := by
    simpa [Context.scope] using hs
  have hbody : ∀ (typeVar : Option Var) (ctx : Context), ctx.scope = { func := some func.scope } →
      ((visitExprList (visitor m) func.firstExpr (checkDuplicateBindings func.localBindings
        (checkDuplicateBindings func.paramBindings ctx))).ignore.bind fun p =>
          some ({ func with decl := { func.decl with typeVar }, firstExpr := p.1 },
            { p.2 with currentFunc := none })) =
      visited (anyDangling (func.firstExpr.uses { func := some func.scope }))
        (allResolved m (func.firstExpr.uses { func := some func.scope }) && funcDistinct func)
        { func with
          decl := { func.decl with typeVar }
          firstExpr := func.firstExpr.mapVars (resolved m) { func := some func.scope } }
        { ctx with currentFunc := none } := by
    intro typeVar ctx hscope
    rw [checkDuplicateBindings_eq, checkDuplicateBindings_eq, note_note, visitExprList_eq,
      settled_ignore, scope_note, hscope]
    cases anyDangling (func.firstExpr.uses { func := some func.scope }) with
    | true => rfl
    | false =>
      simp [visited, Context.note, funcDistinct, Bool.and_assoc, Bool.and_comm]
  unfold visitFunc
  cases htype : func.decl.typeVar with
  | none =>
    refine (hbody none { currentFunc := some func.scope, result } rfl).trans ?_
    simp [Func.uses, Func.mapVars, htype]
  | some var =>
    have hvar := resolves_funcType (m := m) var { currentFunc := some func.scope, result }
    show ((resolveFuncTypeVar m var { currentFunc := some func.scope, result }).ignore.bind
      fun q => (visitExprList (visitor m) func.firstExpr
        (checkDuplicateBindings func.localBindings
          (checkDuplicateBindings func.paramBindings q.2))).ignore.bind fun p =>
            some ({ func with decl := { func.decl with typeVar := some q.1 }, firstExpr := p.1 },
              { p.2 with currentFunc := none })) = _
    rw [hvar, settled_ignore]
    refine (hbody (some (resolved m { func := some func.scope } .funcType var))
      (Context.note { currentFunc := some func.scope, result }
        (resolved m { func := some func.scope } .funcType var).isIndex) rfl).trans ?_
    simp [Func.uses, Func.mapVars, htype, visited, Context.note, allResolved, anyDangling,
      dangling, Bool.and_assoc]

theorem visitExport_eq (export_ : Export) (ctx : Context) (hs : ctx.scope = {}) :
    visitExport m export_ ctx = visited (anyDangling [export_.use])
      (allResolved m [export_.use]) (export_.mapVars (resolved m)) ctx := by
  have hkind : ∀ {visit : Var → Context → Visit Context Var},
      Resolves m (exportKind export_.kind) visit →
      ((visit export_.var ctx).ignore.bind fun p => some ({ export_ with var := p.1 }, p.2)) =
        visited (anyDangling [export_.use]) (allResolved m [export_.use])
          (export_.mapVars (resolved m)) ctx := by
    intro visit hv
    rw [resolved_ignore hv _ ctx hs, Export.use]
    cases anyDangling [⟨{}, exportKind export_.kind, export_.var⟩] <;> rfl
  obtain ⟨kind, var⟩ := export_
  cases kind with
  | func => exact hkind resolves_func
  | table => exact hkind resolves_table
  | memory => exact hkind resolves_memory
  | global => exact hkind resolves_global

theorem visitGlobal_eq (global : Global) (ctx : Context) (hs : ctx.scope = {}) :
    visitGlobal m global ctx = visited (anyDangling global.uses)
      (allResolved m global.uses) (global.mapVars (resolved m)) ctx := by
  show (visitExprList (visitor m) global.initExpr ctx).ignore.bind _ = _
  rw [visitExprList_ignore _ ctx hs, Global.uses]
  cases anyDangling (global.initExpr.uses {}) <;> rfl

theorem visitElemSegment_eq (segment : ElemSegment) (ctx : Context) (hs : ctx.scope = {}) :
    visitElemSegment m segment ctx = visited (anyDangling segment.uses)
      (allResolved m segment.uses) (segment.mapVars (resolved m)) ctx := by
  have huses : segment.uses = [⟨{}, .table, segment.tableVar⟩] ++
      (segment.offset.uses {} ++ segment.vars.map (⟨{}, .func, ·⟩)) := rfl
  rw [huses, anyDangling_append, allResolved_append]
  show (resolveTableVar m segment.tableVar ctx).ignore.bind _ = _
  rw [resolved_ignore resolves_table _ ctx hs]
  refine visited_bind ?_
  rw [anyDangling_append, allResolved_append]
  show (visitExprList (visitor m) segment.offset _).ignore.bind _ = _
  rw [visitExprList_ignore _ (ctx.note _) hs]
  refine visited_bind ?_
  show (visitVars (resolveFuncVar m) segment.vars _).ignore.bind _ = _
  rw [visitVars_eq resolves_func, settled_ignore, scope_note, scope_note, hs]
  cases anyDangling (segment.vars.map (⟨{}, .func, ·⟩)) <;> rfl

theorem visitDataSegment_eq (segment : DataSegment) (ctx : Context) (hs : ctx.scope = {}) :
    visitDataSegment m segment ctx = visited (anyDangling segment.uses)
      (allResolved m segment.uses) (segment.mapVars (resolved m)) ctx := by
  have huses : segment.uses = [⟨{}, .memory, segment.memoryVar⟩] ++ segment.offset.uses {} := rfl
  rw [huses, anyDangling_append, allResolved_append]
  show (resolveMemoryVar m segment.memoryVar ctx).ignore.bind _ = _
  rw [resolved_ignore resolves_memory _ ctx hs]
  refine visited_bind ?_
  show (visitExprList (visitor m) segment.offset _).ignore.bind _ = _
  rw [visitExprList_ignore _ (ctx.note _) hs]
  cases anyDangling (segment.offset.uses {}) <;> rfl

/-- The variable of the start field, as a use. -/
def startUses (starts : List Var) : List Use := starts.getLast?.toList.map (⟨{}, .func, ·⟩)

theorem visitStart_eq (starts : List Var) (ctx : Context) (hs : ctx.scope = {}) :
    visitStart m starts ctx = visited (anyDangling (startUses starts))
      (allResolved m (startUses starts)) (mapStart (resolved m) starts) ctx := by
  fun_induction visitStart m starts ctx with
  | case1 ctx => simp [startUses, visited, mapStart]
  | case2 start ctx =>
    show (resolveFuncVar m start ctx).ignore.bind _ = _
    rw [resolved_ignore resolves_func _ ctx hs]
    simp only [startUses, mapStart, List.getLast?_singleton, List.dropLast_singleton,
      Option.toList_some, List.map_cons, List.map_nil]
    cases anyDangling [⟨{}, .func, start⟩] <;> rfl
  | case3 start starts ctx hne ih =>
    obtain ⟨next, rest, rfl⟩ : ∃ next rest, starts = next :: rest := by
      cases starts with
      | nil => exact absurd rfl hne
      | cons next rest => exact ⟨next, rest, rfl⟩
    have huses : startUses (start :: next :: rest) = startUses (next :: rest) := by
      rw [startUses, startUses, List.getLast?_cons_cons]
    have hmap : mapStart (resolved m) (start :: next :: rest) =
        start :: mapStart (resolved m) (next :: rest) := by
      simp [mapStart, List.getLast?_cons_cons]
    show (visitStart m (next :: rest) ctx).bind _ = _
    rw [ih hs, huses, hmap]
    cases anyDangling (startUses (next :: rest)) <;> rfl

theorem visited_note : visited d ok' a (ctx.note ok) = visited d (ok && ok') a ctx := by
  cases d <;> simp [visited]

/-- The tables of the module hold no name twice. -/
def tablesDistinct (m : Module) : Bool :=
  !m.funcBindings.reportsDuplicate && !m.globalBindings.reportsDuplicate &&
    !m.exportBindings.reportsDuplicate && !m.funcTypeBindings.reportsDuplicate &&
    !m.tableBindings.reportsDuplicate && !m.memoryBindings.reportsDuplicate

/-- What the walk over a vector of the module comes to, from what it comes to at each entity. -/
theorem forEach_uses {visit : α → Context → Option (α × Context)} {uses : α → List Use}
    {found : α → Bool} {f : α → α}
    (hv : ∀ a ctx, ctx.scope = {} → visit a ctx =
      visited (anyDangling (uses a)) (allResolved m (uses a) && found a) (f a) ctx)
    (as : List α) (ctx : Context) (hs : ctx.scope = {}) :
    forEach visit as ctx = visited (anyDangling (as.flatMap uses))
      (allResolved m (as.flatMap uses) && as.all found) (as.map f) ctx := by
  rw [forEach_eq hv as ctx hs]
  congr 1
  · simp [anyDangling, List.any_flatMap]
  · induction as with
    | nil => rfl
    | cons a as ih =>
      rw [List.all_cons, ih, List.flatMap_cons, allResolved_append, List.all_cons]
      simp [Bool.and_assoc, Bool.and_left_comm]

theorem forEach_vars {visit : α → Context → Option (α × Context)} {uses : α → List Use}
    {f : α → α}
    (hv : ∀ a ctx, ctx.scope = {} → visit a ctx =
      visited (anyDangling (uses a)) (allResolved m (uses a)) (f a) ctx)
    (as : List α) (ctx : Context) (hs : ctx.scope = {}) :
    forEach visit as ctx = visited (anyDangling (as.flatMap uses))
      (allResolved m (as.flatMap uses)) (as.map f) ctx := by
  have hall : ∀ a ctx, ctx.scope = {} → visit a ctx =
      visited (anyDangling (uses a)) (allResolved m (uses a) && true) (f a) ctx := by
    simpa using hv
  have htrue : as.all (fun _ => true) = true := List.all_eq_true.mpr fun _ _ => rfl
  rw [forEach_uses hall as ctx hs, htrue, Bool.and_true]

/-- The pass rewrites every variable of a module as `resolved` says, and reports an error if a
variable is left a name or a name is bound twice. -/
theorem visitModule_eq (ctx : Context) (hs : ctx.scope = {}) :
    visitModule m ctx = visited (anyDangling m.uses)
      (tablesDistinct m && m.funcs.all funcDistinct && allResolved m m.uses)
      (m.mapVars (resolved m)) ctx := by
  have htables : checkDuplicateBindings m.memoryBindings
      (checkDuplicateBindings m.tableBindings (checkDuplicateBindings m.funcTypeBindings
        (checkDuplicateBindings m.exportBindings (checkDuplicateBindings m.globalBindings
          (checkDuplicateBindings m.funcBindings ctx))))) = ctx.note (tablesDistinct m) := by
    simp only [checkDuplicateBindings_eq, note_note]
    simp [tablesDistinct, Bool.and_assoc]
  have hexport : ∀ e ctx, ctx.scope = {} → visitExport m e ctx =
      visited (anyDangling [e.use]) (allResolved m [e.use]) (e.mapVars (resolved m)) ctx :=
    visitExport_eq
  have huses : m.uses = m.funcs.flatMap (·.uses) ++ (m.exports.flatMap (fun e => [e.use]) ++
      (m.globals.flatMap (·.uses) ++ (m.elemSegments.flatMap (·.uses) ++
        (m.dataSegments.flatMap (·.uses) ++ startUses m.starts)))) := by
    have hexports : m.exports.map (·.use) = m.exports.flatMap fun e => [e.use] :=
      (List.flatMap_pure_eq_map _ _).symm
    simp [Module.uses, startUses, hexports]
  have hok : ∀ funcs rest : Bool, (tablesDistinct m && (funcs && m.funcs.all funcDistinct && rest)) =
      (tablesDistinct m && m.funcs.all funcDistinct && (funcs && rest)) := by
    intro funcs rest
    rw [Bool.and_right_comm funcs, Bool.and_comm (funcs && rest), Bool.and_assoc]
  rw [huses]
  simp only [anyDangling_append, allResolved_append]
  rw [← hok, ← visited_note, ← htables]
  show (forEach (visitFunc m) m.funcs _).bind _ = _
  rw [htables, forEach_uses visitFunc_eq _ (ctx.note _) hs]
  refine visited_bind ?_
  rw [note_note]
  show (forEach (visitExport m) m.exports _).bind _ = _
  rw [forEach_vars hexport _ (ctx.note _) hs]
  refine visited_bind ?_
  rw [note_note]
  show (forEach (visitGlobal m) m.globals _).bind _ = _
  rw [forEach_vars visitGlobal_eq _ (ctx.note _) hs]
  refine visited_bind ?_
  rw [note_note]
  show (forEach (visitElemSegment m) m.elemSegments _).bind _ = _
  rw [forEach_vars visitElemSegment_eq _ (ctx.note _) hs]
  refine visited_bind ?_
  rw [note_note]
  show (forEach (visitDataSegment m) m.dataSegments _).bind _ = _
  rw [forEach_vars visitDataSegment_eq _ (ctx.note _) hs]
  refine visited_bind ?_
  rw [note_note]
  show (visitStart m m.starts _).bind _ = _
  rw [visitStart_eq _ (ctx.note _) hs]
  cases anyDangling (startUses m.starts) <;> rfl

/-! ## Scripts -/

/-- The module of a command that the pass goes through. -/
def visitedModule : Command → Option Module
  | .module m => some m
  | .assertUnlinkable (.text m) => some m
  | .assertUninstantiable (.text m) => some m
  | _ => none

/-- The command with another module in the place of the one the pass goes through. -/
def withModule (m : Module) : Command → Command
  | .module _ => .module m
  | .assertUnlinkable (.text _) => .assertUnlinkable (.text m)
  | .assertUninstantiable (.text _) => .assertUninstantiable (.text m)
  | c => c

/-- The name of a local stands outside a function. -/
def commandDangling (c : Command) : Bool := (visitedModule c).any fun m => anyDangling m.uses

/-- No name is bound twice and none is unbound. -/
def commandOk (c : Command) : Bool :=
  (visitedModule c).all fun m =>
    tablesDistinct m && m.funcs.all funcDistinct && allResolved m m.uses

def resolvedCommand (c : Command) : Command :=
  match visitedModule c with
  | none => c
  | some m => withModule (m.mapVars (resolved m)) c

theorem visitCommand_eq (c : Command) (ctx : Context) (hs : ctx.scope = {}) :
    visitCommand c ctx = visited (commandDangling c) (commandOk c) (resolvedCommand c) ctx := by
  have hskip : some (c, ctx) = visited false true c ctx := by simp [visited]
  have hraw : ∀ m : Module, visitRawModule (.text m) ctx = visited (anyDangling m.uses)
      (tablesDistinct m && m.funcs.all funcDistinct && allResolved m m.uses)
      (.text (m.mapVars (resolved m))) ctx := by
    intro m
    show (visitModule m ctx).bind _ = _
    rw [visitModule_eq ctx hs]
    cases anyDangling m.uses <;> rfl
  cases c with
  | module m =>
    show (visitModule m ctx).bind _ = visited (anyDangling m.uses) _ _ _
    rw [visitModule_eq ctx hs]
    cases anyDangling m.uses <;> rfl
  | assertUnlinkable raw =>
    cases raw with
    | text m =>
      show (visitRawModule (.text m) ctx).bind _ = visited (anyDangling m.uses) _ _ _
      rw [hraw]
      cases anyDangling m.uses <;> rfl
    | binary name data => exact hskip
  | assertUninstantiable raw =>
    cases raw with
    | text m =>
      show (visitRawModule (.text m) ctx).bind _ = visited (anyDangling m.uses) _ _ _
      rw [hraw]
      cases anyDangling m.uses <;> rfl
    | binary name data => exact hskip
  | assertMalformed raw => exact hskip
  | assertInvalid raw => exact hskip
  | other => exact hskip

theorem resolveNamesScript_eq (script : Script) :
    resolveNamesScript script = if script.any commandDangling then none
      else some (script.map resolvedCommand, script.all commandOk) := by
  rw [resolveNamesScript, forEach_eq visitCommand_eq script {} rfl, visited]
  split
  · rfl
  · simp [Context.note]

/-! ## What a variable becomes -/

theorem scope_func_of_mem {u : Use} {e : ExprList} {s : Scope} (hu : u ∈ e.uses s) :
    u.scope.func = s.func := by
  induction e generalizing s with
  | nil => cases hu
  | expr e next ih =>
    rcases List.mem_append.mp hu with hu | hu
    · obtain ⟨v, -, rfl⟩ := List.mem_map.mp hu
      rfl
    · exact ih hu
  | block label sig first next ihf ihn =>
    rcases List.mem_append.mp hu with hu | hu
    · exact ihf (s := s.push label) hu
    · exact ihn hu
  | loop label sig first next ihf ihn =>
    rcases List.mem_append.mp hu with hu | hu
    · exact ihf (s := s.push label) hu
    · exact ihn hu
  | if_ label sig true_ false_ next iht ihf ihn =>
    rcases List.mem_append.mp hu with hu | hu
    · rcases List.mem_append.mp hu with hu | hu
      · exact iht (s := s.push label) hu
      · exact ihf (s := s.push label) hu
    · exact ihn hu

/-- A variable inside a function is read in the scope of a function of the module. -/
theorem func_of_mem_uses {u : Use} {func : FuncScope} (hu : u ∈ m.uses)
    (hf : u.scope.func = some func) : ∃ f ∈ m.funcs, func = f.scope := by
  have hout : ∀ (e : ExprList), u ∉ e.uses {} := by
    intro e he
    rw [scope_func_of_mem he] at hf
    cases hf
  simp only [Module.uses, List.mem_append, List.mem_flatMap, List.mem_map] at hu
  rcases hu with ((((⟨f, hmem, hu⟩ | ⟨e, -, rfl⟩) | ⟨g, -, hu⟩) | ⟨segment, -, hu⟩) |
    ⟨segment, -, hu⟩) | ⟨start, -, rfl⟩
  · refine ⟨f, hmem, ?_⟩
    rcases List.mem_append.mp hu with hu | hu
    · obtain ⟨var, -, rfl⟩ := List.mem_map.mp hu
      exact (Option.some.inj hf).symm
    · rw [scope_func_of_mem hu] at hf
      exact (Option.some.inj hf).symm
  · cases hf
  · exact absurd hu (hout _)
  · rcases List.mem_append.mp hu with hu | hu
    · rcases List.mem_cons.mp hu with rfl | hu
      · cases hf
      · exact absurd hu (hout _)
    · obtain ⟨var, -, rfl⟩ := List.mem_map.mp hu
      cases hf
  · rcases List.mem_cons.mp hu with rfl | hu
    · cases hf
    · exact absurd hu (hout _)
  · cases hf

theorem findIdx?_label {n : Name} {labels : List StringSlice} {k : Nat}
    (hk : labels.findIdx? (· == some n) = some k) :
    labels[k]? = some (some n) ∧ ∀ j < k, labels[j]? ≠ some (some n) := by
  obtain ⟨hlt, heq, hbefore⟩ := List.findIdx?_eq_some_iff_getElem.mp hk
  refine ⟨?_, fun j hj hget => ?_⟩
  · rw [List.getElem?_eq_getElem hlt, beq_iff_eq.mp heq]
  · obtain ⟨_, hval⟩ := List.getElem?_eq_some_iff.mp hget
    exact hbefore j hj (beq_iff_eq.mpr hval)

/-- An index that takes the place of a name is that of the entity the name stands for. -/
theorem names_of_resolved {s : Scope} {kind : VarKind} {n : Name} {i : Int}
    (hparam : ∀ func, s.func = some func → func.paramBindings.Distinct)
    (hr : resolved m s kind (.name n) = .index i) : m.Names s kind n i := by
  by_cases hl : kind = .label
  · subst hl
    simp only [resolved] at hr
    cases hk : s.labels.findIdx? (· == some n) with
    | none => simp [hk] at hr
    | some k =>
      rw [hk, Var.index.injEq] at hr
      obtain ⟨hget, hbefore⟩ := findIdx?_label hk
      exact ⟨k, hr.symm, hget, hbefore⟩
  by_cases hloc : kind = .local_
  · subst hloc
    simp only [resolved] at hr
    cases hf : s.func with
    | none => simp [hf] at hr
    | some func =>
      rw [hf] at hr
      dsimp only at hr
      split at hr
      · cases hr
      rename_i hne
      rw [Var.index.injEq] at hr
      refine ⟨func, hf, ?_⟩
      by_cases hp : func.paramBindings.find n = -1
      · have hlocal : func.localBindings.find n ≠ -1 := fun hlocal =>
          hne (FuncScope.getLocalIndexByVar_neither hp hlocal)
        rw [FuncScope.getLocalIndexByVar_local hp hlocal] at hr
        refine .inr ⟨fun j hj hmem => ?_, _, BindingHash.mem_of_find_ne hlocal, hr.symm⟩
        have hfind := (hparam func hf).find_eq hmem
        omega
      · rw [FuncScope.getLocalIndexByVar_param hp] at hr
        exact .inl (hr ▸ BindingHash.mem_of_find_ne hp)
  · rw [resolved_entity hl hloc] at hr
    split at hr
    · cases hr
    rename_i hne
    rw [Var.index.injEq] at hr
    have hmem := BindingHash.mem_of_find_ne hne
    rw [hr] at hmem
    cases kind <;> first | exact absurd rfl hl | exact absurd rfl hloc | exact hmem

/-- A name that stands for nothing stays. -/
theorem resolved_of_unbound {s : Scope} {kind : VarKind} {n : Name}
    (hnot : ∀ i, ¬ m.Names s kind n i) : (resolved m s kind (.name n)).isIndex = false := by
  by_cases hl : kind = .label
  · subst hl
    simp only [resolved]
    cases hk : s.labels.findIdx? (· == some n) with
    | none => rfl
    | some k =>
      obtain ⟨hget, hbefore⟩ := findIdx?_label hk
      exact absurd ⟨k, rfl, hget, hbefore⟩ (hnot k)
  by_cases hloc : kind = .local_
  · subst hloc
    simp only [resolved]
    cases hf : s.func with
    | none => rfl
    | some func =>
      have hp : ∀ i, (n, i) ∉ func.paramBindings.bindings := fun i hmem =>
        hnot i ⟨func, hf, .inl hmem⟩
      have hlocal : ∀ i, (n, i) ∉ func.localBindings.bindings := fun i hmem =>
        hnot _ ⟨func, hf, .inr ⟨fun j _ => hp j, i, hmem, rfl⟩⟩
      have hindex := FuncScope.getLocalIndexByVar_neither (BindingHash.find_eq_neg_one hp)
        (BindingHash.find_eq_neg_one hlocal)
      simp [hindex, Var.isIndex]
  · have hfind : (m.bindingsOf kind).find n = -1 := BindingHash.find_eq_neg_one fun i hmem =>
      hnot i (by cases kind <;> first | exact absurd rfl hl | exact absurd rfl hloc | exact hmem)
    simp [resolved_entity hl hloc, hfind, Var.isIndex]

end ResolveNames

/-- What an index denotes in the place of a variable: itself, or what the name stands for. -/
def Denotes (m : Module) (u : Use) (i : Int) : Prop :=
  match u.var with
  | .index j => i = j
  | .name n => m.Names u.scope u.kind n i

/-- No name is bound twice in a table of the module. -/
structure Module.Distinct (m : Module) : Prop where
  func : m.funcBindings.Distinct
  global : m.globalBindings.Distinct
  export_ : m.exportBindings.Distinct
  funcType : m.funcTypeBindings.Distinct
  table : m.tableBindings.Distinct
  memory : m.memoryBindings.Distinct
  param : ∀ f ∈ m.funcs, f.paramBindings.Distinct
  local_ : ∀ f ∈ m.funcs, f.localBindings.Distinct

/-- `m'` is `m` with an index in the place of every variable, the one it denotes. -/
def ModuleResolved (m m' : Module) : Prop :=
  m.Distinct ∧ ∃ f, m' = m.mapVars f ∧
    ∀ u ∈ m.uses, ∃ i, f u.scope u.kind u.var = .index i ∧ Denotes m u i

open ResolveNames

theorem distinct_of_reported (ht : tablesDistinct m = true)
    (hf : m.funcs.all funcDistinct = true) : m.Distinct := by
  simp only [tablesDistinct, Bool.and_eq_true, Bool.not_eq_true'] at ht
  obtain ⟨⟨⟨⟨⟨hfunc, hglobal⟩, hexport⟩, htype⟩, htable⟩, hmemory⟩ := ht
  have hfuncs : ∀ f ∈ m.funcs, f.paramBindings.reportsDuplicate = false ∧
      f.localBindings.reportsDuplicate = false := by
    intro f hmem
    simpa [funcDistinct] using List.all_eq_true.mp hf f hmem
  exact
    { func := BindingHash.reportsDuplicate_eq_false.mp hfunc
      global := BindingHash.reportsDuplicate_eq_false.mp hglobal
      export_ := BindingHash.reportsDuplicate_eq_false.mp hexport
      funcType := BindingHash.reportsDuplicate_eq_false.mp htype
      table := BindingHash.reportsDuplicate_eq_false.mp htable
      memory := BindingHash.reportsDuplicate_eq_false.mp hmemory
      param := fun f hmem => BindingHash.reportsDuplicate_eq_false.mp (hfuncs f hmem).1
      local_ := fun f hmem => BindingHash.reportsDuplicate_eq_false.mp (hfuncs f hmem).2 }

theorem moduleResolved_of_ok (ht : tablesDistinct m = true)
    (hf : m.funcs.all funcDistinct = true) (ha : allResolved m m.uses = true) :
    ModuleResolved m (m.mapVars (resolved m)) := by
  have hdistinct := distinct_of_reported ht hf
  refine ⟨hdistinct, resolved m, rfl, fun u hu => ?_⟩
  have hindex : (resolved m u.scope u.kind u.var).isIndex = true := List.all_eq_true.mp ha u hu
  cases hr : resolved m u.scope u.kind u.var with
  | name n => simp [hr, Var.isIndex] at hindex
  | index i =>
    refine ⟨i, rfl, ?_⟩
    cases hvar : u.var with
    | index j =>
      rw [hvar] at hr
      simp only [Denotes, hvar]
      exact (Var.index.inj hr).symm
    | name n =>
      rw [hvar] at hr
      simp only [Denotes, hvar]
      refine names_of_resolved (fun func hfunc => ?_) hr
      obtain ⟨f, hmem, rfl⟩ := func_of_mem_uses hu hfunc
      exact hdistinct.param f hmem

/-- `c'` is `c` with the module in it resolved, if the pass goes through it. -/
def CommandResolved (c c' : Command) : Prop :=
  match visitedModule c with
  | none => c' = c
  | some m => ∃ m', c' = withModule m' c ∧ ModuleResolved m m'

theorem commandResolved_of_ok {c : Command} (hok : commandOk c = true) :
    CommandResolved c (resolvedCommand c) := by
  rw [CommandResolved, resolvedCommand]
  cases hm : visitedModule c with
  | none => rfl
  | some m =>
    rw [commandOk, hm] at hok
    simp only [Option.all_some, Bool.and_eq_true] at hok
    exact ⟨_, rfl, moduleResolved_of_ok hok.1.1 hok.1.2 hok.2⟩

/-- A script that no error is reported about holds indices only in the modules the pass goes
through, each of them what its variable denoted, and a name that stands for nothing is
reported. -/
theorem resolveNamesScript_resolved (script : Script) :
    (∀ script', resolveNamesScript script = some (script', true) →
      List.Forall₂ CommandResolved script script') ∧
    ((∀ c ∈ script, ∀ m, visitedModule c = some m → ∀ u ∈ m.uses, ∀ n, u.kind = .local_ →
        u.var = .name n → u.scope.func ≠ none) →
      (∃ c ∈ script, ∃ m, visitedModule c = some m ∧ ∃ u ∈ m.uses, ∃ n, u.var = .name n ∧
        ∀ i, ¬ m.Names u.scope u.kind n i) →
      ∃ script', resolveNamesScript script = some (script', false)) := by
  rw [resolveNamesScript_eq]
  constructor
  · intro script' hrun
    split at hrun
    · cases hrun
    obtain ⟨rfl, hok⟩ := Prod.mk.inj (Option.some.inj hrun)
    rw [List.forall₂_map_right_iff, List.forall₂_same]
    exact fun c hc => commandResolved_of_ok (List.all_eq_true.mp hok c hc)
  · intro hlocal ⟨c, hc, m, hm, u, hu, n, hvar, hnot⟩
    have hdangling : script.any commandDangling = false := by
      rw [List.any_eq_false]
      intro c hc hd
      obtain ⟨m, hm, hd⟩ := (Option.any_eq_true _ _).mp hd
      obtain ⟨u, hu, hd⟩ := List.any_eq_true.mp hd
      simp only [dangling, Bool.and_eq_true, beq_iff_eq, Bool.not_eq_true',
        Option.isNone_iff_eq_none] at hd
      cases hvar : u.var with
      | index i => simp [hvar, Var.isIndex] at hd
      | name n => exact hlocal c hc m hm u hu n hd.1.1 hvar hd.2
    have hbad : script.all commandOk = false := by
      rw [List.all_eq_false]
      refine ⟨c, hc, ?_⟩
      have hleft := resolved_of_unbound hnot
      have huses : allResolved m m.uses = false :=
        List.all_eq_false.mpr ⟨u, hu, by simp [hvar, hleft]⟩
      simp [commandOk, hm, huses]
    exact ⟨script.map resolvedCommand, by simp [hdangling, hbad]⟩

/-- A function that calls the function `name`. -/
def callingModule (name : Name) : Module where
  funcs := [{ name := some (cstr "$f"), firstExpr := .expr (.call (.name name)) .nil }]
  funcBindings := ({} : BindingHash).insert (cstr "$f") 0

theorem callingModule_unbound (scope : Scope) (i : Int) :
    ¬ (callingModule (cstr "$g")).Names scope .func (cstr "$g") i := by
  intro hi
  have hmem : (cstr "$g", i) ∈ (({} : BindingHash).insert (cstr "$f") 0).bindings := hi
  have hne : cstr "$g" ≠ cstr "$f" := by decide
  simp [hne] at hmem

theorem resolveNamesScript_resolved_calling :
    (∃ script', resolveNamesScript [.module (callingModule (cstr "$f"))] = some (script', true) ∧
      List.Forall₂ CommandResolved [.module (callingModule (cstr "$f"))] script') ∧
    ∃ script', resolveNamesScript [.module (callingModule (cstr "$g"))] = some (script', false) := by
  constructor
  · have hrun : (resolveNamesScript [.module (callingModule (cstr "$f"))]).map Prod.snd =
        some true := by decide +kernel
    obtain ⟨⟨script', ok⟩, hrun, rfl⟩ := Option.map_eq_some_iff.mp hrun
    exact ⟨script', hrun, (resolveNamesScript_resolved _).1 script' hrun⟩
  · have huses : (callingModule (cstr "$g")).uses =
        [⟨{ func := some (callingModule (cstr "$g")).funcs.head!.scope }, .func,
          .name (cstr "$g")⟩] := rfl
    refine (resolveNamesScript_resolved _).2 ?_ ⟨_, List.mem_singleton_self _, _, rfl, _,
      huses ▸ List.mem_singleton_self _, _, rfl, callingModule_unbound _⟩
    intro c hc m hm u hu n hkind
    obtain rfl := List.mem_singleton.mp hc
    obtain rfl := Option.some.inj hm
    rw [huses, List.mem_singleton] at hu
    simp [hu] at hkind

def twoStarts : Module :=
  { callingModule (cstr "$f") with starts := [.name (cstr "$f"), .index 0] }

/-- The module of an assertion that it is invalid is not gone through, and of two start fields
only the last is resolved. -/
theorem resolveNamesScript_leavesNames :
    (∃ m u, resolveNamesScript [.assertInvalid (.text m)] =
        some ([.assertInvalid (.text m)], true) ∧ u ∈ m.uses ∧ u.var = .name (cstr "$g") ∧
        ∀ i, ¬ m.Names u.scope u.kind (cstr "$g") i) ∧
    ∃ m', resolveNamesScript [.module twoStarts] = some ([.module m'], true) ∧
      m'.starts = [.name (cstr "$f"), .index 0] := by
  constructor
  · exact ⟨callingModule (cstr "$g"), ⟨{ func := some (callingModule (cstr "$g")).funcs.head!.scope },
      .func, .name (cstr "$g")⟩, rfl, List.mem_singleton_self _, rfl, callingModule_unbound _⟩
  · refine ⟨twoStarts.mapVars (resolved twoStarts), ?_, by decide +kernel⟩
    have hdangling : [Command.module twoStarts].any commandDangling = false := by decide +kernel
    have hok : [Command.module twoStarts].all commandOk = true := by decide +kernel
    rw [resolveNamesScript_eq, hdangling, hok]
    rfl

end Text

end SexprWasm
