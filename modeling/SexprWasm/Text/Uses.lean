import SexprWasm.Text.Syntax

/-!
# The variables of a module

Every place a variable stands at, in the order a pass comes to it, with
the scope it is read in: the labels of the blocks around it, innermost
first, and the tables of the function it is in. `mapVars` rewrites the
variables and leaves everything else; `uses_mapVars` says that it does
so place by place.
-/

namespace SexprWasm

namespace Text

/-- What a variable refers to. -/
inductive VarKind
  | label | local_ | func | global | funcType | table | memory
  deriving DecidableEq, Repr

/-- What a variable is read in. -/
structure Scope where
  func : Option FuncScope := none
  labels : List StringSlice := []

def Scope.push (s : Scope) (label : StringSlice) : Scope := { s with labels := label :: s.labels }

structure Use where
  scope : Scope
  kind : VarKind
  var : Var

namespace Expr

/-- The variables of an expression without a body. -/
def vars : Expr → List (VarKind × Var)
  | br var => [(.label, var)]
  | brIf var => [(.label, var)]
  | brTable targets defaultTarget => targets.map (.label, ·) ++ [(.label, defaultTarget)]
  | call var => [(.func, var)]
  | callIndirect var => [(.funcType, var)]
  | getLocal var => [(.local_, var)]
  | setLocal var => [(.local_, var)]
  | teeLocal var => [(.local_, var)]
  | getGlobal var => [(.global, var)]
  | setGlobal var => [(.global, var)]
  | _ => []

variable (f : VarKind → Var → Var)

def mapVars : Expr → Expr
  | br var => .br (f .label var)
  | brIf var => .brIf (f .label var)
  | brTable targets defaultTarget => .brTable (targets.map (f .label)) (f .label defaultTarget)
  | call var => .call (f .func var)
  | callIndirect var => .callIndirect (f .funcType var)
  | getLocal var => .getLocal (f .local_ var)
  | setLocal var => .setLocal (f .local_ var)
  | teeLocal var => .teeLocal (f .local_ var)
  | getGlobal var => .getGlobal (f .global var)
  | setGlobal var => .setGlobal (f .global var)
  | e => e

theorem vars_mapVars (e : Expr) :
    (e.mapVars f).vars = e.vars.map fun (kind, var) => (kind, f kind var) := by
  cases e <;> simp [mapVars, vars, Function.comp_def]

theorem mapVars_eq_self {e : Expr} : e.mapVars f = e ↔ ∀ v ∈ e.vars, f v.1 v.2 = v.2 := by
  have hlist : ∀ vs : List Var, vs.map (f .label) = vs ↔ ∀ v ∈ vs, f .label v = v := by
    intro vs
    conv_lhs => rw [← List.map_id vs, List.map_map]
    exact List.map_inj_left
  cases e <;> simp [mapVars, vars, hlist, or_imp, forall_and]

end Expr

namespace ExprList

/-- The variables of an expression list, read in the scope `s`. -/
def uses (s : Scope) : ExprList → List Use
  | nil => []
  | expr e next => e.vars.map (fun (kind, var) => ⟨s, kind, var⟩) ++ uses s next
  | block label _ first next => uses (s.push label) first ++ uses s next
  | loop label _ first next => uses (s.push label) first ++ uses s next
  | if_ label _ true_ false_ next =>
    uses (s.push label) true_ ++ uses (s.push label) false_ ++ uses s next

variable (f : Scope → VarKind → Var → Var)

def mapVars (s : Scope) : ExprList → ExprList
  | nil => nil
  | expr e next => expr (e.mapVars (f s)) (mapVars s next)
  | block label sig first next => block label sig (mapVars (s.push label) first) (mapVars s next)
  | loop label sig first next => loop label sig (mapVars (s.push label) first) (mapVars s next)
  | if_ label sig true_ false_ next =>
    if_ label sig (mapVars (s.push label) true_) (mapVars (s.push label) false_) (mapVars s next)

theorem uses_mapVars (s : Scope) (e : ExprList) :
    (e.mapVars f s).uses s = (e.uses s).map fun u => { u with var := f u.scope u.kind u.var } := by
  induction e generalizing s with
  | nil => rfl
  | expr e next ih => simp [mapVars, uses, ih, Expr.vars_mapVars, Function.comp_def]
  | block label sig first next ihf ihn => simp [mapVars, uses, ihf, ihn]
  | loop label sig first next ihf ihn => simp [mapVars, uses, ihf, ihn]
  | if_ label sig true_ false_ next iht ihf ihn => simp [mapVars, uses, iht, ihf, ihn]

theorem mapVars_eq_self {s : Scope} {e : ExprList} :
    e.mapVars f s = e ↔ ∀ u ∈ e.uses s, f u.scope u.kind u.var = u.var := by
  induction e generalizing s with
  | nil => simp [mapVars, uses]
  | expr e next ih =>
    simp only [mapVars, uses, expr.injEq, ih, Expr.mapVars_eq_self, List.forall_mem_append,
      List.forall_mem_map]
  | block label sig first next ihf ihn => simp [mapVars, uses, ihf, ihn, or_imp, forall_and]
  | loop label sig first next ihf ihn => simp [mapVars, uses, ihf, ihn, or_imp, forall_and]
  | if_ label sig true_ false_ next iht ihf ihn =>
    simp [mapVars, uses, iht, ihf, ihn, or_imp, forall_and, and_assoc]

end ExprList

/-! ## Modules -/

def Func.uses (f : Func) : List Use :=
  f.decl.typeVar.toList.map (⟨{ func := some f.scope }, .funcType, ·⟩) ++
    f.firstExpr.uses { func := some f.scope }

/-- The namespace of what is exported. -/
def exportKind : ExternalKind → VarKind
  | .func => .func
  | .table => .table
  | .memory => .memory
  | .global => .global

def Export.use (e : Export) : Use := ⟨{}, exportKind e.kind, e.var⟩

def Global.uses (g : Global) : List Use := g.initExpr.uses {}

def ElemSegment.uses (segment : ElemSegment) : List Use :=
  ⟨{}, .table, segment.tableVar⟩ :: segment.offset.uses {} ++ segment.vars.map (⟨{}, .func, ·⟩)

def DataSegment.uses (segment : DataSegment) : List Use :=
  ⟨{}, .memory, segment.memoryVar⟩ :: segment.offset.uses {}

/-- The variables of a module, but for the start fields before the last. -/
def Module.uses (m : Module) : List Use :=
  m.funcs.flatMap (·.uses) ++ m.exports.map (·.use) ++ m.globals.flatMap (·.uses) ++
    m.elemSegments.flatMap (·.uses) ++ m.dataSegments.flatMap (·.uses) ++
    m.starts.getLast?.toList.map (⟨{}, .func, ·⟩)

section mapVars

variable (f : Scope → VarKind → Var → Var)

def Func.mapVars (func : Func) : Func :=
  { func with
    decl := { func.decl with
      typeVar := func.decl.typeVar.map (f { func := some func.scope } .funcType) }
    firstExpr := func.firstExpr.mapVars f { func := some func.scope } }

def Export.mapVars (e : Export) : Export := { e with var := f {} (exportKind e.kind) e.var }

def Global.mapVars (g : Global) : Global := { g with initExpr := g.initExpr.mapVars f {} }

def ElemSegment.mapVars (segment : ElemSegment) : ElemSegment where
  tableVar := f {} .table segment.tableVar
  offset := segment.offset.mapVars f {}
  vars := segment.vars.map (f {} .func)

def DataSegment.mapVars (segment : DataSegment) : DataSegment :=
  { segment with
    memoryVar := f {} .memory segment.memoryVar
    offset := segment.offset.mapVars f {} }

/-- The last of the start fields is `module->start`. -/
def mapStart (starts : List Var) : List Var :=
  starts.dropLast ++ starts.getLast?.toList.map (f {} .func)

def Module.mapVars (m : Module) : Module :=
  { m with
    funcs := m.funcs.map (·.mapVars f)
    exports := m.exports.map (·.mapVars f)
    globals := m.globals.map (·.mapVars f)
    elemSegments := m.elemSegments.map (·.mapVars f)
    dataSegments := m.dataSegments.map (·.mapVars f)
    starts := mapStart f m.starts }

/-- What `mapVars` makes of a use. -/
def Use.map (u : Use) : Use := { u with var := f u.scope u.kind u.var }

@[simp] theorem Func.scope_mapVars (func : Func) : (func.mapVars f).scope = func.scope := rfl

theorem Func.uses_mapVars (func : Func) : (func.mapVars f).uses = func.uses.map (·.map f) := by
  have hexpr := ExprList.uses_mapVars f { func := some func.scope } func.firstExpr
  have htype : (func.mapVars f).decl.typeVar =
      func.decl.typeVar.map (f { func := some func.scope } .funcType) := rfl
  rw [Func.uses, Func.uses, List.map_append, scope_mapVars, htype]
  congr 1
  cases func.decl.typeVar <;> rfl

theorem ElemSegment.uses_mapVars (segment : ElemSegment) :
    (segment.mapVars f).uses = segment.uses.map (·.map f) := by
  have hexpr := ExprList.uses_mapVars f {} segment.offset
  simp [ElemSegment.uses, ElemSegment.mapVars, hexpr, Use.map, Function.comp_def]

theorem DataSegment.uses_mapVars (segment : DataSegment) :
    (segment.mapVars f).uses = segment.uses.map (·.map f) := by
  have hexpr := ExprList.uses_mapVars f {} segment.offset
  simp [DataSegment.uses, DataSegment.mapVars, hexpr, Use.map]

theorem getLast?_mapStart (starts : List Var) :
    (mapStart f starts).getLast? = starts.getLast?.map (f {} .func) := by
  rcases List.eq_nil_or_concat starts with rfl | ⟨init, last, rfl⟩
  · rfl
  · simp [mapStart]

theorem Module.uses_mapVars (m : Module) : (m.mapVars f).uses = m.uses.map (·.map f) := by
  have hglobal : ∀ g : Global, (g.mapVars f).uses = g.uses.map (·.map f) :=
    fun g => ExprList.uses_mapVars f {} g.initExpr
  have hstart : (m.mapVars f).starts.getLast?.toList.map (fun var => (⟨{}, .func, var⟩ : Use)) =
      (m.starts.getLast?.toList.map fun var => (⟨{}, .func, var⟩ : Use)).map (·.map f) := by
    have hlast := getLast?_mapStart f m.starts
    rw [Module.mapVars, hlast]
    cases m.starts.getLast? <;> rfl
  rw [Module.uses, hstart]
  simp only [Module.uses, Module.mapVars, List.map_append, List.flatMap_map, List.map_flatMap,
    Func.uses_mapVars, hglobal, ElemSegment.uses_mapVars, DataSegment.uses_mapVars, List.map_map]
  rfl

end mapVars

/-- The table of the namespace of a module-level entity. -/
def Module.bindingsOf (m : Module) : VarKind → BindingHash
  | .global => m.globalBindings
  | .funcType => m.funcTypeBindings
  | .table => m.tableBindings
  | .memory => m.memoryBindings
  | _ => m.funcBindings

/-- The entity that `n` names where it stands: the innermost block with that label, the
parameter or else the local, or the entity of that kind. -/
def Module.Names (m : Module) (s : Scope) (kind : VarKind) (n : Name) (i : Int) : Prop :=
  match kind with
  | .label => ∃ k : Nat, i = k ∧ s.labels[k]? = some (some n) ∧ ∀ j < k, s.labels[j]? ≠ some (some n)
  | .local_ => ∃ f, s.func = some f ∧
      ((n, i) ∈ f.paramBindings.bindings ∨
        (∀ j, 0 ≤ j → (n, j) ∉ f.paramBindings.bindings) ∧
          ∃ j, (n, j) ∈ f.localBindings.bindings ∧ i = cInt (f.numParams + j))
  | kind => (n, i) ∈ (m.bindingsOf kind).bindings

end Text

end SexprWasm
