import SexprWasm.Text.ExprActions
import Mathlib.Data.List.Nodup
import Mathlib.Order.CompletePartialOrder
import Mathlib.Order.Interval.Set.Disjoint

/-!
# Folded and flat expressions

The actions of the grammar link the expressions that a syntax tree stands
for (`tree`): a list owns its expressions (`Owns`), every one that was
allocated for it once (`Builds`), so that two lists can be linked without
either of them losing an expression. The flat form of a tree
(`InstrList.flat`) has no folded expression and stands for the same.
-/

namespace SexprWasm

namespace Text

namespace ExprList

variable (l l' l'' : ExprList)

@[simp] theorem nil_append : nil ++ l = l := rfl

@[simp] theorem expr_append (e : Expr) : expr e l ++ l' = expr e (l ++ l') := rfl

@[simp] theorem block_append (label : StringSlice) (sig : List ValueType) (first : ExprList) :
    block label sig first l ++ l' = block label sig first (l ++ l') := rfl

@[simp] theorem loop_append (label : StringSlice) (sig : List ValueType) (first : ExprList) :
    loop label sig first l ++ l' = loop label sig first (l ++ l') := rfl

@[simp] theorem if_append (label : StringSlice) (sig : List ValueType) (t f : ExprList) :
    if_ label sig t f l ++ l' = if_ label sig t f (l ++ l') := rfl

@[simp] theorem append_nil : l ++ nil = l := by
  induction l with
  | nil => rfl
  | expr e next ih => rw [expr_append, ih]
  | block label sig first next _ ih => rw [block_append, ih]
  | loop label sig first next _ ih => rw [loop_append, ih]
  | if_ label sig t f next _ _ ih => rw [if_append, ih]

theorem append_assoc : l ++ l' ++ l'' = l ++ (l' ++ l'') := by
  induction l with
  | nil => rfl
  | expr e next ih => simp only [expr_append, ih]
  | block label sig first next _ ih => simp only [block_append, ih]
  | loop label sig first next _ ih => simp only [loop_append, ih]
  | if_ label sig t f next _ _ ih => simp only [if_append, ih]

/-- The number of expressions of a list, those in blocks apart. -/
def size : ExprList → Nat
  | nil => 0
  | expr _ next | block _ _ _ next | loop _ _ _ next | if_ _ _ _ _ next => next.size + 1

theorem size_append : (l ++ l').size = l.size + l'.size := by
  induction l with
  | nil => simp [size]
  | expr e next ih => simp only [expr_append, size, ih]; omega
  | block label sig first next _ ih => simp only [block_append, size, ih]; omega
  | loop label sig first next _ ih => simp only [loop_append, size, ih]; omega
  | if_ label sig t f next _ _ ih => simp only [if_append, size, ih]; omega

end ExprList

namespace ExprActions

open Callback

/-! ## What a syntax tree stands for -/

mutual

def Instr.tree : Instr → ExprList
  | .plain e => .expr e .nil
  | .block label sig body _ => .block label sig body.tree .nil
  | .loop label sig body _ => .loop label sig body.tree .nil
  | .if_ label sig true_ _ => .if_ label sig true_.tree .nil .nil
  | .ifElse label sig true_ _ false_ _ => .if_ label sig true_.tree false_.tree .nil
  | .expr e => e.tree

def InstrList.tree : InstrList → ExprList
  | .nil => .nil
  | .cons i rest => i.tree ++ rest.tree

def Expr1.tree : Expr1 → ExprList
  | .plain e operands => operands.tree ++ .expr e .nil
  | .block label sig body => .block label sig body.tree .nil
  | .loop label sig body => .loop label sig body.tree .nil
  | .if_ label sig arms => arms.tree label sig

/-- The condition, and behind it the `if`. -/
def IfArms.tree (label : StringSlice) (sig : List ValueType) : IfArms → ExprList
  | .thenElse true_ false_ => .if_ label sig true_.tree false_.tree .nil
  | .then_ true_ => .if_ label sig true_.tree .nil .nil
  | .condThenElse cond true_ false_ => cond.tree ++ .if_ label sig true_.tree false_.tree .nil
  | .condThen cond true_ => cond.tree ++ .if_ label sig true_.tree .nil .nil
  | .exprElse cond true_ false_ => cond.tree ++ .if_ label sig true_.tree false_.tree .nil
  | .expr cond true_ => cond.tree ++ .if_ label sig true_.tree .nil .nil

def Operands.tree : Operands → ExprList
  | .nil => .nil
  | .cons e rest => e.tree ++ rest.tree

end

/-- The errors that `CHECK_END_LABEL` reports for two labels. -/
def labelErrors (beginLabel endLabel : StringSlice) : Nat :=
  if badEndLabel beginLabel endLabel then 1 else 0

mutual

/-- The errors that are reported for a tree. -/
def Instr.errors : Instr → Nat
  | .plain _ => 0
  | .block label _ body endLabel | .loop label _ body endLabel | .if_ label _ body endLabel =>
    body.errors + labelErrors label endLabel
  | .ifElse label _ true_ elseLabel false_ endLabel =>
    true_.errors + false_.errors + labelErrors label elseLabel + labelErrors label endLabel
  | .expr e => e.errors

def InstrList.errors : InstrList → Nat
  | .nil => 0
  | .cons i rest => i.errors + rest.errors

def Expr1.errors : Expr1 → Nat
  | .plain _ operands => operands.errors
  | .block _ _ body | .loop _ _ body => body.errors
  | .if_ _ _ arms => arms.errors

def IfArms.errors : IfArms → Nat
  | .thenElse true_ false_ => true_.errors + false_.errors
  | .then_ true_ => true_.errors
  | .condThenElse cond true_ false_ => cond.errors + (true_.errors + false_.errors)
  | .condThen cond true_ => cond.errors + true_.errors
  | .exprElse cond true_ false_ => cond.errors + (true_.errors + false_.errors)
  | .expr cond true_ => cond.errors + true_.errors

def Operands.errors : Operands → Nat
  | .nil => 0
  | .cons e rest => e.errors + rest.errors

end

def InstrList.append : InstrList → InstrList → InstrList
  | .nil, l => l
  | .cons i rest, l => .cons i (append rest l)

instance : Append InstrList := ⟨InstrList.append⟩

def InstrList.single (i : Instr) : InstrList := .cons i .nil

mutual

/-- The flat form: operands from left to right, each in its flat form, and then the instruction. -/
def Instr.flat : Instr → InstrList
  | .plain e => .single (.plain e)
  | .block label sig body endLabel => .single (.block label sig body.flat endLabel)
  | .loop label sig body endLabel => .single (.loop label sig body.flat endLabel)
  | .if_ label sig true_ endLabel => .single (.if_ label sig true_.flat endLabel)
  | .ifElse label sig true_ elseLabel false_ endLabel =>
    .single (.ifElse label sig true_.flat elseLabel false_.flat endLabel)
  | .expr e => e.flat

def InstrList.flat : InstrList → InstrList
  | .nil => .nil
  | .cons i rest => i.flat ++ rest.flat

def Expr1.flat : Expr1 → InstrList
  | .plain e operands => operands.flat ++ .single (.plain e)
  | .block label sig body => .single (.block label sig body.flat none)
  | .loop label sig body => .single (.loop label sig body.flat none)
  | .if_ label sig arms => arms.flat label sig

def IfArms.flat (label : StringSlice) (sig : List ValueType) : IfArms → InstrList
  | .thenElse true_ false_ => .single (.ifElse label sig true_.flat none false_.flat none)
  | .then_ true_ => .single (.if_ label sig true_.flat none)
  | .condThenElse cond true_ false_ =>
    cond.flat ++ .single (.ifElse label sig true_.flat none false_.flat none)
  | .condThen cond true_ => cond.flat ++ .single (.if_ label sig true_.flat none)
  | .exprElse cond true_ false_ =>
    cond.flat ++ .single (.ifElse label sig true_.flat none false_.flat none)
  | .expr cond true_ => cond.flat ++ .single (.if_ label sig true_.flat none)

def Operands.flat : Operands → InstrList
  | .nil => .nil
  | .cons e rest => e.flat ++ rest.flat

end

mutual

/-- No expression is folded. -/
def Instr.isFlat : Instr → Bool
  | .plain _ => true
  | .block _ _ body _ | .loop _ _ body _ | .if_ _ _ body _ => body.isFlat
  | .ifElse _ _ true_ _ false_ _ => true_.isFlat && false_.isFlat
  | .expr _ => false

def InstrList.isFlat : InstrList → Bool
  | .nil => true
  | .cons i rest => i.isFlat && rest.isFlat

end

/-! ## Lists in memory -/

/-- From `first` to `last` the heap links the expressions of a list, which are at `cells`. -/
inductive Linked (h : Heap) : ExprList → Option Nat → Option Nat → List Nat → Prop
  | nil : Linked h .nil none none []
  | expr {e : Expr} {rest : ExprList} {p : Nat} {next last : Option Nat} {cells : List Nat}
      (hp : h.exprs[p]? = some ⟨.expr e, next⟩) (hrest : Linked h rest next last cells) :
      Linked h (.expr e rest) (some p) (some (last.getD p)) (p :: cells)
  | block {label : StringSlice} {sig : List ValueType} {body rest : ExprList} {p : Nat}
      {first end_ next last : Option Nat} {inner cells : List Nat}
      (hp : h.exprs[p]? = some ⟨.block label sig first, next⟩)
      (hbody : Linked h body first end_ inner) (hrest : Linked h rest next last cells) :
      Linked h (.block label sig body rest) (some p) (some (last.getD p)) (p :: (inner ++ cells))
  | loop {label : StringSlice} {sig : List ValueType} {body rest : ExprList} {p : Nat}
      {first end_ next last : Option Nat} {inner cells : List Nat}
      (hp : h.exprs[p]? = some ⟨.loop label sig first, next⟩)
      (hbody : Linked h body first end_ inner) (hrest : Linked h rest next last cells) :
      Linked h (.loop label sig body rest) (some p) (some (last.getD p)) (p :: (inner ++ cells))
  | if_ {label : StringSlice} {sig : List ValueType} {t f rest : ExprList} {p : Nat}
      {true_ false_ end_ end' next last : Option Nat} {inner inner' cells : List Nat}
      (hp : h.exprs[p]? = some ⟨.if_ label sig true_ false_, next⟩)
      (htrue : Linked h t true_ end_ inner) (hfalse : Linked h f false_ end' inner')
      (hrest : Linked h rest next last cells) :
      Linked h (.if_ label sig t f rest) (some p) (some (last.getD p))
        (p :: (inner ++ inner' ++ cells))

namespace Heap

variable (h : Heap) (p q : Nat)

@[simp] theorem length_setNext (next : Option Nat) :
    (h.setNext p next).exprs.length = h.exprs.length := List.length_modify ..

@[simp] theorem length_setFields (fields : ExprFields) :
    (h.setFields p fields).exprs.length = h.exprs.length := List.length_modify ..

theorem getElem?_setNext_ne (next : Option Nat) {q : Nat} (hne : q ≠ p) :
    (h.setNext p next).exprs[q]? = h.exprs[q]? := by
  simp [setNext, hne.symm]

theorem getElem?_setNext {fields : ExprFields} {next' : Option Nat} (next : Option Nat)
    (hp : h.exprs[p]? = some ⟨fields, next'⟩) :
    (h.setNext p next).exprs[p]? = some ⟨fields, next⟩ := by
  rw [setNext, List.getElem?_modify_eq, hp]
  rfl

theorem getElem?_setFields_ne (fields : ExprFields) {q : Nat} (hne : q ≠ p) :
    (h.setFields p fields).exprs[q]? = h.exprs[q]? := by
  simp [setFields, hne.symm]

theorem getElem?_setFields {fields' : ExprFields} {next : Option Nat} (fields : ExprFields)
    (hp : h.exprs[p]? = some ⟨fields', next⟩) :
    (h.setFields p fields).exprs[p]? = some ⟨fields, next⟩ := by
  rw [setFields, List.getElem?_modify_eq, hp]
  rfl

end Heap

namespace Linked

variable {h h' : Heap} {e e' : ExprList} {first first' last last' : Option Nat}
  {cells cells' : List Nat}

/-- A list stays where its cells are not changed. -/
theorem frame (hl : Linked h e first last cells)
    (hsame : ∀ p ∈ cells, h'.exprs[p]? = h.exprs[p]?) : Linked h' e first last cells := by
  induction hl with
  | nil => exact nil
  | expr hp _ ih =>
    rw [List.forall_mem_cons] at hsame
    exact expr (hsame.1.trans hp) (ih hsame.2)
  | block hp _ _ ihbody ih =>
    rw [List.forall_mem_cons, List.forall_mem_append] at hsame
    exact block (hsame.1.trans hp) (ihbody hsame.2.1) (ih hsame.2.2)
  | loop hp _ _ ihbody ih =>
    rw [List.forall_mem_cons, List.forall_mem_append] at hsame
    exact loop (hsame.1.trans hp) (ihbody hsame.2.1) (ih hsame.2.2)
  | if_ hp _ _ _ ihtrue ihfalse ih =>
    rw [List.forall_mem_cons, List.forall_mem_append, List.forall_mem_append] at hsame
    exact if_ (hsame.1.trans hp) (ihtrue hsame.2.1.1) (ihfalse hsame.2.1.2) (ih hsame.2.2)

theorem setNext (hl : Linked h e first last cells) {p : Nat} (hp : p ∉ cells)
    (next : Option Nat) : Linked (h.setNext p next) e first last cells :=
  hl.frame fun _ hq => h.getElem?_setNext_ne p next fun heq => hp (heq ▸ hq)

theorem setFields (hl : Linked h e first last cells) {p : Nat} (hp : p ∉ cells)
    (fields : ExprFields) : Linked (h.setFields p fields) e first last cells :=
  hl.frame fun _ hq => h.getElem?_setFields_ne p fields fun heq => hp (heq ▸ hq)

/-- A list has a last expression, which is one of its cells, or it is empty. -/
theorem last_mem (hl : Linked h e first last cells) :
    last = none ∧ first = none ∧ e = .nil ∧ cells = [] ∨ ∃ p ∈ cells, last = some p := by
  have hcons : ∀ {p : Nat} {last : Option Nat} {inner cells : List Nat},
      (last = none ∨ ∃ q ∈ cells, last = some q) →
        ∃ q ∈ p :: (inner ++ cells), some (last.getD p) = some q := by
    rintro p last inner cells (rfl | ⟨q, hq, rfl⟩)
    · exact ⟨p, by simp, rfl⟩
    · exact ⟨q, by simp [hq], rfl⟩
  induction hl with
  | nil => exact .inl ⟨rfl, rfl, rfl, rfl⟩
  | expr _ _ ih => exact .inr (@hcons _ _ [] _ (ih.imp_left And.left))
  | block _ _ _ _ ih | loop _ _ _ _ ih | if_ _ _ _ _ _ _ ih =>
    exact .inr (hcons (ih.imp_left And.left))

theorem last_of_nil (hl : Linked h .nil first last cells) : last = none := by
  cases hl
  rfl

theorem first_of_last (hl : Linked h e first last cells) {q : Nat} (hlast : last = some q) :
    ∃ p, first = some p := by
  cases hl with
  | nil => cases hlast
  | _ => exact ⟨_, rfl⟩

/-- One expression of a list that is linked to another one, and what is behind it. -/
theorem link_rest (inner : List Nat) {rest : ExprList} {p q : Nat} {fields : ExprFields}
    {next : Option Nat} (hp : h.exprs[p]? = some ⟨fields, next⟩)
    (hrest : Linked h rest next last cells) (hl' : Linked h e' first' last' cells')
    (hnodup : (p :: (inner ++ (cells ++ cells'))).Nodup) (hq : q = last.getD p)
    (ih : ∀ q, last = some q → Linked (h.setNext q first') (rest ++ e') next
      (some (last'.getD q)) (cells ++ cells')) :
    ∃ next' last'', (h.setNext q first').exprs[p]? = some ⟨fields, next'⟩ ∧
      Linked (h.setNext q first') (rest ++ e') next' last'' (cells ++ cells') ∧
        last'.getD q = last''.getD p ∧ q ∉ inner := by
  rw [List.nodup_cons, List.nodup_append] at hnodup
  obtain ⟨hpnot, _, _, hdisjoint⟩ := hnodup
  rcases hrest.last_mem with ⟨rfl, rfl, rfl, rfl⟩ | ⟨q', hmem, rfl⟩
  · obtain rfl : q = p := hq
    refine ⟨first', last', h.getElem?_setNext q first' hp, ?_, rfl, ?_⟩
    · exact hl'.setNext (fun hmem => hpnot (by simp [hmem])) first'
    · exact fun hmem => hpnot (by simp [hmem])
  · obtain rfl : q = q' := hq
    refine ⟨next, some (last'.getD q), ?_, ih q rfl, rfl, ?_⟩
    · rw [h.getElem?_setNext_ne q first' (fun heq => hpnot (by simp [heq, hmem])), hp]
    · exact fun hinner => hdisjoint q hinner q (by simp [hmem]) rfl

/-- The last expression of a list is linked to another list. -/
theorem link (hl : Linked h e first last cells) (hl' : Linked h e' first' last' cells') {q : Nat}
    (hlast : last = some q) (hnodup : (cells ++ cells').Nodup) :
    Linked (h.setNext q first') (e ++ e') first (some (last'.getD q)) (cells ++ cells') := by
  induction hl generalizing q with
  | nil => cases hlast
  | expr hp hrest ih =>
    obtain ⟨next', last'', hp', hrest', hlast', _⟩ := link_rest [] hp hrest hl' hnodup
      (Option.some.inj hlast).symm fun q hq => ih hq (List.nodup_cons.mp hnodup).2
    rw [hlast']
    exact expr hp' hrest'
  | @block label sig body rest p₀ b end_ next last inner cells hp hbody hrest _ ih =>
    rw [List.cons_append, List.append_assoc] at hnodup ⊢
    have htail := (List.nodup_append.mp (List.nodup_cons.mp hnodup).2).2.1
    obtain ⟨next', last'', hp', hrest', hlast', hinner⟩ := link_rest inner hp hrest hl' hnodup
      (Option.some.inj hlast).symm fun q hq => ih hq htail
    rw [hlast']
    exact block hp' (hbody.setNext hinner _) hrest'
  | @loop label sig body rest p₀ b end_ next last inner cells hp hbody hrest _ ih =>
    rw [List.cons_append, List.append_assoc] at hnodup ⊢
    have htail := (List.nodup_append.mp (List.nodup_cons.mp hnodup).2).2.1
    obtain ⟨next', last'', hp', hrest', hlast', hinner⟩ := link_rest inner hp hrest hl' hnodup
      (Option.some.inj hlast).symm fun q hq => ih hq htail
    rw [hlast']
    exact loop hp' (hbody.setNext hinner _) hrest'
  | @if_ label sig t f rest p₀ tb fb end_ end' next last inner inner' cells hp htrue hfalse hrest _ _
      ih =>
    rw [List.cons_append, List.append_assoc] at hnodup ⊢
    have htail := (List.nodup_append.mp (List.nodup_cons.mp hnodup).2).2.1
    obtain ⟨next', last'', hp', hrest', hlast', hinner⟩ := link_rest (inner ++ inner') hp hrest hl'
      hnodup (Option.some.inj hlast).symm fun q hq => ih hq htail
    rw [List.mem_append, not_or] at hinner
    rw [hlast']
    exact if_ hp' (htrue.setNext hinner.1 _) (hfalse.setNext hinner.2 _) hrest'

/-- One expression of a list whose last one is behind it. -/
theorem last_rest (inner : List Nat) {rest : ExprList} {p q : Nat} {fields : ExprFields}
    {next : Option Nat} (hp : h.exprs[p]? = some ⟨fields, next⟩)
    (hrest : Linked h rest next last cells) (hne : rest ≠ .nil) (hq : some (last.getD p) = some q)
    (hnodup : (p :: (inner ++ cells)).Nodup) :
    last = some q ∧ cells.Nodup ∧ q ∉ inner ∧
      ∀ fields', (h.setFields q fields').exprs[p]? = some ⟨fields, next⟩ := by
  rw [List.nodup_cons, List.nodup_append] at hnodup
  obtain ⟨hpnot, _, hcells, hdisjoint⟩ := hnodup
  rcases hrest.last_mem with ⟨_, _, hnil, _⟩ | ⟨q', hmem, rfl⟩
  · exact absurd hnil hne
  · obtain rfl : q' = q := Option.some.inj hq
    refine ⟨rfl, hcells, fun hinner => hdisjoint q' hinner q' hmem rfl, fun fields' => ?_⟩
    rw [h.getElem?_setFields_ne q' fields' (fun heq => hpnot (by simp [heq, hmem])), hp]

theorem append_ne_nil {e : ExprList} (hne : e' ≠ .nil) : e ++ e' ≠ .nil := by
  cases e with
  | nil => exact hne
  | _ => exact nofun

/-- The `if` at the end of a list, before and after it gets its label and signature. -/
theorem setIf {label label' : StringSlice} {sig sig' : List ValueType} {t f : ExprList} {q : Nat}
    (hl : Linked h (e ++ .if_ label sig t f .nil) first last cells) (hlast : last = some q)
    (hnodup : cells.Nodup) :
    ∃ true_ false_, h.exprs[q]? = some ⟨.if_ label sig true_ false_, none⟩ ∧
      Linked (h.setFields q (.if_ label' sig' true_ false_)) (e ++ .if_ label' sig' t f .nil)
        first last cells := by
  have hne : ∀ e : ExprList, e ++ .if_ label sig t f .nil ≠ .nil := fun e => append_ne_nil nofun
  induction e generalizing first last cells with
  | nil =>
    cases hl with
    | if_ hp htrue hfalse hrest =>
      cases hrest
      cases hlast
      rw [List.nodup_cons, List.mem_append, List.mem_append, not_or, not_or] at hnodup
      refine ⟨_, _, hp, ?_⟩
      exact if_ (h.getElem?_setFields _ _ hp) (htrue.setFields hnodup.1.1.1 _)
        (hfalse.setFields hnodup.1.1.2 _) nil
  | expr e rest ih =>
    cases hl with
    | expr hp hrest =>
      obtain ⟨hlast', hcells, _, hsame⟩ := last_rest [] hp hrest (hne rest) hlast hnodup
      obtain ⟨true_, false_, hq, hset⟩ := ih hrest hlast' hcells
      exact ⟨true_, false_, hq, expr (hsame _) hset⟩
  | block label sig body rest _ ih =>
    cases hl with
    | block hp hbody hrest =>
      obtain ⟨hlast', hcells, hinner, hsame⟩ := last_rest _ hp hrest (hne rest) hlast hnodup
      obtain ⟨true_, false_, hq, hset⟩ := ih hrest hlast' hcells
      exact ⟨true_, false_, hq, block (hsame _) (hbody.setFields hinner _) hset⟩
  | loop label sig body rest _ ih =>
    cases hl with
    | loop hp hbody hrest =>
      obtain ⟨hlast', hcells, hinner, hsame⟩ := last_rest _ hp hrest (hne rest) hlast hnodup
      obtain ⟨true_, false_, hq, hset⟩ := ih hrest hlast' hcells
      exact ⟨true_, false_, hq, loop (hsame _) (hbody.setFields hinner _) hset⟩
  | if_ label sig t' f' rest _ _ ih =>
    cases hl with
    | if_ hp htrue hfalse hrest =>
      obtain ⟨hlast', hcells, hinner, hsame⟩ := last_rest _ hp hrest (hne rest) hlast hnodup
      obtain ⟨true_, false_, hq, hset⟩ := ih hrest hlast' hcells
      rw [List.mem_append, not_or] at hinner
      exact ⟨true_, false_, hq, if_ (hsame _) (htrue.setFields hinner.1 _)
        (hfalse.setFields hinner.2 _) hset⟩

end Linked

/-- The list `l` is that of the expressions `e`, each of which is in a cell of its own, and the
cells are those of `S`. -/
def Owns (h : Heap) (S : Set Nat) (l : LinkedExprs) (e : ExprList) : Prop :=
  l.size = e.size ∧ ∃ cells, Linked h e l.first l.last cells ∧ cells.Nodup ∧ ∀ p, p ∈ cells ↔ p ∈ S

/-- `join_exprs1`. -/
def single (p : Nat) : LinkedExprs := { first := some p, last := some p, size := 1 }

namespace Owns

variable {h h' : Heap} {S S' : Set Nat} {l l' : LinkedExprs} {e e' : ExprList}

theorem frame (ho : Owns h S l e) (hsame : ∀ p ∈ S, h'.exprs[p]? = h.exprs[p]?) :
    Owns h' S l e := by
  obtain ⟨hsize, cells, hlinked, hnodup, hmem⟩ := ho
  exact ⟨hsize, cells, hlinked.frame fun p hp => hsame p ((hmem p).mp hp), hnodup, hmem⟩

theorem empty (h : Heap) : Owns h ∅ {} .nil := ⟨rfl, [], .nil, List.nodup_nil, by simp⟩

theorem last (ho : Owns h S l e) :
    l.first = none ∧ l.last = none ∧ l.size = 0 ∧ e = .nil ∧ S = ∅ ∨
      e ≠ .nil ∧ (∃ p, l.first = some p) ∧ ∃ p ∈ S, l.last = some p := by
  obtain ⟨hsize, cells, hlinked, hnodup, hmem⟩ := ho
  rcases hlinked.last_mem with ⟨hlast, hfirst, rfl, rfl⟩ | ⟨p, hp, hlast⟩
  · exact .inl ⟨hfirst, hlast, hsize, rfl, Set.eq_empty_iff_forall_notMem.mpr fun p hp => by
      simpa using (hmem p).mpr hp⟩
  · refine .inr ⟨?_, hlinked.first_of_last hlast, p, (hmem p).mp hp, hlast⟩
    rintro rfl
    rw [hlinked.last_of_nil] at hlast
    cases hlast

/-- Two lists in different cells become one. -/
theorem link (ho : Owns h S l e) (ho' : Owns h S' l' e') (hdisjoint : Disjoint S S') {q : Nat}
    (hlast : l.last = some q) :
    Owns (h.setNext q l'.first) (S ∪ S')
      { first := l.first, last := l'.last.or (some q), size := l.size + l'.size } (e ++ e') := by
  obtain ⟨hsize, cells, hlinked, hnodup, hmem⟩ := ho
  obtain ⟨hsize', cells', hlinked', hnodup', hmem'⟩ := ho'
  have hnodup_append : (cells ++ cells').Nodup := by
    refine List.nodup_append.mpr ⟨hnodup, hnodup', ?_⟩
    rintro p hp _ hp' rfl
    exact Set.disjoint_left.mp hdisjoint ((hmem p).mp hp) ((hmem' p).mp hp')
  refine ⟨by rw [hsize, hsize', ExprList.size_append], cells ++ cells', ?_, hnodup_append, ?_⟩
  · have hlink := hlinked.link hlinked' hlast hnodup_append
    cases hl' : l'.last <;> simpa [hl'] using hlink
  · intro p
    rw [List.mem_append, hmem, hmem', Set.mem_union]

end Owns

/-- From `h` an action has allocated the cells of the list `l` of the expressions `e`, all of them
and no other ones, and counted `errors` errors. -/
structure Builds (h : Heap) (e : ExprList) (errors : Nat) (l : LinkedExprs) (h' : Heap) : Prop where
  le : h.exprs.length ≤ h'.exprs.length
  kept : ∀ p < h.exprs.length, h'.exprs[p]? = h.exprs[p]?
  owns : Owns h' (Set.Ico h.exprs.length h'.exprs.length) l e
  errors : h'.errors = h.errors + errors

/-- `m` neither follows a null pointer nor fails an assertion, and ends in `Q`. -/
abbrev Does {α : Type} (m : Action α) (Q : α → Heap → Prop) (h : Heap) : Prop :=
  wp m Q (fun _ => False) False h

theorem Does.bind {α β : Type} {m : Action α} {f : α → Action β} {Q : α → Heap → Prop}
    {R : β → Heap → Prop} {h : Heap} (hm : Does m Q h)
    (hf : ∀ a h', Q a h' → Does (f a) R h') : Does (m >>= f) R h :=
  wp_bind.mpr (hm.mono hf (fun _ => id) id)

namespace Builds

variable {h h₁ h₂ : Heap} {l l' : LinkedExprs} {e e' : ExprList} {n n' : Nat}

theorem nil (h : Heap) : Builds h .nil 0 {} h where
  le := le_rfl
  kept _ _ := rfl
  owns := by
    rw [Set.Ico_self]
    exact .empty h
  errors := rfl

/-- The first of two lists that are built one after another is still there. -/
theorem owns_left (hb : Builds h e n l h₁) (hb' : Builds h₁ e' n' l' h₂) :
    Owns h₂ (Set.Ico h.exprs.length h₁.exprs.length) l e :=
  hb.owns.frame fun p hp => hb'.kept p hp.2

/-- A list of the cells of two lists that were built one after another. -/
theorem of_join {h₃ : Heap} (hb : Builds h e n l h₁) (hb' : Builds h₁ e' n' l' h₂)
    {r : LinkedExprs} {e'' : ExprList}
    (howns : Owns h₃ (Set.Ico h.exprs.length h₁.exprs.length ∪
      Set.Ico h₁.exprs.length h₂.exprs.length) r e'')
    (hlength : h₃.exprs.length = h₂.exprs.length) (herrors : h₃.errors = h₂.errors)
    (hsame : ∀ p < h.exprs.length, h₃.exprs[p]? = h₂.exprs[p]?) :
    Builds h e'' (n + n') r h₃ where
  le := hlength ▸ hb.le.trans hb'.le
  kept p hp := by rw [hsame p hp, hb'.kept p (hp.trans_le hb.le), hb.kept p hp]
  owns := by
    rwa [Set.Ico_union_Ico_eq_Ico hb.le hb'.le, ← hlength] at howns
  errors := by rw [herrors, hb'.errors, hb.errors, Nat.add_assoc]

theorem linkRest (hb : Builds h e n l h₁) (hb' : Builds h₁ e' n' l' h₂) (hne : e ≠ .nil) :
    Does (linkRest l l') (Builds h (e ++ e') (n + n')) h₂ := by
  rcases hb.owns.last with ⟨_, _, _, hnil, _⟩ | ⟨_, _, q, hq, hlast⟩
  · exact absurd hnil hne
  · have hlink := (hb.owns_left hb').link hb'.owns Set.Ico_disjoint_Ico_same hlast
    rw [ExprActions.linkRest, hlast]
    refine hb.of_join hb' hlink (h₂.length_setNext q _) rfl fun p hp => ?_
    exact h₂.getElem?_setNext_ne q _ (Nat.ne_of_lt (hp.trans_le hq.1))

/-- `join_exprs2`; if the list is empty, it owns no cell. -/
theorem joinExprs2_owns {S S' : Set Nat} {p : Nat} (ho : Owns h S l e)
    (ho' : Owns h S' (single p) e') (hdisjoint : Disjoint S S') :
    Does (ExprActions.joinExprs2 l p) (fun r h' => Owns h' (S ∪ S') r (e ++ e') ∧
      h'.exprs.length = h.exprs.length ∧ h'.errors = h.errors ∧
        ∀ q, q ∉ S → h'.exprs[q]? = h.exprs[q]?) h := by
  rw [ExprActions.joinExprs2, appendExprList]
  rcases ho.last with ⟨hfirst, _, _, rfl, rfl⟩ | ⟨_, ⟨f, hfirst⟩, q, hq, hlast⟩
  · rw [hfirst, Set.empty_union]
    exact ⟨ho', rfl, rfl, fun _ _ => rfl⟩
  · have hlink := ho.link ho' hdisjoint hlast
    rw [hfirst] at hlink ⊢
    simp only [Does, wp_bind, wp_pure, appendExpr, hlast, setNext, wp_modify, Nat.zero_add]
    exact ⟨hlink, h.length_setNext q _, rfl, fun q' hq' =>
      h.getElem?_setNext_ne q _ fun heq => hq' (heq ▸ hq)⟩

/-- `join_exprs2` of a list and the expression that was built behind it. -/
theorem joinExprs2 {p : Nat} (hb : Builds h e n l h₁) (hb' : Builds h₁ e' n' (single p) h₂) :
    Does (joinExprs2 l p) (Builds h (e ++ e') (n + n')) h₂ := by
  refine (joinExprs2_owns (hb.owns_left hb') hb'.owns Set.Ico_disjoint_Ico_same).mono
    (fun r h₃ hjoin => ?_) (fun _ => id) id
  exact hb.of_join hb' hjoin.1 hjoin.2.1 hjoin.2.2.1 fun q hq =>
    hjoin.2.2.2 q fun hmem => Nat.not_lt.mpr hmem.1 hq

/-- `join_exprs2` of an expression and the list that was built behind it. -/
theorem joinExprs2_operands {p : Nat} (hb : Builds h e n (single p) h₁)
    (hb' : Builds h₁ e' n' l' h₂) :
    Does (ExprActions.joinExprs2 l' p) (Builds h (e' ++ e) (n + n')) h₂ := by
  refine (joinExprs2_owns hb'.owns (hb.owns_left hb') Set.Ico_disjoint_Ico_same.symm).mono
    (fun r h₃ hjoin => ?_) (fun _ => id) id
  refine hb.of_join hb' (Set.union_comm _ _ ▸ hjoin.1) hjoin.2.1 hjoin.2.2.1 fun q hq => ?_
  exact hjoin.2.2.2 q fun hmem => Nat.not_lt.mpr (hb.le.trans hmem.1) hq

end Builds

/-! ## New expressions -/

/-- The heap with a new expression. -/
def Heap.push (h : Heap) (fields : ExprFields) : Heap := { h with exprs := h.exprs ++ [{ fields }] }

theorem Heap.getElem?_push (h : Heap) (fields : ExprFields) :
    (h.push fields).exprs[h.exprs.length]? = some ⟨fields, none⟩ := by
  simp [Heap.push]

theorem Heap.getElem?_push_lt (h : Heap) (fields : ExprFields) {p : Nat}
    (hp : p < h.exprs.length) : (h.push fields).exprs[p]? = h.exprs[p]? :=
  List.getElem?_append_left hp

namespace Builds

variable {h h₁ h₂ : Heap} {l l' : LinkedExprs} {e e' : ExprList} {n n' : Nat}

/-- A new expression for a list, or for what was built since `h`. -/
theorem push {fields : ExprFields} (inner : List Nat) (hle : h.exprs.length ≤ h₁.exprs.length)
    (hkept : ∀ p < h.exprs.length, h₁.exprs[p]? = h.exprs[p]?)
    (herrors : h₁.errors = h.errors + n) (hnodup : inner.Nodup)
    (hinner : ∀ p, p ∈ inner ↔ h.exprs.length ≤ p ∧ p < h₁.exprs.length) (hsize : e.size = 1)
    (hlinked : Linked (h₁.push fields) e (some h₁.exprs.length) (some h₁.exprs.length)
      (h₁.exprs.length :: inner)) :
    Builds h e n (single h₁.exprs.length) (h₁.push fields) where
  le := by simp [Heap.push]; omega
  kept p hp := (h₁.getElem?_push_lt fields (by omega)).trans (hkept p hp)
  owns := by
    refine ⟨hsize.symm, _, hlinked, List.nodup_cons.mpr ⟨?_, hnodup⟩, fun p => ?_⟩
    · rw [hinner]
      omega
    · rw [List.mem_cons, hinner, Set.mem_Ico]
      simp only [Heap.push, List.length_append, List.length_singleton]
      omega
  errors := herrors

theorem newPlain (h : Heap) (e : Expr) :
    Does (newExpr (.expr e)) (fun p => Builds h (.expr e .nil) 0 (single p)) h :=
  push [] le_rfl (fun _ _ => rfl) rfl List.nodup_nil (by simp) rfl
    (.expr (h.getElem?_push _) .nil)

theorem newBlock (label : StringSlice) (sig : List ValueType) (hb : Builds h e n l h₁) :
    Does (newExpr (.block label sig l.first))
      (fun p => Builds h (.block label sig e .nil) n (single p)) h₁ := by
  obtain ⟨_, inner, hlinked, hnodup, hmem⟩ := hb.owns
  refine push (inner ++ []) hb.le hb.kept hb.errors (by simpa) (by simpa using hmem) rfl ?_
  exact .block (h₁.getElem?_push _)
    (hlinked.frame fun p hp => h₁.getElem?_push_lt _ ((hmem p).mp hp).2) .nil

theorem newLoop (label : StringSlice) (sig : List ValueType) (hb : Builds h e n l h₁) :
    Does (newExpr (.loop label sig l.first))
      (fun p => Builds h (.loop label sig e .nil) n (single p)) h₁ := by
  obtain ⟨_, inner, hlinked, hnodup, hmem⟩ := hb.owns
  refine push (inner ++ []) hb.le hb.kept hb.errors (by simpa) (by simpa using hmem) rfl ?_
  exact .loop (h₁.getElem?_push _)
    (hlinked.frame fun p hp => h₁.getElem?_push_lt _ ((hmem p).mp hp).2) .nil

theorem newIf (label : StringSlice) (sig : List ValueType) (hb : Builds h e n l h₁)
    (hb' : Builds h₁ e' n' l' h₂) :
    Does (newExpr (.if_ label sig l.first l'.first))
      (fun p => Builds h (.if_ label sig e e' .nil) (n + n') (single p)) h₂ := by
  obtain ⟨_, inner, hlinked, hnodup, hmem⟩ := hb.owns_left hb'
  obtain ⟨_, inner', hlinked', hnodup', hmem'⟩ := hb'.owns
  have hle := hb.le
  have hle' := hb'.le
  refine push (inner ++ inner' ++ []) (hle.trans hle') (fun p hp => ?_) ?_ ?_ ?_ rfl ?_
  · rw [hb'.kept p (hp.trans_le hle), hb.kept p hp]
  · rw [hb'.errors, hb.errors, Nat.add_assoc]
  · rw [List.append_nil]
    refine List.nodup_append.mpr ⟨hnodup, hnodup', ?_⟩
    rintro p hp _ hp' rfl
    exact Set.disjoint_left.mp Set.Ico_disjoint_Ico_same ((hmem p).mp hp) ((hmem' p).mp hp')
  · intro p
    rw [List.append_nil, List.mem_append, hmem, hmem', Set.mem_Ico, Set.mem_Ico]
    omega
  · refine .if_ (h₂.getElem?_push _) (hlinked.frame fun p hp => ?_) (hlinked'.frame fun p hp => ?_)
      .nil
    · exact h₂.getElem?_push_lt _ (((hmem p).mp hp).2.trans_le hle')
    · exact h₂.getElem?_push_lt _ ((hmem' p).mp hp).2

theorem newIfThen (label : StringSlice) (sig : List ValueType) (hb : Builds h e n l h₁) :
    Does (newExpr (.if_ label sig l.first none))
      (fun p => Builds h (.if_ label sig e .nil .nil) n (single p)) h₁ :=
  hb.newIf label sig (.nil h₁)

/-- `CHECK_END_LABEL` counts an error and changes nothing else. -/
theorem checkEndLabel (hb : Builds h e n l h₁) (beginLabel endLabel : StringSlice) :
    Does (checkEndLabel beginLabel endLabel)
      (fun _ => Builds h e (n + labelErrors beginLabel endLabel) l) h₁ := by
  rw [ExprActions.checkEndLabel, labelErrors]
  refine wp_when.mpr ⟨fun hbad => ?_, fun hgood => ?_⟩
  · rw [if_pos hbad]
    refine ⟨hb.le, hb.kept, hb.owns.frame fun _ _ => rfl, ?_⟩
    show h₁.errors + 1 = _
    rw [hb.errors, Nat.add_assoc]
  · rw [hgood]
    exact hb

theorem setIf {t f : ExprList} (hb : Builds h (e ++ .if_ none [] t f .nil) n l h₁)
    (label : StringSlice) (sig : List ValueType) :
    Does (setIf l label sig) (Builds h (e ++ .if_ label sig t f .nil) n) h₁ := by
  rcases hb.owns.last with ⟨_, _, _, hnil, _⟩ | ⟨_, _, q, hq, hlast⟩
  · exact absurd hnil (Linked.append_ne_nil nofun)
  · obtain ⟨hsize, cells, hlinked, hnodup, hmem⟩ := hb.owns
    obtain ⟨true_, false_, hnode, hset⟩ := hlinked.setIf hlast hnodup
    rw [ExprActions.setIf, hlast]
    simp only [Does, wp_bind, wp_get, hnode, wp_modify, wp_pure]
    refine ⟨?_, fun p hp => ?_, ⟨?_, cells, hset, hnodup, ?_⟩, hb.errors⟩
    · rw [Heap.length_setFields]
      exact hb.le
    · rw [h₁.getElem?_setFields_ne q _ (fun heq => Nat.not_lt.mpr hq.1 (heq ▸ hp)), hb.kept p hp]
    · rw [hsize, ExprList.size_append, ExprList.size_append]
      rfl
    · rw [Heap.length_setFields]
      exact hmem

end Builds

/-! ## The productions build their trees -/

theorem IfArms.tree_eq (arms : IfArms) :
    ∃ cond t f, ∀ label sig, arms.tree label sig = cond ++ .if_ label sig t f .nil := by
  cases arms with
  | thenElse t f => exact ⟨.nil, _, _, fun _ _ => by rw [IfArms.tree, ExprList.nil_append]⟩
  | then_ t => exact ⟨.nil, _, _, fun _ _ => by rw [IfArms.tree, ExprList.nil_append]⟩
  | condThenElse cond t f => exact ⟨_, _, _, fun _ _ => by rw [IfArms.tree]⟩
  | condThen cond t => exact ⟨_, _, _, fun _ _ => by rw [IfArms.tree]⟩
  | exprElse cond t f => exact ⟨_, _, _, fun _ _ => by rw [IfArms.tree]⟩
  | expr cond t => exact ⟨_, _, _, fun _ _ => by rw [IfArms.tree]⟩

theorem Expr1.tree_ne_nil (e : Expr1) : e.tree ≠ .nil := by
  cases e with
  | plain e operands =>
    rw [Expr1.tree]
    exact Linked.append_ne_nil nofun
  | block label sig body => rw [Expr1.tree]; exact nofun
  | loop label sig body => rw [Expr1.tree]; exact nofun
  | if_ label sig arms =>
    obtain ⟨cond, t, f, htree⟩ := arms.tree_eq
    rw [Expr1.tree, htree]
    exact Linked.append_ne_nil nofun

theorem Instr.tree_ne_nil (i : Instr) : i.tree ≠ .nil := by
  cases i with
  | expr e =>
    rw [Instr.tree]
    exact e.tree_ne_nil
  | _ => rw [Instr.tree]; exact nofun

mutual

theorem instr_builds (i : Instr) (h : Heap) : Does (instr i) (Builds h i.tree i.errors) h := by
  cases i with
  | plain e =>
    rw [instr, Instr.tree, Instr.errors]
    exact Does.bind (Builds.newPlain h e) fun _ _ hb => hb
  | block label sig body endLabel =>
    rw [instr, Instr.tree, Instr.errors]
    refine (instrList_builds body h).bind fun l h₁ hb => ?_
    refine Does.bind (hb.newBlock label sig) fun p h₂ hb => ?_
    exact Does.bind (hb.checkEndLabel label endLabel) fun _ _ hb => hb
  | loop label sig body endLabel =>
    rw [instr, Instr.tree, Instr.errors]
    refine (instrList_builds body h).bind fun l h₁ hb => ?_
    refine Does.bind (hb.newLoop label sig) fun p h₂ hb => ?_
    exact Does.bind (hb.checkEndLabel label endLabel) fun _ _ hb => hb
  | if_ label sig true_ endLabel =>
    rw [instr, Instr.tree, Instr.errors]
    refine (instrList_builds true_ h).bind fun l h₁ hb => ?_
    refine Does.bind (hb.newIfThen label sig) fun p h₂ hb => ?_
    exact Does.bind (hb.checkEndLabel label endLabel) fun _ _ hb => hb
  | ifElse label sig true_ elseLabel false_ endLabel =>
    rw [instr, Instr.tree, Instr.errors]
    refine (instrList_builds true_ h).bind fun l h₁ hb => ?_
    refine (instrList_builds false_ h₁).bind fun l' h₂ hb' => ?_
    refine Does.bind (hb.newIf label sig hb') fun p h₃ hb => ?_
    refine Does.bind (hb.checkEndLabel label elseLabel) fun _ h₄ hb => ?_
    exact Does.bind (hb.checkEndLabel label endLabel) fun _ _ hb => hb
  | expr e =>
    rw [instr, Instr.tree, Instr.errors]
    exact expr1_builds e h

theorem instrList_builds (is : InstrList) (h : Heap) :
    Does (instrList is) (Builds h is.tree is.errors) h := by
  cases is with
  | nil =>
    rw [instrList, InstrList.tree, InstrList.errors]
    exact Builds.nil h
  | cons i rest =>
    rw [instrList, InstrList.tree, InstrList.errors]
    refine (instr_builds i h).bind fun l h₁ hb => ?_
    refine (instrList_builds rest h₁).bind fun l' h₂ hb' => ?_
    exact hb.linkRest hb' i.tree_ne_nil

theorem expr1_builds (e : Expr1) (h : Heap) : Does (expr1 e) (Builds h e.tree e.errors) h := by
  cases e with
  | plain e operands =>
    rw [expr1, Expr1.tree, Expr1.errors]
    refine Does.bind (Builds.newPlain h e) fun p h₁ hb => ?_
    refine (exprList_builds operands h₁).bind fun l' h₂ hb' => ?_
    have hjoin := hb.joinExprs2_operands hb'
    rwa [Nat.zero_add] at hjoin
  | block label sig body =>
    rw [expr1, Expr1.tree, Expr1.errors]
    refine (instrList_builds body h).bind fun l h₁ hb => ?_
    exact Does.bind (hb.newBlock label sig) fun _ _ hb => hb
  | loop label sig body =>
    rw [expr1, Expr1.tree, Expr1.errors]
    refine (instrList_builds body h).bind fun l h₁ hb => ?_
    exact Does.bind (hb.newLoop label sig) fun _ _ hb => hb
  | if_ label sig arms =>
    rw [expr1, Expr1.tree, Expr1.errors]
    obtain ⟨cond, t, f, htree⟩ := arms.tree_eq
    refine (if_builds arms h).bind fun l h₁ hb => ?_
    rw [htree] at hb ⊢
    exact hb.setIf label sig

/-- The `if` has neither label nor signature until the action of `expr1` sets them. -/
theorem if_builds (arms : IfArms) (h : Heap) :
    Does (if_ arms) (Builds h (arms.tree none []) arms.errors) h := by
  cases arms with
  | thenElse true_ false_ =>
    rw [if_, IfArms.tree, IfArms.errors]
    refine (instrList_builds true_ h).bind fun l h₁ hb => ?_
    refine (instrList_builds false_ h₁).bind fun l' h₂ hb' => ?_
    exact Does.bind (hb.newIf none [] hb') fun _ _ hb => hb
  | then_ true_ =>
    rw [if_, IfArms.tree, IfArms.errors]
    refine (instrList_builds true_ h).bind fun l h₁ hb => ?_
    exact Does.bind (hb.newIfThen none []) fun _ _ hb => hb
  | condThenElse cond true_ false_ =>
    rw [if_, IfArms.tree, IfArms.errors]
    refine (expr1_builds cond h).bind fun c h₁ hcond => ?_
    refine (instrList_builds true_ h₁).bind fun l h₂ hb => ?_
    refine (instrList_builds false_ h₂).bind fun l' h₃ hb' => ?_
    exact Does.bind (hb.newIf none [] hb') fun p h₄ hb => hcond.joinExprs2 hb
  | condThen cond true_ =>
    rw [if_, IfArms.tree, IfArms.errors]
    refine (expr1_builds cond h).bind fun c h₁ hcond => ?_
    refine (instrList_builds true_ h₁).bind fun l h₂ hb => ?_
    exact Does.bind (hb.newIfThen none []) fun p h₃ hb => hcond.joinExprs2 hb
  | exprElse cond true_ false_ =>
    rw [if_, IfArms.tree, IfArms.errors]
    refine (expr1_builds cond h).bind fun c h₁ hcond => ?_
    refine (expr1_builds true_ h₁).bind fun l h₂ hb => ?_
    refine (expr1_builds false_ h₂).bind fun l' h₃ hb' => ?_
    exact Does.bind (hb.newIf none [] hb') fun p h₄ hb => hcond.joinExprs2 hb
  | expr cond true_ =>
    rw [if_, IfArms.tree, IfArms.errors]
    refine (expr1_builds cond h).bind fun c h₁ hcond => ?_
    refine (expr1_builds true_ h₁).bind fun l h₂ hb => ?_
    exact Does.bind (hb.newIfThen none []) fun p h₃ hb => hcond.joinExprs2 hb

theorem exprList_builds (operands : Operands) (h : Heap) :
    Does (exprList operands) (Builds h operands.tree operands.errors) h := by
  cases operands with
  | nil =>
    rw [exprList, Operands.tree, Operands.errors]
    exact Builds.nil h
  | cons e rest =>
    rw [exprList, Operands.tree, Operands.errors]
    refine (expr1_builds e h).bind fun l h₁ hb => ?_
    refine (exprList_builds rest h₁).bind fun l' h₂ hb' => ?_
    exact hb.linkRest hb' e.tree_ne_nil

end

/-! ## The flat form -/

/-- A list of instructions that has nothing folded and stands for `tree`. -/
structure FlatFor (is : InstrList) (tree : ExprList) (errors : Nat) : Prop where
  isFlat : is.isFlat = true
  tree : is.tree = tree
  errors : is.errors = errors

theorem FlatFor.nil : FlatFor .nil .nil 0 := ⟨rfl, by rw [InstrList.tree], rfl⟩

theorem FlatFor.append : ∀ {is is' : InstrList} {tree tree' : ExprList} {errors errors' : Nat},
    FlatFor is tree errors → FlatFor is' tree' errors' →
      FlatFor (is ++ is') (tree ++ tree') (errors + errors')
  | .nil, is', tree, tree', errors, errors', h, h' => by
      obtain ⟨_, rfl, rfl⟩ := h
      rw [InstrList.tree, ExprList.nil_append, InstrList.errors, Nat.zero_add]
      exact h'
  | .cons i is, is', tree, tree', errors, errors', h, h' => by
      obtain ⟨hflat, rfl, rfl⟩ := h
      rw [InstrList.isFlat, Bool.and_eq_true] at hflat
      obtain ⟨hflat', htree, herrors⟩ := FlatFor.append ⟨hflat.2, rfl, rfl⟩ h'
      refine ⟨?_, ?_, ?_⟩
      · exact Bool.and_eq_true_iff.mpr ⟨hflat.1, hflat'⟩
      · rw [InstrList.tree, ExprList.append_assoc, ← htree]
        exact InstrList.tree.eq_2 i (is ++ is')
      · rw [InstrList.errors, Nat.add_assoc, ← herrors]
        exact InstrList.errors.eq_2 i (is ++ is')

theorem FlatFor.single {i : Instr} {tree : ExprList} {errors : Nat} (hflat : i.isFlat = true)
    (htree : i.tree = tree) (herrors : i.errors = errors) :
    FlatFor (.single i) tree errors where
  isFlat := Bool.and_eq_true_iff.mpr ⟨hflat, rfl⟩
  tree := by rw [InstrList.single, InstrList.tree, InstrList.tree, ExprList.append_nil, htree]
  errors := by rw [InstrList.single, InstrList.errors, InstrList.errors, herrors, Nat.add_zero]

theorem labelErrors_none (label : StringSlice) : labelErrors label none = 0 := rfl

namespace FlatFor

variable {label : StringSlice} {sig : List ValueType} {t f : InstrList} {tree tree' : ExprList}
  {n n' : Nat}

theorem block (ht : FlatFor t tree n) (endLabel : StringSlice) :
    FlatFor (.single (.block label sig t endLabel)) (.block label sig tree .nil)
      (n + labelErrors label endLabel) :=
  single (by rw [Instr.isFlat, ht.isFlat]) (by rw [Instr.tree, ht.tree])
    (by rw [Instr.errors, ht.errors])

theorem loop (ht : FlatFor t tree n) (endLabel : StringSlice) :
    FlatFor (.single (.loop label sig t endLabel)) (.loop label sig tree .nil)
      (n + labelErrors label endLabel) :=
  single (by rw [Instr.isFlat, ht.isFlat]) (by rw [Instr.tree, ht.tree])
    (by rw [Instr.errors, ht.errors])

theorem if_ (ht : FlatFor t tree n) (endLabel : StringSlice) :
    FlatFor (.single (.if_ label sig t endLabel)) (.if_ label sig tree .nil .nil)
      (n + labelErrors label endLabel) :=
  single (by rw [Instr.isFlat, ht.isFlat]) (by rw [Instr.tree, ht.tree])
    (by rw [Instr.errors, ht.errors])

theorem ifElse (ht : FlatFor t tree n) (hf : FlatFor f tree' n') (elseLabel endLabel : StringSlice) :
    FlatFor (.single (.ifElse label sig t elseLabel f endLabel)) (.if_ label sig tree tree' .nil)
      (n + n' + labelErrors label elseLabel + labelErrors label endLabel) :=
  single (by rw [Instr.isFlat, ht.isFlat, hf.isFlat]; rfl)
    (by rw [Instr.tree, ht.tree, hf.tree]) (by rw [Instr.errors, ht.errors, hf.errors])

end FlatFor

mutual

theorem Instr.flat_spec (i : Instr) : FlatFor i.flat i.tree i.errors := by
  cases i with
  | plain e =>
    rw [Instr.flat]
    exact .single rfl rfl rfl
  | block label sig body endLabel =>
    rw [Instr.flat, Instr.tree, Instr.errors]
    exact body.flat_spec.block endLabel
  | loop label sig body endLabel =>
    rw [Instr.flat, Instr.tree, Instr.errors]
    exact body.flat_spec.loop endLabel
  | if_ label sig true_ endLabel =>
    rw [Instr.flat, Instr.tree, Instr.errors]
    exact true_.flat_spec.if_ endLabel
  | ifElse label sig true_ elseLabel false_ endLabel =>
    rw [Instr.flat, Instr.tree, Instr.errors]
    exact true_.flat_spec.ifElse false_.flat_spec elseLabel endLabel
  | expr e =>
    rw [Instr.flat, Instr.tree, Instr.errors]
    exact e.flat_spec

theorem InstrList.flat_spec (is : InstrList) : FlatFor is.flat is.tree is.errors := by
  cases is with
  | nil =>
    rw [InstrList.flat]
    exact .nil
  | cons i rest =>
    rw [InstrList.flat, InstrList.tree, InstrList.errors]
    exact i.flat_spec.append rest.flat_spec

theorem Expr1.flat_spec (e : Expr1) : FlatFor e.flat e.tree e.errors := by
  cases e with
  | plain e operands =>
    rw [Expr1.flat, Expr1.tree, Expr1.errors]
    exact operands.flat_spec.append (.single rfl rfl rfl)
  | block label sig body =>
    rw [Expr1.flat, Expr1.tree, Expr1.errors]
    exact body.flat_spec.block none
  | loop label sig body =>
    rw [Expr1.flat, Expr1.tree, Expr1.errors]
    exact body.flat_spec.loop none
  | if_ label sig arms =>
    rw [Expr1.flat, Expr1.tree, Expr1.errors]
    exact arms.flat_spec label sig

theorem IfArms.flat_spec (arms : IfArms) (label : StringSlice) (sig : List ValueType) :
    FlatFor (arms.flat label sig) (arms.tree label sig) arms.errors := by
  cases arms with
  | thenElse true_ false_ =>
    rw [IfArms.flat, IfArms.tree, IfArms.errors]
    exact true_.flat_spec.ifElse false_.flat_spec none none
  | then_ true_ =>
    rw [IfArms.flat, IfArms.tree, IfArms.errors]
    exact true_.flat_spec.if_ none
  | condThenElse cond true_ false_ =>
    rw [IfArms.flat, IfArms.tree, IfArms.errors]
    exact cond.flat_spec.append (true_.flat_spec.ifElse false_.flat_spec none none)
  | condThen cond true_ =>
    rw [IfArms.flat, IfArms.tree, IfArms.errors]
    exact cond.flat_spec.append (true_.flat_spec.if_ none)
  | exprElse cond true_ false_ =>
    rw [IfArms.flat, IfArms.tree, IfArms.errors]
    exact cond.flat_spec.append (true_.flat_spec.ifElse false_.flat_spec none none)
  | expr cond true_ =>
    rw [IfArms.flat, IfArms.tree, IfArms.errors]
    exact cond.flat_spec.append (true_.flat_spec.if_ none)

theorem Operands.flat_spec (operands : Operands) :
    FlatFor operands.flat operands.tree operands.errors := by
  cases operands with
  | nil =>
    rw [Operands.flat]
    exact .nil
  | cons e rest =>
    rw [Operands.flat, Operands.tree, Operands.errors]
    exact e.flat_spec.append rest.flat_spec

end

end ExprActions

end Text

end SexprWasm
