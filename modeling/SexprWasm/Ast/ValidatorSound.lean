import SexprWasm.Ast.Typing
import SexprWasm.Ast.Validator

/-!
# Soundness of the validator

While no error has been printed and the code is reachable, the type
stack of the checker is the operands of the innermost block, all of
them value types, over the stack `base` of the blocks around it
(`live`). One lemma for each helper says what its success means there;
`checkExpr_live` puts them together for the expressions without a body,
and `checkExprs_live` follows by induction on the list of expressions.
-/

namespace SexprWasm

namespace Validator

open Ast Ast.Typing

namespace Context

/-! ## Errors stay -/

@[simp] theorem printError_ok (c : Context) : c.printError.ok = false := rfl

@[simp] theorem require_ok (c : Context) (b : Bool) : (c.require b).ok = (c.ok && b) := by
  cases b <;> simp [require]

theorem require_eq {c : Context} {b : Bool} (h : b = true) : c.require b = c := by
  simp [require, h]

@[simp] theorem resetTypeStackToLimit_ok (c : Context) : c.resetTypeStackToLimit.ok = c.ok := rfl

@[simp] theorem pushType_ok (c : Context) (type : WasmType) : (c.pushType type).ok = c.ok := by
  unfold pushType
  split <;> rfl

@[simp] theorem pushTypes_ok (types : List ValueType) (c : Context) :
    (c.pushTypes types).ok = c.ok := by
  induction types generalizing c with
  | nil => rfl
  | cons t types ih => exact (ih (c.pushType t)).trans (pushType_ok c t)

@[simp] theorem popType_ok (c : Context) : c.popType.2.ok = c.ok := by
  unfold popType
  split <;> rfl

@[simp] theorem checkType_ok (c : Context) (actual expected : WasmType) :
    (c.checkType actual expected).ok = (c.ok && decide (actual = expected)) := by
  simp [checkType]

@[simp] theorem pushLabel_ok (c : Context) (labelType : LabelType) (sig : List ValueType) :
    (c.pushLabel labelType sig).ok = c.ok := rfl

@[simp] theorem popLabel_ok (c : Context) : c.popLabel.ok = c.ok := rfl

@[simp] theorem unreachable_ok (c : Context) : c.unreachable.ok = c.ok := by
  simp [unreachable]

theorem foldl_ok {α : Type} {f : Context → α → Context}
    (hf : ∀ c a, (f c a).ok = true → c.ok = true) (l : List α) (c : Context) :
    (l.foldl f c).ok = true → c.ok = true := by
  induction l generalizing c with
  | nil => exact id
  | cons a l ih => exact fun h => hf c a (ih (f c a) h)

theorem ok_of_checkTopTypes {c : Context} {expected : List ValueType}
    (h : (c.checkTopTypes expected).ok = true) : c.ok = true :=
  foldl_ok (fun c types hc => by simp at hc; exact hc.1) _ c h

theorem ok_of_popAndCheck1Type {c : Context} {expected : WasmType}
    (h : (c.popAndCheck1Type expected).ok = true) : c.ok = true := by
  unfold popAndCheck1Type at h
  split at h <;> simp_all

theorem ok_of_popAndCheck2Types {c : Context} {expected1 expected2 : WasmType}
    (h : (c.popAndCheck2Types expected1 expected2).ok = true) : c.ok = true := by
  unfold popAndCheck2Types at h
  split at h <;> simp_all

theorem ok_of_checkNTypes {c : Context} {expected : List ValueType}
    (h : (c.checkNTypes expected).ok = true) : c.ok = true := by
  unfold checkNTypes at h
  split at h
  · exact ok_of_checkTopTypes h
  · simp at h

theorem ok_of_checkBr {c : Context} {var : Var} (h : (c.checkBr var).ok = true) :
    c.ok = true := by
  unfold checkBr at h
  split at h
  · simp at h
  · split at h
    · exact h
    · exact ok_of_checkNTypes h

theorem ok_of_checkCall {c : Context} {sig : FuncSignature} (h : (c.checkCall sig).ok = true) :
    c.ok = true := by
  unfold checkCall at h
  simp only [pushTypes_ok] at h
  split at h
  · exact ok_of_checkTopTypes h
  · simp at h

end Context

theorem ok_of_endBlock {r : Context × Bool} (h : (endBlock r).ok = true) : r.1.ok = true := by
  obtain ⟨c, checkResult⟩ := r
  cases checkResult with
  | false => exact h
  | true =>
      simp only [endBlock, Context.checkTypeStackLimitExact, if_true, Context.require_ok,
        Bool.and_eq_true] at h
      exact Context.ok_of_checkNTypes h.1

open Context in
theorem ok_of_checkExpr {env : Env} {e : Expr} {c : Context}
    (h : (checkExpr env e c).ok = true) : c.ok = true := by
  have hpop1 := @ok_of_popAndCheck1Type
  have hpop2 := @ok_of_popAndCheck2Types
  have hbr := @ok_of_checkBr
  have hcall := @ok_of_checkCall
  cases e with
  | brTable targets defaultTarget =>
      simp only [checkExpr, unreachable_ok] at h
      exact hpop1 (foldl_ok (fun _ _ => hbr) _ _ (hbr h))
  | return_ =>
      simp only [checkExpr, unreachable_ok] at h
      exact ok_of_checkNTypes h
  | select =>
      simp only [checkExpr] at h
      split at h
      · simp only [pushType_ok, checkType_ok, popType_ok, Bool.and_eq_true] at h
        exact hpop1 h.1
      · simp at h
  | callIndirect var =>
      simp only [checkExpr] at h
      split at h
      · simp at h
      · have hc := hcall h
        simp only [checkType_ok, popType_ok, require_ok, Bool.and_eq_true] at hc
        exact hc.1.1
  | load opcode align offset =>
      have hc := hpop1 (by simpa [checkExpr, checkOpcode1] using h)
      simp only [checkMemoryAccess, checkHasMemory, require_ok, Bool.and_eq_true] at hc
      exact hc.1.1.1
  | store opcode align offset =>
      have hc := hpop2 (by simpa [checkExpr, checkOpcode2] using h)
      simp only [checkMemoryAccess, checkHasMemory, require_ok, Bool.and_eq_true] at hc
      exact hc.1.1.1
  | growMemory =>
      have hc := hpop1 (by simpa [checkExpr, checkOpcode1] using h)
      simp only [checkHasMemory, require_ok, Bool.and_eq_true] at hc
      exact hc.1
  | _ =>
      simp only [checkExpr, checkOpcode1, checkOpcode2] at h
      grind [checkHasMemory, pushType_ok, unreachable_ok, popType_ok, require_ok, checkType_ok,
        printError_ok]

/-! ## Live contexts -/

/-- Operands of types `st` over the stack `base`, inside the blocks `L`. -/
def live (L : List LabelNode) (base : List WasmType) (st : List ValueType) : Context :=
  { typeStack := st.map ValueType.toType ++ base, labels := L, ok := true }

/-- Right after an unconditional branch. -/
def dead (L : List LabelNode) (base : List WasmType) : Context :=
  { typeStack := .any :: base, labels := L, ok := true }

/-- `base` is what is below the limit of the innermost block. -/
def Framed (L : List LabelNode) (base : List WasmType) : Prop :=
  (L.head?.map (·.typeStackLimit)).getD 0 = base.length

/-- The types a branch to the label supplies. -/
def LabelNode.branchTypes (node : LabelNode) : List ValueType :=
  if node.labelType = .loop then [] else node.sig

section

variable {L : List LabelNode} {base : List WasmType} {st : List ValueType}

@[simp] theorem live_ok : (live L base st).ok = true := rfl

theorem live_avail (hL : Framed L base) : (live L base st).avail = st.length := by
  simp only [Framed] at hL
  simp [Context.avail, Context.limit, live, hL]

theorem live_topType_cons (hL : Framed L base) (t : ValueType) :
    (live L base (t :: st)).topType = t := by
  simp only [Context.topType, live_avail hL]
  simp [live]

theorem live_topType_nil (hL : Framed L base) : (live L base []).topType = .i32 := by
  simp [Context.topType, live_avail hL]

theorem live_topType_ne_any (hL : Framed L base) : (live L base st).topType ≠ .any := by
  cases st with
  | nil => simp [live_topType_nil hL]
  | cons t st => simp [live_topType_cons hL]

theorem live_popType_cons (hL : Framed L base) (t : ValueType) :
    (live L base (t :: st)).popType = ((t : WasmType), live L base st) := by
  simp only [Context.popType, live_topType_cons hL, live_avail hL]
  simp [live]

theorem live_pushType (t : ValueType) :
    (live L base st).pushType t = live L base (t :: st) := by
  simp [Context.pushType, live]

theorem live_pushTypes (types st : List ValueType) :
    (live L base st).pushTypes types = live L base (types.reverse ++ st) := by
  induction types generalizing st with
  | nil => rfl
  | cons t types ih =>
      have h := ih (t :: st)
      rw [← live_pushType] at h
      simpa [Context.pushTypes] using h

theorem live_popAndCheck1Type (hL : Framed L base) {t : ValueType}
    (h : ((live L base st).popAndCheck1Type t).ok = true) :
    ∃ st', st = t :: st' ∧ (live L base st).popAndCheck1Type t = live L base st' := by
  cases st with
  | nil => simp [Context.popAndCheck1Type, live_avail hL] at h
  | cons t' st' =>
      simp only [Context.popAndCheck1Type, live_avail hL, live_popType_cons hL, List.length_cons,
        Nat.le_add_left, if_true] at h ⊢
      have ht : t' = t := by simpa using h
      subst ht
      exact ⟨st', rfl, Context.require_eq (by simp)⟩

theorem live_popI32 (hL : Framed L base)
    (h : ((live L base st).popAndCheck1Type .i32).ok = true) :
    ∃ st', st = .i32 :: st' ∧ (live L base st).popAndCheck1Type .i32 = live L base st' :=
  live_popAndCheck1Type (t := .i32) hL h

theorem live_popAndCheck2Types (hL : Framed L base) {t1 t2 : ValueType}
    (h : ((live L base st).popAndCheck2Types t1 t2).ok = true) :
    ∃ st', st = t2 :: t1 :: st' ∧
      (live L base st).popAndCheck2Types t1 t2 = live L base st' := by
  match st with
  | [] => simp [Context.popAndCheck2Types, live_avail hL] at h
  | [_] => simp [Context.popAndCheck2Types, live_avail hL] at h
  | t2' :: t1' :: st' =>
      simp only [Context.popAndCheck2Types, live_avail hL, live_popType_cons hL, List.length_cons,
        Nat.le_add_left, if_true] at h ⊢
      have ht : t1' = t1 ∧ t2' = t2 := by simpa using h
      obtain ⟨rfl, rfl⟩ := ht
      refine ⟨st', rfl, ?_⟩
      simp [Context.checkType, Context.require_eq]

/-- The entries compared by `checkTopTypes` agree exactly if its result has no error. -/
theorem checkType_foldl_eq (types : List (WasmType × ValueType)) (c : Context)
    (h : (types.foldl (fun c types => c.checkType types.1 types.2) c).ok = true) :
    (∀ p ∈ types, p.1 = p.2) ∧
      types.foldl (fun c types => c.checkType types.1 types.2) c = c := by
  induction types generalizing c with
  | nil => exact ⟨by simp, rfl⟩
  | cons p types ih =>
      have hc := Context.foldl_ok
        (fun c (types : WasmType × ValueType) hc => by simp at hc; exact hc.1) types _ h
      simp only [Context.checkType_ok, Bool.and_eq_true, decide_eq_true_eq] at hc
      have heq : c.checkType p.1 p.2 = c := Context.require_eq (by simpa using hc.2)
      simp only [List.foldl_cons, heq] at h ⊢
      obtain ⟨htypes, hfold⟩ := ih c h
      exact ⟨List.forall_mem_cons.mpr ⟨hc.2, htypes⟩, hfold⟩

theorem live_checkTopTypes {types : List ValueType} (hlen : types.length ≤ st.length)
    (h : ((live L base st).checkTopTypes types).ok = true) :
    ∃ st', st = types.reverse ++ st' ∧
      (live L base st).checkTopTypes types = live L base st := by
  obtain ⟨hall, heq⟩ := checkType_foldl_eq _ _ h
  refine ⟨st.drop types.length, ?_, heq⟩
  have htake : (st.take types.length).reverse = types := by
    apply List.ext_getElem (by simp [hlen])
    intro i h₁ h₂
    have hmem : (((st.take types.length).reverse[i] : WasmType), types[i]) ∈
        ((live L base st).typeStack.take types.length).reverse.zip types := by
      rw [List.mem_iff_getElem]
      refine ⟨i, by simp [live]; omega, ?_⟩
      simp [live, List.take_append_of_le_length, hlen]
    simpa using hall _ hmem
  rw [← htake, List.reverse_reverse, List.length_reverse, List.length_take,
    Nat.min_eq_left hlen, List.take_append_drop]

theorem live_checkNTypes (hL : Framed L base) {types : List ValueType}
    (h : ((live L base st).checkNTypes types).ok = true) :
    ∃ st', st = types.reverse ++ st' ∧ (live L base st).checkNTypes types = live L base st := by
  unfold Context.checkNTypes at h ⊢
  rw [live_avail hL] at h ⊢
  by_cases hlen : types.length ≤ st.length
  · rw [if_pos hlen] at h ⊢
    exact live_checkTopTypes hlen h
  · simp [hlen] at h

theorem live_checkBr (hL : Framed L base) {var : Var}
    (h : ((live L base st).checkBr var).ok = true) :
    ∃ types st', IndexOf (L.map LabelNode.branchTypes) var types ∧ st = types.reverse ++ st' ∧
      (live L base st).checkBr var = live L base st := by
  unfold Context.checkBr at h ⊢
  split at h
  · simp at h
  · next node hnode =>
    have hindex : IndexOf (L.map LabelNode.branchTypes) var node.branchTypes := by
      unfold findLabelByVar at hnode
      split at hnode
      · next hvar => exact ⟨hvar, by simp [live] at hnode; simp [hnode]⟩
      · simp at hnode
    by_cases hloop : node.labelType = .loop
    · exact ⟨[], st, by simpa [LabelNode.branchTypes, hloop] using hindex, rfl, by simp [hloop]⟩
    · rw [if_neg hloop] at h
      obtain ⟨st', hst, heq⟩ := live_checkNTypes hL h
      exact ⟨node.sig, st', by simpa [LabelNode.branchTypes, hloop] using hindex, hst,
        by simpa [hloop] using heq⟩

theorem live_checkCall (hL : Framed L base) {sig : FuncSignature}
    (h : ((live L base st).checkCall sig).ok = true) :
    ∃ st', st = sig.paramTypes.reverse ++ st' ∧
      (live L base st).checkCall sig = live L base (sig.resultTypes.reverse ++ st') := by
  simp only [Context.checkCall, Context.pushTypes_ok, live_avail hL] at h ⊢
  by_cases hlen : sig.paramTypes.length ≤ st.length
  · simp only [hlen, if_true] at h ⊢
    obtain ⟨st', hst, heq⟩ := live_checkTopTypes hlen h
    refine ⟨st', hst, ?_⟩
    have hdrop : { live L base st with
        typeStack := (live L base st).typeStack.drop sig.paramTypes.length } =
          live L base st' := by
      simp [live, hst]
    rw [heq, hdrop, live_pushTypes]
  · simp [hlen] at h

theorem live_unreachable (hL : Framed L base) :
    (live L base st).unreachable = dead L base := by
  have h : (live L base st).avail = st.length := live_avail hL
  simp only [Context.unreachable, Context.resetTypeStackToLimit, Context.pushType, h]
  simp [live, dead]

/-! ## Opcodes -/

theorem exists_of_values_ne_nil {t : WasmType} (h : values t ≠ []) :
    ∃ t' : ValueType, t = t' := by
  cases t with
  | i32 => exact ⟨.i32, rfl⟩
  | i64 => exact ⟨.i64, rfl⟩
  | f32 => exact ⟨.f32, rfl⟩
  | f64 => exact ⟨.f64, rfl⟩
  | _ => exact absurd rfl h

theorem live_pushResult {type : WasmType} (h : type = .void ∨ values type ≠ []) :
    (live L base st).pushType type = live L base ((values type).reverse ++ st) := by
  rcases h with rfl | h
  · rfl
  · obtain ⟨t, rfl⟩ := exists_of_values_ne_nil h
    simp [live_pushType]

theorem info_of_unary {op : WasmOpcode}
    (h : op.group = .unary ∨ op.group = .convert ∨ op.group = .load) :
    values op.info.param1Type ≠ [] ∧ values op.info.resultType ≠ [] := by
  cases op <;> first | exact absurd h (by decide) | exact (by decide)

theorem info_of_binary {op : WasmOpcode}
    (h : op.group = .binary ∨ op.group = .compare ∨ op.group = .store) :
    values op.info.param1Type ≠ [] ∧ values op.info.param2Type ≠ [] ∧
      (op.info.resultType = .void ∨ values op.info.resultType ≠ []) := by
  cases op <;> first | exact absurd h (by decide) | exact (by decide)

theorem live_checkOpcode1 (hL : Framed L base) {op : WasmOpcode}
    (hop : op.group = .unary ∨ op.group = .convert ∨ op.group = .load)
    (h : ((live L base st).checkOpcode1 op).ok = true) :
    ∃ st', st = (values op.info.param1Type).reverse ++ st' ∧
      (live L base st).checkOpcode1 op =
        live L base ((values op.info.resultType).reverse ++ st') := by
  obtain ⟨hp, hr⟩ := info_of_unary hop
  obtain ⟨p, hp⟩ := exists_of_values_ne_nil hp
  simp only [Context.checkOpcode1, hp, Context.pushType_ok] at h ⊢
  obtain ⟨st', rfl, heq⟩ := live_popAndCheck1Type hL h
  exact ⟨st', by simp, by rw [heq, live_pushResult (.inr hr)]⟩

theorem live_checkOpcode2 (hL : Framed L base) {op : WasmOpcode}
    (hop : op.group = .binary ∨ op.group = .compare ∨ op.group = .store)
    (h : ((live L base st).checkOpcode2 op).ok = true) :
    ∃ st', st = (values op.info.param1Type ++ values op.info.param2Type).reverse ++ st' ∧
      (live L base st).checkOpcode2 op =
        live L base ((values op.info.resultType).reverse ++ st') := by
  obtain ⟨hp1, hp2, hr⟩ := info_of_binary hop
  obtain ⟨p1, hp1⟩ := exists_of_values_ne_nil hp1
  obtain ⟨p2, hp2⟩ := exists_of_values_ne_nil hp2
  simp only [Context.checkOpcode2, hp1, hp2, Context.pushType_ok] at h ⊢
  obtain ⟨st', rfl, heq⟩ := live_popAndCheck2Types hL h
  exact ⟨st', by simp, by rw [heq, live_pushResult hr]⟩

end

/-! ## Expressions without a body -/

theorem indexOf_of_lookupVar {α : Type} {space : List α} {var : Var} {a : α}
    (h : lookupVar space var = some a) : IndexOf space var a := by
  unfold lookupVar at h
  split at h
  · next hvar =>
    simp only [checkVar, Bool.decide_and, Bool.and_eq_true, decide_eq_true_eq] at hvar
    exact ⟨hvar.1, h⟩
  · cases h

theorem indexOf_of_checkLocalVar {func : Func} {var : Var} {t : ValueType}
    (h : checkLocalVar func var = some t) :
    IndexOf (func.decl.sig.paramTypes ++ func.localTypes)
      (Discipline.checker.localIndex var) t :=
  indexOf_of_lookupVar h

theorem memoryAccess_of_ok {C : TypingContext} {c : Context} {opcode : WasmOpcode}
    {align offset : Nat} (h : (checkMemoryAccess C.module c opcode align offset).ok = true) :
    MemoryAccess C opcode align offset ∧
      checkMemoryAccess C.module c opcode align offset = c := by
  have hok := h
  simp only [checkMemoryAccess, checkHasMemory, Context.require_ok, Bool.and_eq_true] at hok
  obtain ⟨⟨⟨-, hmemory⟩, halign⟩, hoffset⟩ := hok
  have heq : checkMemoryAccess C.module c opcode align offset = c := by
    simp only [checkMemoryAccess, checkHasMemory, Context.require, hmemory, halign, hoffset,
      if_true]
  refine ⟨⟨?_, ?_, by simpa [checkOffset] using hoffset⟩, heq⟩
  · intro hnil
    simp [hnil] at hmemory
  · simpa [checkAlign, isPowerOfTwo, Nat.ne_zero_and_sub_one_eq_zero_iff_isPowerOfTwo]
      using halign

/-- What a successful `check_expr` does to a live context with operands `st`. -/
inductive Checked (C : TypingContext) (e : Expr) (L : List LabelNode) (base : List WasmType) :
    List ValueType → Context → Prop
  | expr {ins outs : List ValueType} (st : List ValueType) :
      ExprType .checker C e ins outs →
      Checked C e L base (ins.reverse ++ st) (live L base (outs.reverse ++ st))
  | jump {ins : List ValueType} (st : List ValueType) :
      Jump .checker C e ins → Checked C e L base (ins.reverse ++ st) (dead L base)
  | indexMissing {var : Var} {results : List ValueType} :
      e = .callIndirect var → C.module.allTables ≠ [] →
      IndexOf C.module.funcTypes var ⟨[], results⟩ →
      Checked C e L base [] (live L base results.reverse)

def Env.typingContext (env : Env) (L : List LabelNode) : TypingContext :=
  ⟨env.module, env.func, L.map LabelNode.branchTypes⟩

theorem live_checkBrTargets {L : List LabelNode} {base : List WasmType} {st : List ValueType}
    (hL : Framed L base) (targets : List Var)
    (h : (targets.foldl (fun c target => c.checkBr target) (live L base st)).ok = true) :
    (∀ target ∈ targets, ∃ types st',
      IndexOf (L.map LabelNode.branchTypes) target types ∧ st = types.reverse ++ st') ∧
      targets.foldl (fun c target => c.checkBr target) (live L base st) = live L base st := by
  induction targets with
  | nil => exact ⟨by simp, rfl⟩
  | cons target targets ih =>
      have hc := Context.foldl_ok (fun _ _ => Context.ok_of_checkBr) targets _ h
      obtain ⟨types, st', htarget, hst, heq⟩ := live_checkBr hL hc
      simp only [List.foldl_cons, heq] at h ⊢
      obtain ⟨htargets, hfold⟩ := ih h
      exact ⟨List.forall_mem_cons.mpr ⟨⟨types, st', htarget, hst⟩, htargets⟩, hfold⟩

theorem checkExpr_live {env : Env} {e : Expr} {L : List LabelNode} {base : List WasmType}
    {st : List ValueType} (hL : Framed L base)
    (h : (checkExpr env e (live L base st)).ok = true) :
    Checked (env.typingContext L) e L base st (checkExpr env e (live L base st)) := by
  cases e with
  | unreachable =>
      simp only [checkExpr, live_unreachable hL]
      exact .jump st .unreachable
  | nop => exact .expr st .nop
  | br var =>
      simp only [checkExpr, Context.unreachable_ok] at h ⊢
      obtain ⟨types, st', hvar, rfl, heq⟩ := live_checkBr hL h
      rw [heq, live_unreachable hL]
      exact .jump st' (.br hvar)
  | brIf var =>
      simp only [checkExpr] at h ⊢
      obtain ⟨st₁, rfl, heq₁⟩ := live_popI32 hL (Context.ok_of_checkBr h)
      rw [heq₁] at h ⊢
      obtain ⟨types, st', hvar, rfl, heq⟩ := live_checkBr hL h
      rw [heq]
      simpa using Checked.expr (L := L) st' (.brIf hvar)
  | brTable targets defaultTarget =>
      simp only [checkExpr, Context.unreachable_ok] at h ⊢
      have htargets := Context.ok_of_checkBr h
      obtain ⟨st₁, rfl, heq₁⟩ := live_popI32 hL
        (Context.foldl_ok (fun _ _ => Context.ok_of_checkBr) _ _ htargets)
      rw [heq₁] at h htargets ⊢
      obtain ⟨hall, heq₂⟩ := live_checkBrTargets hL targets htargets
      rw [heq₂] at h ⊢
      obtain ⟨types, st', hvar, hst, heq⟩ := live_checkBr hL h
      rw [heq, live_unreachable hL]
      have hjump : Jump .checker (env.typingContext L) (.brTable targets defaultTarget)
          (st₁.reverse ++ [.i32]) := by
        apply Jump.brTable
        intro target htarget
        have hsuffix : ∃ types st', IndexOf (L.map LabelNode.branchTypes) target types ∧
            st₁ = types.reverse ++ st' := by
          rcases List.mem_append.mp htarget with hm | hm
          · exact hall target hm
          · rw [List.mem_singleton.mp hm]
            exact ⟨types, st', hvar, hst⟩
        obtain ⟨types, st', hindex, rfl⟩ := hsuffix
        exact ⟨types, hindex, ⟨st'.reverse, by simp⟩, by simp⟩
      simpa using Checked.jump (L := L) [] hjump
  | return_ =>
      simp only [checkExpr, Context.unreachable_ok] at h ⊢
      obtain ⟨st', rfl, heq⟩ := live_checkNTypes hL h
      rw [heq, live_unreachable hL]
      exact .jump st' .return_
  | call var =>
      simp only [checkExpr] at h ⊢
      split at h
      · simp at h
      · next decl hdecl =>
        obtain ⟨st', rfl, heq⟩ := live_checkCall hL h
        rw [heq]
        exact .expr st' (.call (indexOf_of_lookupVar hdecl))
  | callIndirect var =>
      simp only [checkExpr] at h ⊢
      split at h
      · simp at h
      · next sig hsig =>
        have hc := Context.ok_of_checkCall h
        simp only [Context.checkType_ok, Context.popType_ok, Context.require_ok,
          Bool.and_eq_true] at hc
        obtain ⟨⟨-, htable⟩, htype⟩ := hc
        have hnil : env.module.allTables ≠ [] := fun hnil => by simp [hnil] at htable
        simp only [Context.require_eq htable] at h htype ⊢
        simp only [Context.checkType, Context.require_eq htype] at h ⊢
        cases st with
        | nil =>
            -- below the limit `pop_type` answers `i32` and pops nothing
            have hpop : (live L base []).popType = (.i32, live L base []) := by
              simp [Context.popType, live_topType_nil hL, live_avail hL]
            rw [hpop] at h ⊢
            obtain ⟨st', hst, heq⟩ := live_checkCall hL h
            simp only [List.nil_eq, List.append_eq_nil_iff, List.reverse_eq_nil_iff] at hst
            obtain ⟨hparams, rfl⟩ := hst
            rw [heq, List.append_nil]
            exact .indexMissing rfl hnil (hparams ▸ indexOf_of_lookupVar hsig)
        | cons t st =>
            rw [live_popType_cons hL] at h htype ⊢
            obtain ⟨st', rfl, heq⟩ := live_checkCall hL h
            have ht : t = .i32 := by cases t <;> first | rfl | simp [ValueType.toType] at htype
            subst ht
            rw [heq]
            simpa using Checked.expr (C := env.typingContext L) (L := L) st'
              (.callIndirect hnil (indexOf_of_lookupVar hsig))
  | drop =>
      simp only [checkExpr, live_avail hL] at h ⊢
      cases st with
      | nil => simp at h
      | cons t st =>
          simp only [List.length_cons, Nat.le_add_left, if_true, live_popType_cons hL]
          exact .expr st (.drop t)
  | select =>
      have hc : ((live L base st).popAndCheck1Type .i32).ok = true := by
        simp only [checkExpr] at h
        split at h
        · simp only [Context.pushType_ok, Context.checkType_ok, Context.popType_ok,
            Bool.and_eq_true] at h
          exact h.1
        · simp at h
      obtain ⟨st₁, rfl, heq⟩ := live_popI32 hL hc
      simp only [checkExpr, heq, live_avail hL] at h ⊢
      match st₁ with
      | [] => simp at h
      | [_] => simp at h
      | t₁ :: t₂ :: st' =>
          simp only [List.length_cons, Nat.le_add_left, if_true, live_popType_cons hL,
            Context.pushType_ok, Context.checkType_ok] at h ⊢
          have ht : t₂ = t₁ := by simpa using h
          subst ht
          rw [Context.checkType, Context.require_eq (by simp), live_pushType]
          simpa using Checked.expr (C := env.typingContext L) (L := L) st'
            (.select t₂)
  | getLocal var =>
      simp only [checkExpr] at h ⊢
      split at h
      · simp at h
      · next t ht =>
        have hvar := indexOf_of_checkLocalVar ht
        simp only [live_pushType]
        exact .expr (C := env.typingContext L) st (.getLocal hvar)
  | setLocal var =>
      simp only [checkExpr] at h ⊢
      split at h
      · simpa using Context.ok_of_popAndCheck1Type h
      · next t ht =>
        have hvar := indexOf_of_checkLocalVar ht
        obtain ⟨st', rfl, heq⟩ := live_popAndCheck1Type hL h
        rw [heq]
        exact .expr (C := env.typingContext L) st' (.setLocal hvar)
  | teeLocal var =>
      simp only [checkExpr] at h ⊢
      split at h
      · exfalso
        split at h <;> simp at h
      · next t ht =>
        have hvar := indexOf_of_checkLocalVar ht
        simp only [live_avail hL] at h ⊢
        cases st with
        | nil => simp at h
        | cons t' st =>
            simp only [List.length_cons, Nat.le_add_left, if_true]
            exact .expr (C := env.typingContext L) st
              (.teeLocal hvar (by simp))
  | getGlobal var =>
      simp only [checkExpr] at h ⊢
      split at h
      · simp at h
      · next global hglobal =>
        have hvar : IndexOf (env.typingContext L).module.globalTypes var global :=
          indexOf_of_lookupVar hglobal
        simp only [live_pushType]
        exact .expr st (.getGlobal hvar)
  | setGlobal var =>
      simp only [checkExpr] at h ⊢
      split at h
      · simpa using Context.ok_of_popAndCheck1Type h
      · next global hglobal =>
        have hvar : IndexOf (env.typingContext L).module.globalTypes var global :=
          indexOf_of_lookupVar hglobal
        obtain ⟨st', rfl, heq⟩ := live_popAndCheck1Type hL h
        rw [heq]
        exact .expr st' (.setGlobal hvar (by simp))
  | load opcode align offset =>
      simp only [checkExpr] at h ⊢
      have hc := Context.ok_of_popAndCheck1Type (by simpa [Context.checkOpcode1] using h)
      obtain ⟨haccess, heq₁⟩ := memoryAccess_of_ok (C := env.typingContext L) hc
      rw [show env.module = (env.typingContext L).module from rfl, heq₁] at h ⊢
      obtain ⟨st', rfl, heq⟩ := live_checkOpcode1 hL (.inr (.inr opcode.2)) h
      rw [heq]
      exact .expr st' (.load haccess)
  | store opcode align offset =>
      simp only [checkExpr] at h ⊢
      have hc := Context.ok_of_popAndCheck2Types (by simpa [Context.checkOpcode2] using h)
      obtain ⟨haccess, heq₁⟩ := memoryAccess_of_ok (C := env.typingContext L) hc
      rw [show env.module = (env.typingContext L).module from rfl, heq₁] at h ⊢
      obtain ⟨st', rfl, heq⟩ := live_checkOpcode2 hL (.inr (.inr opcode.2)) h
      rw [heq]
      exact .expr st' (.store haccess)
  | currentMemory =>
      simp only [checkExpr, checkHasMemory, Context.pushType_ok] at h ⊢
      have hmemory : env.module.allMemories.length ≠ 0 := by simpa using h
      rw [Context.require_eq (by simpa using hmemory)]
      exact .expr (C := env.typingContext L) st
        (.currentMemory (fun hnil => hmemory (List.length_eq_zero_iff.mpr hnil)))
  | growMemory =>
      simp only [checkExpr, checkHasMemory] at h ⊢
      have hc := Context.ok_of_popAndCheck1Type (by simpa [Context.checkOpcode1] using h)
      have hmemory : env.module.allMemories.length ≠ 0 := by simpa using hc
      rw [Context.require_eq (by simpa using hmemory)] at h ⊢
      simp only [Context.checkOpcode1, Context.pushType_ok] at h ⊢
      obtain ⟨st', rfl, heq⟩ := live_popI32 hL h
      have hpush : ((live L base (.i32 :: st')).popAndCheck1Type .i32).pushType .i32 =
          live L base (.i32 :: st') := by
        rw [heq]
        exact live_pushType .i32
      rw [show WasmOpcode.growMemory.info.param1Type = .i32 from rfl,
        show WasmOpcode.growMemory.info.resultType = .i32 from rfl, hpush]
      exact .expr (C := env.typingContext L) st'
        (.growMemory (fun hnil => hmemory (List.length_eq_zero_iff.mpr hnil)))
  | const const_ =>
      simp only [checkExpr, live_pushType]
      exact .expr st (.const const_)
  | unary opcode =>
      simp only [checkExpr] at h ⊢
      obtain ⟨st', rfl, heq⟩ := live_checkOpcode1 hL (.inl opcode.2) h
      rw [heq]
      exact .expr st' (.unary opcode)
  | binary opcode =>
      simp only [checkExpr] at h ⊢
      obtain ⟨st', rfl, heq⟩ := live_checkOpcode2 hL (.inl opcode.2) h
      rw [heq]
      exact .expr st' (.binary opcode)
  | compare opcode =>
      simp only [checkExpr] at h ⊢
      obtain ⟨st', rfl, heq⟩ := live_checkOpcode2 hL (.inr (.inl opcode.2)) h
      rw [heq]
      exact .expr st' (.compare opcode)
  | convert opcode =>
      simp only [checkExpr] at h ⊢
      obtain ⟨st', rfl, heq⟩ := live_checkOpcode1 hL (.inr (.inl opcode.2)) h
      rw [heq]
      exact .expr st' (.convert opcode)

/-! ## Lists of expressions -/

theorem ok_of_checkExprs {env : Env} (es : ExprList) (c : Context)
    (h : (checkExprs env es c).1.ok = true) : c.ok = true := by
  induction es generalizing c with
  | nil => exact h
  | expr e next ih =>
      simp only [checkExprs] at h
      split at h
      · exact ok_of_checkExpr h
      · exact ok_of_checkExpr (ih _ h)
  | block sig first next ihfirst ihnext =>
      simp only [checkExprs] at h
      have hblock : (endBlock (checkExprs env first (c.pushLabel .block sig))).ok = true := by
        split at h
        · simpa using h
        · simpa using ihnext _ h
      simpa using ihfirst _ (ok_of_endBlock hblock)
  | loop sig first next ihfirst ihnext =>
      simp only [checkExprs] at h
      have hblock : (endBlock (checkExprs env first (c.pushLabel .loop sig))).ok = true := by
        split at h
        · simpa using h
        · simpa using ihnext _ h
      simpa using ihfirst _ (ok_of_endBlock hblock)
  | if_ sig true_ false_ next ihtrue ihfalse ihnext =>
      simp only [checkExprs] at h
      have hblock : (endBlock (checkExprs env false_ (endBlock (checkExprs env true_
          ((c.popAndCheck1Type .i32).pushLabel .if_ sig))))).ok = true := by
        split at h
        · simpa using h
        · simpa using ihnext _ h
      have hfalse := ihfalse _ (ok_of_endBlock hblock)
      have htrue := ihtrue _ (ok_of_endBlock hfalse)
      rw [Context.pushLabel_ok] at htrue
      exact Context.ok_of_popAndCheck1Type htrue

theorem pushLabel_live (L : List LabelNode) (base : List WasmType) (st : List ValueType)
    (labelType : LabelType) (sig : List ValueType) :
    ∃ node : LabelNode, node.labelType = labelType ∧ node.sig = sig ∧
      Framed (node :: L) (st.map ValueType.toType ++ base) ∧
      (live L base st).pushLabel labelType sig =
        live (node :: L) (st.map ValueType.toType ++ base) [] := by
  refine ⟨_, rfl, rfl, ?_, rfl⟩
  simp [Framed, live]

theorem popLabel_live {L : List LabelNode} {base : List WasmType} {st : List ValueType}
    (node : LabelNode) (sig : List ValueType) :
    (live (node :: L) (st.map ValueType.toType ++ base) []).popLabel.pushTypes sig =
      live L base (sig.reverse ++ st) := by
  rw [← live_pushTypes]
  rfl

/-- How a list of expressions leaves a live context with operands `st`. -/
inductive CheckedSeq (C : TypingContext) (es : ExprList) (L : List LabelNode)
    (base : List WasmType) (st : List ValueType) : Context × Bool → Prop
  | live {st' : List ValueType} :
      SeqType .checker C es st st' → CheckedSeq C es L base st (live L base st', true)
  | dead : (∀ st', SeqType .checker C es st st') → CheckedSeq C es L base st (dead L base, false)

theorem endBlock_live {C : TypingContext} {first : ExprList} {node : LabelNode}
    {L : List LabelNode} {base : List WasmType} {r : Context × Bool}
    (hL : Framed (node :: L) base) (hr : CheckedSeq C first (node :: L) base [] r)
    (h : (endBlock r).ok = true) :
    SeqType .checker C first [] node.sig.reverse ∧ endBlock r = live (node :: L) base [] := by
  cases hr with
  | dead hall =>
      refine ⟨hall _, ?_⟩
      simp only [Framed, List.head?_cons, Option.map_some, Option.getD_some] at hL
      simp [endBlock, live, dead, Context.avail, Context.limit, hL]
  | @live st' hseq =>
      simp only [endBlock, if_true, Context.checkTypeStackLimitExact, Context.require_ok,
        Bool.and_eq_true, decide_eq_true_eq] at h ⊢
      have hsig : ((live (node :: L) base st').labels.head?.map (·.sig)).getD [] = node.sig := rfl
      rw [hsig] at h ⊢
      obtain ⟨st₁, hst, heq⟩ := live_checkNTypes hL h.1
      have hlen := h.2
      rw [heq, live_avail hL] at hlen
      have hst₁ : st₁ = [] := by simpa [hst] using hlen
      subst hst₁
      rw [List.append_nil] at hst
      subst hst
      refine ⟨hseq, ?_⟩
      rw [heq, Context.require_eq (by simp [live_avail hL]), live_avail hL]
      simp [live]

theorem CheckedSeq.cons {C : TypingContext} {es next : ExprList} {L : List LabelNode}
    {base : List WasmType} {st st₁ : List ValueType} {r : Context × Bool}
    (hnext : CheckedSeq C next L base st₁ r)
    (hrule : ∀ st', SeqType .checker C next st₁ st' → SeqType .checker C es st st') :
    CheckedSeq C es L base st r := by
  cases hnext with
  | live hseq => exact .live (hrule _ hseq)
  | dead hall => exact .dead fun st' => hrule st' (hall st')

theorem dead_topType {L : List LabelNode} {base : List WasmType} (hL : Framed L base) :
    (dead L base).topType = .any := by
  have havail : (dead L base).avail = 1 := by
    simp only [Framed] at hL
    simp [Context.avail, Context.limit, dead, hL]
  rw [Context.topType, havail]
  rfl

theorem checkExprs_live {env : Env} (es : ExprList) {L : List LabelNode} {base : List WasmType}
    {st : List ValueType} (hL : Framed L base)
    (h : (checkExprs env es (live L base st)).1.ok = true) :
    CheckedSeq (env.typingContext L) es L base st (checkExprs env es (live L base st)) := by
  induction es generalizing L base st with
  | nil => exact .live .nil
  | expr e next ih =>
      simp only [checkExprs] at h ⊢
      have he : (checkExpr env e (live L base st)).ok = true := by
        split at h
        · exact h
        · exact ok_of_checkExprs next _ h
      have hchecked := checkExpr_live hL he
      generalize checkExpr env e (live L base st) = c at h hchecked ⊢
      cases hchecked with
      | jump st hjump =>
          rw [if_pos (dead_topType hL)]
          exact .dead fun st' => .jump [] hjump (by simp)
      | expr st htype =>
          rw [if_neg (live_topType_ne_any hL)] at h ⊢
          exact (ih hL h).cons fun _ hnext => .expr htype hnext
      | indexMissing hvar htable hindex =>
          rw [if_neg (live_topType_ne_any hL)] at h ⊢
          subst hvar
          exact (ih hL h).cons fun _ hnext => .indexMissing rfl htable hindex hnext
  | block sig first next ihfirst ihnext =>
      obtain ⟨node, htype, hsig, hnode, hpush⟩ := pushLabel_live L base st .block sig
      have hblock : (endBlock (checkExprs env first
          ((live L base st).pushLabel .block sig))).ok = true := by
        simp only [checkExprs] at h
        split at h
        · simpa using h
        · simpa using ok_of_checkExprs next _ h
      simp only [checkExprs, hpush] at h hblock ⊢
      obtain ⟨hseq, heq⟩ := endBlock_live hnode (ihfirst hnode (ok_of_endBlock hblock)) hblock
      rw [heq, popLabel_live, if_neg (live_topType_ne_any hL)] at h ⊢
      have hbody : SeqType .checker ((env.typingContext L).pushLabel sig) first []
          sig.reverse := by
        simpa [Env.typingContext, TypingContext.pushLabel, LabelNode.branchTypes, htype, hsig]
          using hseq
      exact (ihnext hL h).cons fun _ hnext => .block hbody hnext
  | loop sig first next ihfirst ihnext =>
      obtain ⟨node, htype, hsig, hnode, hpush⟩ := pushLabel_live L base st .loop sig
      have hblock : (endBlock (checkExprs env first
          ((live L base st).pushLabel .loop sig))).ok = true := by
        simp only [checkExprs] at h
        split at h
        · simpa using h
        · simpa using ok_of_checkExprs next _ h
      simp only [checkExprs, hpush] at h hblock ⊢
      obtain ⟨hseq, heq⟩ := endBlock_live hnode (ihfirst hnode (ok_of_endBlock hblock)) hblock
      rw [heq, popLabel_live, if_neg (live_topType_ne_any hL)] at h ⊢
      have hbody : SeqType .checker ((env.typingContext L).pushLabel []) first []
          sig.reverse := by
        simpa [Env.typingContext, TypingContext.pushLabel, LabelNode.branchTypes, htype, hsig]
          using hseq
      exact (ihnext hL h).cons fun _ hnext => .loop hbody hnext
  | if_ sig true_ false_ next ihtrue ihfalse ihnext =>
      have hblock : (endBlock (checkExprs env false_ (endBlock (checkExprs env true_
          (((live L base st).popAndCheck1Type .i32).pushLabel .if_ sig))))).ok = true := by
        simp only [checkExprs] at h
        split at h
        · simpa using h
        · simpa using ok_of_checkExprs next _ h
      have hbranch := ok_of_checkExprs false_ _ (ok_of_endBlock hblock)
      have hcond := ok_of_checkExprs true_ _ (ok_of_endBlock hbranch)
      rw [Context.pushLabel_ok] at hcond
      obtain ⟨st', rfl, heq⟩ := live_popI32 hL hcond
      obtain ⟨node, htype, hsig, hnode, hpush⟩ := pushLabel_live L base st' .if_ sig
      rw [heq, hpush] at hblock hbranch
      obtain ⟨htrue, heqtrue⟩ :=
        endBlock_live hnode (ihtrue hnode (ok_of_endBlock hbranch)) hbranch
      rw [heqtrue] at hblock
      obtain ⟨hfalse, heqfalse⟩ :=
        endBlock_live hnode (ihfalse hnode (ok_of_endBlock hblock)) hblock
      simp only [checkExprs, heq, hpush, heqtrue, heqfalse, popLabel_live] at h ⊢
      rw [if_neg (live_topType_ne_any hL)] at h ⊢
      have hcontext : (env.typingContext L).pushLabel sig = env.typingContext (node :: L) := by
        simp [Env.typingContext, TypingContext.pushLabel, LabelNode.branchTypes, htype, hsig]
      rw [hsig, ← hcontext] at htrue hfalse
      exact (ihnext hL h).cons fun _ hnext => .if_ htrue hfalse hnext

/-! ## Modules -/

theorem checkFunc_wellTyped {m : Module} {func : Func} (h : checkFunc m func = true) :
    WellTyped .checker m func := by
  simp only [checkFunc, Bool.and_eq_true, decide_eq_true_eq] at h
  obtain ⟨hresults, hdecl, hbody⟩ := h
  have htypeVar : ∀ var ∈ func.decl.typeVar, IndexOf m.funcTypes var func.decl.sig := by
    intro var hvar
    rw [Option.mem_def] at hvar
    simp only [checkFuncDeclaration, hvar, decide_eq_true_eq] at hdecl
    exact indexOf_of_lookupVar hdecl
  obtain ⟨node, htype, hsig, hnode, hpush⟩ := pushLabel_live [] [] []
    .func func.decl.sig.resultTypes
  rw [show ({ typeStack := [], labels := [], ok := true } : Context) = live [] [] [] from rfl,
    hpush] at hbody
  obtain ⟨hseq, -⟩ := endBlock_live hnode
    (checkExprs_live func.firstExpr hnode (ok_of_endBlock hbody)) hbody
  have hcontext : Env.typingContext { module := m, func } [node] =
      ⟨m, func, [func.decl.sig.resultTypes]⟩ := by
    simp [Env.typingContext, LabelNode.branchTypes, htype, hsig]
  rw [hsig, hcontext] at hseq
  exact ⟨htypeVar, hresults, hseq⟩

/-- The bodies of a module without errors are well typed, up to the code that is skipped
after unconditional branches. -/
theorem checkModule_wellTyped {m : Module} (h : checkModule m = true) :
    ∀ func ∈ m.funcs, WellTyped .checker m func := by
  intro func hfunc
  simp only [checkModule, Bool.and_eq_true] at h
  obtain ⟨⟨⟨⟨⟨⟨⟨⟨hfuncs, -⟩, -⟩, -⟩, -⟩, -⟩, -⟩, -⟩, -⟩ := h
  exact checkFunc_wellTyped (List.all_eq_true.mp hfuncs func hfunc)

/-- `unreachable i32.const 0 i64.eqz drop`. -/
def deadMismatch : Func :=
  { decl := ⟨none, ⟨[], []⟩⟩
    localTypes := []
    firstExpr := .expr .unreachable (.expr (.const ⟨.i32, 0⟩)
      (.expr (.convert ⟨.i64Eqz, rfl⟩) (.expr .drop .nil))) }

theorem checkModule_deadMismatch :
    ¬ ∀ m : Module, checkModule m = true → ∀ func ∈ m.funcs, WellTyped .standard m func := by
  intro h
  have hbody := (h { funcs := [deadMismatch] } (by decide +kernel) deadMismatch (by simp)).body
  rcases hbody.expr_inversion with ⟨_, _, _, htype, -⟩ | ⟨_, st₁, -, hconst⟩
  · cases htype
  rcases hconst.expr_inversion with ⟨_, _, st₂, htype, -, heqz⟩ | ⟨_, _, hjump, -⟩
  · cases htype
    rcases heqz.expr_inversion with ⟨_, _, st₃, htype, hst, -⟩ | ⟨_, _, hjump, -⟩
    · cases htype
      -- `i64.eqz` wants an `i64` on top and finds the constant
      simp [WasmOpcode.info, values] at hst
    · cases hjump
  · cases hjump

theorem checkModule_wellTyped_deadMismatch :
    WellTyped .checker { funcs := [deadMismatch] } deadMismatch :=
  checkModule_wellTyped (m := { funcs := [deadMismatch] }) (by decide +kernel) deadMismatch
    (List.mem_singleton_self _)

end Validator

end SexprWasm
