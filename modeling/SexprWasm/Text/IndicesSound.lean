import SexprWasm.Text.Indices
import SexprWasm.Ast.ValidatorSound
import SexprWasm.Literal.IntegerSound

/-!
# Checked indices

A number keeps its value from the text to the check on it, unless it is
so large that it is outside of every index space before and after
(`index_of_numeral`). The check on it then finds the entry it stands
for, and a module without errors has passed every such check
(`accepts_of_place`).
-/

namespace SexprWasm

namespace Literal

open Digits

theorem parseHexdigit_le {c : UInt8} {d : Nat} (h : parseHexdigit c = some d) : d ≤ 16 := by
  unfold parseHexdigit at h
  split_ifs at h with h₁ h₂ h₃ <;> cases h
  · exact (h₁.2.trans (by decide))
  · have := h₂.2
    omega
  · have := h₃.2
    omega

theorem forall_of_mapM {digit? : UInt8 → Option Nat} {P : Nat → Prop}
    (hP : ∀ c d, digit? c = some d → P d) {cs : List UInt8} {ds : List Nat}
    (h : cs.mapM digit? = some ds) : ∀ d ∈ ds, P d := by
  induction cs generalizing ds with
  | nil =>
    cases h
    simp
  | cons c cs ih =>
    simp only [List.mapM_cons, Option.bind_eq_bind, Option.bind_eq_some_iff, Option.pure_def,
      Option.some.injEq] at h
    obtain ⟨d, hd, ds', hds', rfl⟩ := h
    exact List.forall_mem_cons.mpr ⟨hP c d hd, ih hds'⟩

theorem digits_le {s : List UInt8} {b : Nat} {ds : List Nat} (h : digitsOf s = some (b, ds)) :
    b ≤ 16 ∧ ∀ d ∈ ds, d ≤ 16 := by
  unfold digitsOf at h
  split at h
  · cases h
  · split_ifs at h
    obtain ⟨_, hds, heq⟩ := Option.map_eq_some_iff.mp h
    cases heq
    exact ⟨le_rfl, forall_of_mapM (fun _ _ => parseHexdigit_le) hds⟩
  · obtain ⟨_, hds, heq⟩ := Option.map_eq_some_iff.mp h
    cases heq
    exact ⟨by decide, forall_of_mapM (fun _ _ hd => (parseDigit_lt hd).le.trans (by decide)) hds⟩

variable {s : List UInt8} {n v : Nat}

theorem parseUint64_of_lt (hn : Numeral s n) (hlt : n < 2 ^ 64) : parseUint64 s = some n := by
  obtain ⟨b, ds, hds, -, rfl⟩ := numeral_iff.mp hn
  exact parseUint64_eq_some.mpr
    ⟨b, ds, hds, neverDrops_of_lt (IntParser.base_pos hds) hlt, (Nat.mod_eq_of_lt hlt).symm⟩

/-- What is read for a numeral is its number modulo `2 ^ 64`; where that is small it is the
number itself. -/
theorem parseUint64_numeral (hn : Numeral s n) (hv : parseUint64 s = some v) :
    v = n % 2 ^ 64 ∧ (v < 2 ^ 59 → n = v) := by
  obtain ⟨b, ds, hds, -, rfl⟩ := numeral_iff.mp hn
  obtain ⟨_, _, hds', hnever, rfl⟩ := parseUint64_eq_some.mp hv
  cases hds.symm.trans hds'
  obtain ⟨hb, hle⟩ := digits_le hds
  refine ⟨rfl, fun hlt => ?_⟩
  have hmul := Nat.mul_le_mul_left (value b ds % 2 ^ 64) hb
  exact (Nat.mod_eq_of_lt (value_lt_of_neverDrops hle hnever (by omega))).symm

end Literal

namespace Text

variable {m : Module} {ctx : ResolveNames.Context} {kind : VarKind} {text : List UInt8}
  {n : Nat} {index : Int}

theorem resolveUse_index :
    ResolveNames.resolveUse m kind (.index index) ctx = .ok (.index index) ctx := by
  cases kind <;> rfl

theorem readIndex_eq :
    readIndex m ctx kind text = (Literal.parseUint64 text).map fun v : Nat => cInt64 v := by
  unfold readIndex natVar
  cases Literal.parseUint64 text with
  | none => rfl
  | some v => simp [resolveUse_index]

/-- The index read for a number is the number, or both are beyond all index spaces. -/
structure ReadAs (n : Nat) (index : Int) : Prop where
  same : index = n ∨ 2 ^ 31 ≤ n ∧ (index < 0 ∨ 2 ^ 31 ≤ index)
  cInt_eq : cInt index = cInt n

theorem readAs_of_numeral (hn : Literal.Numeral text n)
    (h : readIndex m ctx kind text = some index) : ReadAs n index := by
  rw [readIndex_eq] at h
  obtain ⟨v, hv, rfl⟩ := Option.map_eq_some_iff.mp h
  obtain ⟨hmod, hsmall⟩ := Literal.parseUint64_numeral hn hv
  have hlt64 : v < 2 ^ 64 := hmod ▸ Nat.mod_lt _ (by decide)
  have hcInt : cInt64 v = if v < 2 ^ 63 then (v : Int) else v - 2 ^ 64 := by
    simp only [cInt64, maxU64, Int.bmod_def]
    split_ifs <;> omega
  constructor
  · rw [hcInt]
    by_cases hlt : v < 2 ^ 59
    · left
      rw [if_pos (by omega), hsmall hlt]
    · right
      split_ifs <;> omega
  · have hemod : cInt64 v % maxU32 = n % maxU32 := by
      rw [hcInt, maxU32]
      split_ifs <;> omega
    rw [cInt, cInt, ← Int.emod_bmod, hemod, Int.emod_bmod]

theorem lt_of_readIndex_none (hn : Literal.Numeral text n)
    (h : readIndex m ctx kind text = none) : 2 ^ 64 ≤ n := by
  by_contra hlt
  rw [readIndex_eq, Literal.parseUint64_of_lt hn (by omega)] at h
  cases h

end Text

namespace Validator

open Ast
open Text (VarKind exportKind readIndex writtenIndex ReadAs)

variable {n : Nat} {index : Int}

/-! ## The check finds the entry -/

theorem checkVar_iff {size : Nat} {var : Int} (hfit : size < 2 ^ 31) :
    checkVar size var = true ↔ 0 ≤ var ∧ var < size := by
  have hsize : cInt size = size := cInt_of_lt (Int.natCast_nonneg _) (by exact_mod_cast hfit)
  rw [checkVar, hsize]
  exact decide_eq_true_iff

section space

variable {α : Type} {space : List α}

theorem lookupVar_natCast (hfit : space.length < 2 ^ 31) : lookupVar space (n : Int) = space[n]? := by
  rw [lookupVar, Int.toNat_natCast]
  split_ifs with hvar
  · rfl
  · rw [checkVar_iff hfit] at hvar
    exact (List.getElem?_eq_none (by omega)).symm

theorem lookupVar_eq_none {var : Int} (hfit : space.length < 2 ^ 31)
    (h : var < 0 ∨ space.length ≤ var) : lookupVar space var = none := by
  rw [lookupVar, if_neg]
  rw [checkVar_iff hfit]
  omega

theorem lookupVar_readAs (hfit : space.length < 2 ^ 31) (h : ReadAs n index) :
    lookupVar space index = space[n]? := by
  rcases h.same with rfl | ⟨hn, hindex⟩
  · exact lookupVar_natCast hfit
  · rw [List.getElem?_eq_none (by omega), lookupVar_eq_none hfit (by omega)]

/-- The conversion to `int` moves an index of `2 ^ 32` or more to its last 32 bits. -/
theorem lookupVar_cInt (hfit : space.length < 2 ^ 31)
    (hlow : n < 2 ^ 32 ∨ space.length ≤ n % 2 ^ 32) (h : ReadAs n index) :
    lookupVar space (cInt index) = space[n]? := by
  rw [h.cInt_eq]
  by_cases hn : n < 2 ^ 31
  · rw [cInt_of_lt (Int.natCast_nonneg _) (by exact_mod_cast hn)]
    exact lookupVar_natCast hfit
  · rw [List.getElem?_eq_none (by omega)]
    refine lookupVar_eq_none hfit ?_
    simp only [cInt, maxU32, Int.bmod_def]
    split_ifs <;> omega

end space

theorem findLabelByVar_readAs {labels : List LabelNode} (hfit : labels.length < 2 ^ 31)
    (h : ReadAs n index) : findLabelByVar labels index = labels[n]? := by
  rw [findLabelByVar]
  rcases h.same with rfl | ⟨hn, hindex⟩
  · rw [if_pos (Int.natCast_nonneg _), Int.toNat_natCast]
  · rw [List.getElem?_eq_none (i := n) (by omega)]
    split_ifs with hvar
    · have hle : 0 ≤ index := hvar
      exact List.getElem?_eq_none (by omega)
    · rfl

section

variable {m : Module} {func : Func} {labels : List LabelNode} {kind : VarKind}

theorem finds_readAs (hfit : spaceSize m func labels kind < 2 ^ 31)
    (hlocal : kind = .local_ → n < 2 ^ 32 ∨ (localTypes func).length ≤ n % 2 ^ 32)
    (h : ReadAs n index) : Finds m func labels kind index n := by
  cases kind with
  | label => exact findLabelByVar_readAs hfit h
  | local_ => exact lookupVar_cInt hfit (hlocal rfl) h
  | func | global | funcType | table | memory => exact lookupVar_readAs hfit h

theorem accepts_iff (h : Finds m func labels kind index n) :
    accepts m func labels kind index = true ↔ n < spaceSize m func labels kind := by
  cases kind <;> simp only [Finds] at h <;> simp [accepts, spaceSize, h]

/-- An index below `2 ^ 31` is written as it is. -/
theorem writtenIndex_readAs (hn : n < 2 ^ 31) (h : ReadAs n index) :
    writtenIndex kind index = n := by
  rcases h.same with rfl | ⟨hle, -⟩
  · have hcInt : cInt n = n := cInt_of_lt (Int.natCast_nonneg _) (by exact_mod_cast hn)
    cases kind <;> simp only [writtenIndex, hcInt, maxU32] <;> omega
  · omega

end

/-! ## Every check on an index is passed -/

namespace Context

variable (c : Context)

@[simp] theorem checkType_labels (actual expected : WasmType) :
    (c.checkType actual expected).labels = c.labels := by
  unfold checkType require
  split_ifs <;> rfl

@[simp] theorem checkTopTypes_labels (expected : List ValueType) :
    (c.checkTopTypes expected).labels = c.labels := by
  unfold checkTopTypes
  generalize (c.typeStack.take expected.length).reverse.zip expected = types
  induction types generalizing c with
  | nil => rfl
  | cons p types ih => rw [List.foldl_cons, ih, checkType_labels]

@[simp] theorem popAndCheck1Type_labels (expected : WasmType) :
    (c.popAndCheck1Type expected).labels = c.labels := by
  unfold popAndCheck1Type popType
  split_ifs
  · rw [checkType_labels]
  · rw [checkType_labels]
  · rfl

@[simp] theorem checkBr_labels (var : Var) : (c.checkBr var).labels = c.labels := by
  unfold checkBr checkNTypes
  split
  · rfl
  · split_ifs
    · rfl
    · exact checkTopTypes_labels c _
    · rfl

variable {c}

theorem label_of_checkBr {var : Var} (h : (c.checkBr var).ok = true) :
    (findLabelByVar c.labels var).isSome = true := by
  unfold checkBr at h
  split at h
  · cases h
  · rename_i hnode
    rw [hnode, Option.isSome_some]

/-- The targets of a `br_table`. -/
theorem labels_of_checkBr {targets : List Var}
    (h : (targets.foldl (fun c target => c.checkBr target) c).ok = true) :
    ∀ var ∈ targets, (findLabelByVar c.labels var).isSome = true := by
  induction targets generalizing c with
  | nil => simp
  | cons target targets ih =>
    rw [List.foldl_cons] at h
    have hrest := ih h
    rw [checkBr_labels] at hrest
    have htarget := foldl_ok (fun _ _ => ok_of_checkBr) targets (c.checkBr target) h
    exact List.forall_mem_cons.mpr ⟨label_of_checkBr htarget, hrest⟩

theorem checkBrs_labels (targets : List Var) :
    (targets.foldl (fun c target => c.checkBr target) c).labels = c.labels := by
  induction targets generalizing c with
  | nil => rfl
  | cons target targets ih => rw [List.foldl_cons, ih, checkBr_labels]

end Context

open Context in
/-- The indices of an expression without errors. -/
theorem accepts_of_checkExpr {env : Env} {e : Expr} {c : Context} {kind : VarKind} {var : Var}
    (h : (checkExpr env e c).ok = true) (hvar : (kind, var) ∈ e.vars) :
    accepts env.module env.func c.labels kind var = true := by
  cases e with
  | br target =>
    cases List.mem_singleton.mp hvar
    exact label_of_checkBr ((unreachable_ok _).symm.trans h)
  | brIf target =>
    cases List.mem_singleton.mp hvar
    have hlabel := label_of_checkBr h
    rwa [popAndCheck1Type_labels] at hlabel
  | brTable targets defaultTarget =>
    have hok : ((targets.foldl (fun c target => c.checkBr target)
        (c.popAndCheck1Type .i32)).checkBr defaultTarget).ok = true :=
      (unreachable_ok _).symm.trans h
    rcases List.mem_append.mp hvar with htarget | hdefault
    · obtain ⟨target, hmem, heq⟩ := List.mem_map.mp htarget
      cases heq
      have hlabel := labels_of_checkBr (ok_of_checkBr hok) _ hmem
      rwa [popAndCheck1Type_labels] at hlabel
    · cases List.mem_singleton.mp hdefault
      have hlabel := label_of_checkBr hok
      rwa [checkBrs_labels, popAndCheck1Type_labels] at hlabel
  | call target | callIndirect target | getLocal target | getGlobal target =>
    cases List.mem_singleton.mp hvar
    rw [accepts, Option.isSome_iff_ne_none]
    intro hnone
    simp [checkExpr, hnone] at h
  | setLocal target | setGlobal target =>
    cases List.mem_singleton.mp hvar
    rw [accepts, Option.isSome_iff_ne_none]
    intro hnone
    simp only [checkExpr, hnone] at h
    cases ok_of_popAndCheck1Type h
  | teeLocal target =>
    cases List.mem_singleton.mp hvar
    rw [accepts, Option.isSome_iff_ne_none]
    intro hnone
    simp only [checkExpr, hnone] at h
    split_ifs at h
    · cases h
    · simp at h
  | _ => cases hvar

theorem ok_of_checkIf {env : Env} {sig : List ValueType} {true_ false_ next : ExprList}
    {c : Context} (h : (checkExprs env (.if_ sig true_ false_ next) c).1.ok = true) :
    (endBlock (checkExprs env false_ (endBlock (checkExprs env true_
      ((c.popAndCheck1Type .i32).pushLabel .if_ sig))))).ok = true := by
  simp only [checkExprs] at h
  split_ifs at h
  · simpa using h
  · simpa using ok_of_checkExprs _ _ h

/-- A body without errors has passed the checks on the expressions that are reached. -/
theorem ok_of_reaches {env : Env} {es : ExprList} {c c' : Context} {e : Expr}
    (hreach : Reaches env es c e c') (h : (checkExprs env es c).1.ok = true) :
    (checkExpr env e c').ok = true := by
  induction hreach with
  | here =>
    simp only [checkExprs] at h
    split_ifs at h
    · exact h
    · exact ok_of_checkExprs _ _ h
  | next live rest ih =>
    simp only [checkExprs, if_neg live] at h
    exact ih h
  | inBlock body ih | inLoop body ih =>
    refine ih (ok_of_endBlock ?_)
    simp only [checkExprs] at h
    split_ifs at h
    · simpa using h
    · simpa using ok_of_checkExprs _ _ h
  | afterBlock block live rest ih | afterLoop block live rest ih | afterIf block live rest ih =>
    subst block
    simp only [checkExprs, if_neg live] at h
    exact ih h
  | inTrue body ih => exact ih (ok_of_endBlock (ok_of_checkExprs _ _ (ok_of_endBlock (ok_of_checkIf h))))
  | inFalse body ih => exact ih (ok_of_endBlock (ok_of_checkIf h))

theorem accepts_of_checkFuncDeclaration {m : Module} {decl : FuncDeclaration} {var : Var}
    (func : Func) (h : checkFuncDeclaration m decl = true) (hvar : decl.typeVar = some var) :
    accepts m func [] .funcType var = true := by
  simp only [checkFuncDeclaration, hvar, decide_eq_true_eq] at h
  rw [accepts, h, Option.isSome_some]

theorem accepts_of_checkConstInitExpr {m : Module} {i : Nat} {e : ExprList} {type : ValueType}
    {var : Var} (func : Func) (h : checkConstInitExpr m i e type = true)
    (he : e = .expr (.getGlobal var) .nil) : accepts m func [] .global var = true := by
  subst he
  rw [accepts, Option.isSome_iff_ne_none]
  intro hnone
  simp [checkConstInitExpr, hnone] at h

theorem accepts_of_checkExport {m : Module} {export_ : Export} (func : Func)
    (h : checkExport m export_ = true) :
    accepts m func [] (exportKind export_.kind) export_.var = true := by
  unfold checkExport at h
  split at h <;> rename_i hkind <;> rw [hkind]
  · exact h
  · exact h
  · exact h
  · split at h
    · cases h
    · rename_i hglobal
      simp [exportKind, accepts, hglobal]

/-- A module without errors has passed the check at every place of an index. -/
theorem accepts_of_place {m : Module} {func : Func} {labels : List LabelNode} {kind : VarKind}
    {var : Var} (h : checkModule m = true) (hplace : Place m func labels kind var) :
    accepts m func labels kind var = true := by
  simp only [checkModule, Bool.and_eq_true] at h
  obtain ⟨⟨⟨⟨⟨⟨⟨⟨hfuncs, hglobals⟩, himports⟩, hexports⟩, -⟩, -⟩, hstart⟩, helems⟩, hdatas⟩ := h
  rw [List.all_eq_true] at hfuncs hglobals himports hexports helems hdatas
  cases hplace with
  | body func_mem reaches var_mem =>
    have hfunc := hfuncs _ func_mem
    simp only [checkFunc, Bool.and_eq_true] at hfunc
    have hbody : (endBlock (checkExprs ⟨m, func⟩ func.firstExpr (.atBody func))).ok = true :=
      hfunc.2.2
    have hexprs : (checkExprs ⟨m, func⟩ func.firstExpr (.atBody func)).1.ok = true :=
      ok_of_endBlock hbody
    have hexpr := ok_of_reaches reaches hexprs
    have haccepts := accepts_of_checkExpr hexpr var_mem
    exact haccepts
  | funcType func_mem typeVar =>
    have hfunc := hfuncs _ func_mem
    simp only [checkFunc, Bool.and_eq_true] at hfunc
    exact accepts_of_checkFuncDeclaration func hfunc.2.1 typeVar
  | importType func import_mem kind typeVar =>
    have himport := himports _ import_mem
    simp only [checkImport, kind, typeVar] at himport
    exact himport
  | initExpr func global_mem init =>
    obtain ⟨i, hi⟩ := List.getElem?_of_mem global_mem
    have hglobal := hglobals (_, i) (List.mem_zipIdx_iff_getElem?.mpr hi)
    exact accepts_of_checkConstInitExpr func hglobal init
  | export_ func export_mem => exact accepts_of_checkExport func (hexports _ export_mem)
  | start func start_mem =>
    rw [checkStart, Bool.and_eq_true, List.all_eq_true] at hstart
    have hvar := hstart.2 _ start_mem
    rw [accepts, Option.isSome_iff_ne_none]
    intro hnone
    simp [hnone] at hvar
  | elemTable func segment_mem =>
    have hsegment := helems _ segment_mem
    rw [checkElemSegment, Bool.and_eq_true] at hsegment
    exact hsegment.1
  | elemOffset func segment_mem offset =>
    have hsegment := helems _ segment_mem
    rw [checkElemSegment, Bool.and_eq_true, Bool.and_eq_true] at hsegment
    exact accepts_of_checkConstInitExpr func hsegment.2.2 offset
  | elemVar func segment_mem var_mem =>
    have hsegment := helems _ segment_mem
    rw [checkElemSegment, Bool.and_eq_true, Bool.and_eq_true, List.all_eq_true] at hsegment
    exact hsegment.2.1 _ var_mem
  | dataMemory func segment_mem =>
    have hsegment := hdatas _ segment_mem
    rw [checkDataSegment, Bool.and_eq_true] at hsegment
    exact hsegment.1
  | dataOffset func segment_mem offset =>
    have hsegment := hdatas _ segment_mem
    rw [checkDataSegment, Bool.and_eq_true] at hsegment
    exact accepts_of_checkConstInitExpr func hsegment.2 offset

/-- A number below `2 ^ 32` in the place of a local, and any number in another place, is accepted
exactly if it is below the size of its index space; the check finds the entry of that number,
and the number is what is written. -/
theorem index_checked {tm : Text.Module} {ctx : Text.ResolveNames.Context} {m : Module}
    {func : Func} {labels : List LabelNode} {kind : VarKind} {text : List UInt8} {n : Nat}
    (hn : Literal.Numeral text n) (hfit : spaceSize m func labels kind < 2 ^ 31)
    (hlocal : kind = .local_ → n < 2 ^ 32 ∨ spaceSize m func labels kind ≤ n % 2 ^ 32) :
    (readIndex tm ctx kind text = none → spaceSize m func labels kind ≤ n) ∧
    ∀ index, readIndex tm ctx kind text = some index →
      Finds m func labels kind index n ∧
      (accepts m func labels kind index = true ↔ n < spaceSize m func labels kind) ∧
      (accepts m func labels kind index = true → writtenIndex kind index = n) ∧
      (checkModule m = true → Place m func labels kind index →
        n < spaceSize m func labels kind) := by
  constructor
  · intro hnone
    have hle := Text.lt_of_readIndex_none hn hnone
    omega
  · intro index hindex
    have hread := Text.readAs_of_numeral hn hindex
    have hfinds : Finds m func labels kind index n := by
      refine finds_readAs hfit (fun hkind => ?_) hread
      subst hkind
      exact hlocal rfl
    have hiff := accepts_iff hfinds
    refine ⟨hfinds, hiff, fun haccepts => ?_, fun hok hplace => ?_⟩
    · exact writtenIndex_readAs ((hiff.mp haccepts).trans hfit) hread
    · exact hiff.mp (accepts_of_place hok hplace)

/-- `unreachable get_local 7`, without parameters and locals. -/
def deadIndex : Func :=
  { decl := ⟨none, ⟨[], []⟩⟩
    localTypes := []
    firstExpr := .expr .unreachable (.expr (.getLocal 7) .nil) }

theorem checkModule_deadIndex :
    ¬ ∀ (m : Module) (func : Func) (e : Expr) (next : ExprList) (text : List UInt8) (n : Nat)
      (index : Var), func ∈ m.funcs → Literal.Numeral text n →
      readIndex {} {} .local_ text = some index →
      func.firstExpr = .expr e (.expr (.getLocal index) next) → checkModule m = true →
      n < (localTypes func).length := by
  intro h
  have hseven : Literal.Numeral [0x37] 7 :=
    .num ⟨by decide, [7], by decide, by decide⟩
  have hlt := h { funcs := [deadIndex] } deadIndex .unreachable .nil [0x37] 7 7 (by simp) hseven
    (by decide) rfl (by decide +kernel)
  exact absurd hlt (by decide)

/-- The start function of `(module (func ..) (start 0))`. -/
theorem index_checked_start :
    0 < spaceSize { funcs := [deadIndex], starts := [0] } deadIndex [] .func ∧
      writtenIndex .func 0 = 0 := by
  have hzero : Literal.Numeral [0x30] 0 := .num ⟨by decide, [0], by decide, by decide⟩
  have hchecked := @index_checked {} {} { funcs := [deadIndex], starts := [0] } deadIndex []
    .func [0x30] 0 hzero (by decide) (by decide)
  obtain ⟨-, hiff, hwritten, hplace⟩ := hchecked.2 0 (by decide)
  have hlt := hplace (by decide +kernel) (.start _ (by simp))
  exact ⟨hlt, hwritten (hiff.mpr hlt)⟩

end Validator

end SexprWasm
