import SexprWasm.Interpreter.Instructions

/-!
# The value stack as a list

`Holds m vs` says that `vs` are the entries in use, the last of them on
top. The macros that pop and push are given by what they make of `vs`
(`unop_run`, `binop_run`). Pops leave the entries, so what is pushed goes
over the entry of the first operand: `overlay` says which of its bits
stay, and `overlay_mod` that the type that was pushed does not see them.
-/

namespace SexprWasm

namespace ValueType

variable {type : ValueType} {entry v : Nat}

/-- What `POP_I32` and the others get is what was pushed at the same type. -/
theorem overlay_mod : type.overlay entry v % 2 ^ type.bits = v % 2 ^ type.bits := by
  rw [overlay, Nat.mul_comm, Nat.mul_add_mod, Nat.mod_mod]

theorem ofNat_overlay : BitVec.ofNat type.bits (type.overlay entry v) = BitVec.ofNat type.bits v := by
  apply BitVec.eq_of_toNat_eq
  rw [BitVec.toNat_ofNat, BitVec.toNat_ofNat, overlay_mod]

end ValueType

namespace Interpreter

namespace Machine

open Callback

variable {m : Machine} {vs ws : List Nat} {a b entry index height : Nat}

/-! ## Updates -/

@[simp] theorem put_env : (m.put index entry).env = m.env := rfl

@[simp] theorem put_pc : (m.put index entry).pc = m.pc := rfl

@[simp] theorem put_result : (m.put index entry).result = m.result := rfl

@[simp] theorem setTop_env : (m.setTop height).env = m.env := rfl

@[simp] theorem setTop_pc : (m.setTop height).pc = m.pc := rfl

@[simp] theorem setTop_valueStack :
    (m.setTop height).thread.valueStack = m.thread.valueStack := rfl

@[simp] theorem setTop_valueStackTop : (m.setTop height).thread.valueStackTop = height := rfl

@[simp] theorem setTop_setTop {height' : Nat} :
    (m.setTop height).setTop height' = m.setTop height' := rfl

@[simp] theorem setTop_put : (m.setTop height).put index entry = m.put index entry := rfl

@[simp] theorem length_put :
    (m.put index entry).thread.valueStack.length = m.thread.valueStack.length :=
  List.length_set

/-! ## The entries in use -/

/-- `vs` are the entries in use, the last on top. -/
structure Holds (m : Machine) (vs : List Nat) : Prop where
  top_eq : m.thread.valueStackTop = vs.length
  entries : vs <+: m.thread.valueStack

namespace Holds

theorem length_le (h : m.Holds vs) : vs.length ≤ m.thread.valueStack.length :=
  h.entries.length_le

theorem getElem? (h : m.Holds (vs ++ a :: ws)) : m.thread.valueStack[vs.length]? = some a := by
  obtain ⟨rest, hrest⟩ := h.entries
  rw [← hrest, List.append_assoc, List.getElem?_append_right le_rfl, Nat.sub_self]
  rfl

/-- The entries below are in use after a pop. -/
theorem setTop (h : m.Holds (vs ++ ws)) : (m.setTop vs.length).Holds vs :=
  ⟨rfl, (List.prefix_append vs ws).trans h.entries⟩

/-- What is put on top of entries in use. -/
theorem put (h : m.Holds (vs ++ ws)) (hlt : vs.length < m.thread.valueStack.length) :
    (m.put vs.length entry).Holds (vs ++ [entry]) := by
  obtain ⟨rest, hrest⟩ := (List.prefix_append vs ws).trans h.entries
  refine ⟨by simp [Machine.put], ?_⟩
  change vs ++ [entry] <+: m.thread.valueStack.set vs.length entry
  rw [← hrest] at hlt ⊢
  cases rest with
  | nil => simp at hlt
  | cons old rest =>
    rw [List.set_append_right _ _ le_rfl, Nat.sub_self, List.set_cons_zero]
    exact ⟨rest, by simp⟩

theorem length_lt (h : m.Holds (vs ++ a :: ws)) : vs.length < m.thread.valueStack.length := by
  have hle := h.length_le
  rw [List.length_append, List.length_cons] at hle
  omega

end Holds

/-! ## Branches and traps -/

theorem ite_run {α : Type} {c : Prop} [Decidable c] {f g : Exec α} :
    (if c then f else g) m = if c then f m else g m := by
  split <;> rfl

@[simp] theorem trap_run {α : Type} (result : Result) :
    (trap result : Exec α) m = .error { m with result } := rfl

@[simp] theorem trapIf_run (cond : Bool) (result : Result) :
    trapIf cond result m = if cond then .error { m with result } else .ok () m := by
  cases cond <;> rfl

@[simp] theorem trapUnless_run (cond : Bool) (result : Result) :
    trapUnless cond result m = if cond then .ok () m else .error { m with result } := by
  cases cond <;> rfl

/-! ## Pops and pushes -/

theorem pick_run (h : m.Holds (vs ++ [a])) : pick 1 m = .ok a m := by
  have hlen : m.thread.valueStackTop = vs.length + 1 := by simp [h.top_eq]
  simp [pick, bind_run, hlen, h.getElem?]

theorem pop_run (h : m.Holds (vs ++ [a])) : pop m = .ok a (m.setTop vs.length) := by
  have hlen : m.thread.valueStackTop = vs.length + 1 := by simp [h.top_eq]
  simp [pop, bind_run, pick_run h, hlen]

theorem popType_run {type : ValueType} (h : m.Holds (vs ++ [a])) :
    popType type m = .ok (BitVec.ofNat type.bits a) (m.setTop vs.length) := by
  simp [popType, bind_run, pop_run h]

theorem checkStack_run (hlt : m.thread.valueStackTop < m.thread.valueStack.length) :
    checkStack m = .ok () m := by
  simp [checkStack, bind_run, Nat.not_le.mpr hlt]

theorem push_run (htop : m.thread.valueStackTop = height)
    (hlt : height < m.thread.valueStack.length) : push entry m = .ok () (m.put height entry) := by
  subst htop
  simp [push, bind_run, checkStack_run hlt]

theorem pushType_run {type : ValueType} {v : Nat} (htop : m.thread.valueStackTop = height)
    (hentry : m.thread.valueStack[height]? = some entry) :
    pushType type v m = .ok () (m.put height (type.overlay entry v)) := by
  subst htop
  have hlt := (List.getElem?_eq_some_iff.mp hentry).1
  simp [pushType, bind_run, checkStack_run hlt, List.getD_eq_getElem?_getD, hentry]

/-! ## Instructions of one and of two operands -/

theorem unop_run {rtype type : ValueType} {f : BitVec type.bits → Nat} (h : m.Holds (vs ++ [a])) :
    unop rtype type f m =
      .ok () (m.put vs.length (rtype.overlay a (f (BitVec.ofNat type.bits a)))) := by
  rw [unop, bind_run, popType_run h]
  exact pushType_run rfl h.getElem?

theorem binop_run {rtype type : ValueType} {op : BitVec type.bits → BitVec type.bits → Nat}
    (h : m.Holds (vs ++ [a, b])) :
    binop rtype type op m =
      .ok () (m.put vs.length
        (rtype.overlay a (op (BitVec.ofNat type.bits a) (BitVec.ofNat type.bits b)))) := by
  have hrhs : m.Holds ((vs ++ [a]) ++ [b]) := by simpa using h
  have hlhs : (m.setTop (vs ++ [a]).length).Holds (vs ++ [a]) := hrhs.setTop
  rw [binop, bind_run, popType_run hrhs]
  dsimp only
  rw [bind_run, popType_run hlhs]
  exact pushType_run rfl h.getElem?

/-! ## A machine with a given stack -/

/-- A full stack, and nothing else. -/
def ofStack (vs : List Nat) : Machine where
  env := {}
  thread := { valueStack := vs, valueStackTop := vs.length, callStack := [] }

theorem ofStack_holds (vs : List Nat) : (ofStack vs).Holds vs := ⟨rfl, List.prefix_rfl⟩

end Machine

/-- No memory is left, and all floats are 0. -/
def Platform.null : Platform where
  realloc _ _ := none
  fpu := ⟨fun _ _ _ => 0, fun _ _ _ _ => 0, fun _ _ => 0, fun _ => 0, fun _ => 0⟩

end Interpreter

end SexprWasm
