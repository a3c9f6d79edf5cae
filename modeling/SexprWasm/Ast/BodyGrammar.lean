import SexprWasm.Ast.ReadBinary
import SexprWasm.BinaryReader.Bodies
import SexprWasm.Lib.Nesting

/-!
# The grammar of function bodies

What `wasm_read_binary_ast` lets through as a function body. The
low-level reader asks only that the last opcode of a body is an `end`,
and makes no callback for it; the callbacks keep a label stack, and the
body is over when one more label is popped, whichever it is. So the
bodies that are accepted are not only the well-nested ones. They are the
well-nested ones exactly if the first `end` that has no `block`, `loop`
or `if` to close is the last opcode of its body.

`labelStep` is the effect of an instruction on the label stack, cut down
to the two facts the callbacks look at: how many labels there are and
which of them are `LABEL_TYPE_IF`.
-/

namespace SexprWasm

/-- How an opcode nests. -/
def OpcodeGroup.bracket : OpcodeGroup → Bracket
  | .block | .loop => .opening false
  | .if_ => .opening true
  | .else_ => .separator
  | .end_ => .closing
  | _ => .plain

def WasmOpcode.bracket (op : WasmOpcode) : Bracket := op.group.bracket

namespace Ast

open BinaryReader

/-- The bytes of a body end with the `end` that closes it, and what comes before is
well nested. -/
def WellFormedBody (data : List UInt8) (mid : List (Nat × Event)) (endOffset : Nat) : Prop :=
  ∃ w, opcodes mid = w ++ [(endOffset, .end_)] ∧
    Nested WasmOpcode.bracket (w.map Prod.snd) ∧
    (data[endOffset - 1]?).map UInt8.toNat = some WasmOpcode.end_.code

/-! ## The label stack -/

/-- Which labels are `LABEL_TYPE_IF`, top first. -/
def ReadContext.shape (c : ReadContext) : List Bool :=
  c.labelStack.map fun label => label.owner.labelType = .if_

def labelStep : List Bool → Bracket → Option (List Bool)
  | b :: st, .plain => some (b :: st)
  | st, .opening separable => some (separable :: st)
  | true :: b :: st, .separator => some (false :: b :: st)
  | _ :: st, .closing => some st
  | _, _ => none

theorem labelStep_opening (separable : Bool) (st : List Bool) :
    labelStep st (.opening separable) = some (separable :: st) := by
  cases st <;> rfl

theorem labelStep_closing (b : Bool) (st : List Bool) :
    labelStep (b :: st) .closing = some st := by
  cases b <;> cases st <;> rfl

def labelRun : List Bool → List WasmOpcode → Option (List Bool)
  | st, [] => some st
  | st, op :: ops => (labelStep st op.bracket).bind fun st' => labelRun st' ops

theorem labelRun_append : ∀ (ops ops' : List WasmOpcode) (st : List Bool),
    labelRun st (ops ++ ops') = (labelRun st ops).bind fun st' => labelRun st' ops'
  | [], _, _ => rfl
  | op :: ops, ops', st => by
      simp only [List.cons_append, labelRun, Option.bind_assoc]
      congr 1
      funext st'
      exact labelRun_append ops ops' st'

theorem shape_plug (c : ReadContext) (label : LabelNode) (rest : List LabelNode) :
    (c.plug label rest).shape = rest.map fun label => decide (label.owner.labelType = .if_) := by
  unfold ReadContext.plug ReadContext.shape
  cases label.owner <;> cases rest <;> rfl

theorem appendExpr_shape {e : Expr} {c c' : ReadContext} {u : Unit}
    (h : appendExpr e c = .ok u c') : labelStep c.shape .plain = some c'.shape := by
  unfold appendExpr at h
  cases hs : c.labelStack with
  | nil => rw [hs] at h; cases h
  | cons label rest =>
      rw [hs] at h
      cases h
      simp [ReadContext.shape, hs, labelStep]

theorem popLabel_shape {c c' : ReadContext} {u : Unit} (h : popLabel c = .ok u c') :
    ∃ b, c.shape = b :: c'.shape := by
  unfold popLabel at h
  cases hs : c.labelStack with
  | nil => rw [hs] at h; cases h
  | cons label rest =>
      rw [hs] at h
      cases h
      exact ⟨decide (label.owner.labelType = .if_), by rw [shape_plug, ReadContext.shape, hs]; rfl⟩

theorem onElseExpr_shape {c c' : ReadContext} {u : Unit} (h : onElseExpr c = .ok u c') :
    labelStep c.shape .separator = some c'.shape := by
  unfold onElseExpr at h
  rcases hs : c.labelStack with _ | ⟨⟨owner, es⟩, _ | ⟨parent, rest⟩⟩
  · rw [hs] at h; cases h
  · rw [hs] at h; cases owner <;> cases h
  · rw [hs] at h
    cases owner <;> cases h
    simp [ReadContext.shape, hs, labelStep, LabelOwner.labelType]

/-- An accepted instruction changes the label stack by its bracket. -/
theorem onExpr_shape {instr : Instr} {c c' : ReadContext} {u : Unit}
    (h : onExpr instr c = .ok u c') :
    labelStep c.shape instr.opcode.bracket = some c'.shape := by
  have hplain : ∀ {opcode : WasmOpcode} {e : Expr}, opcode.bracket = .plain →
      appendExpr e c = .ok u c' → labelStep c.shape opcode.bracket = some c'.shape :=
    fun hb h => hb ▸ appendExpr_shape h
  have hbracket : ∀ {g : OpcodeGroup} (opcode : OpcodeOf g), g.bracket = .plain →
      opcode.val.bracket = .plain :=
    fun opcode hb => by rw [WasmOpcode.bracket, opcode.property, hb]
  cases instr with
  | block => cases h; exact labelStep_opening _ _
  | loop => cases h; exact labelStep_opening _ _
  | if_ => cases h; exact labelStep_opening _ _
  | else_ => exact onElseExpr_shape h
  | end_ =>
      obtain ⟨b, hb⟩ := popLabel_shape h
      rw [hb]
      exact labelStep_closing b _
  | call funcIndex =>
      obtain ⟨_, _, hget, h⟩ := Callback.bind_eq_ok.mp h
      cases hget
      obtain ⟨_, _, hassert, h⟩ := Callback.bind_eq_ok.mp h
      obtain ⟨-, rfl⟩ := Callback.assert_eq_ok.mp hassert
      exact hplain rfl h
  | callIndirect sigIndex =>
      obtain ⟨_, _, hget, h⟩ := Callback.bind_eq_ok.mp h
      cases hget
      obtain ⟨_, _, hassert, h⟩ := Callback.bind_eq_ok.mp h
      obtain ⟨-, rfl⟩ := Callback.assert_eq_ok.mp hassert
      exact hplain rfl h
  | load opcode => exact hplain (hbracket opcode rfl) h
  | store opcode => exact hplain (hbracket opcode rfl) h
  | unary opcode => exact hplain (hbracket opcode rfl) h
  | binary opcode => exact hplain (hbracket opcode rfl) h
  | compare opcode => exact hplain (hbracket opcode rfl) h
  | convert opcode => exact hplain (hbracket opcode rfl) h
  | _ => exact hplain rfl h

/-! ## Callbacks that leave the labels alone -/

abbrev KeepsLabels {α : Type} (m : ReadAst α) : Prop :=
  Callback.Keeps ReadContext.labelStack m

instance KeepsLabels.updateModule (f : Module → Module) : KeepsLabels (modifyModule f) :=
  Callback.Keeps.modify fun _ => rfl

instance onImportKind_keepsLabels (index : Nat) (kind : ImportKind) :
    KeepsLabels (onImportKind index kind) :=
  fun labels => ⟨fun c hc => by simp [onImportKind, hc]⟩

instance setInitExpr_keepsLabels (expr : ExprList) (slot : InitExprSlot) :
    KeepsLabels (setInitExpr expr slot) := by
  intro labels
  cases slot <;> (simp only [setInitExpr]; infer_instance)

instance beginInitExpr_keepsLabels (slot : InitExprSlot) : KeepsLabels (beginInitExpr slot) :=
  Callback.Keeps.modify fun _ => rfl

instance endInitExpr_keepsLabels : KeepsLabels endInitExpr :=
  Callback.Keeps.modify fun _ => rfl

def touchesLabels : Event → Bool
  | .beginFunctionBody _ | .endFunctionBody _ | .onExpr _ => true
  | _ => false

theorem astReader_keepsLabels {e : Event} (he : touchesLabels e = false) :
    KeepsLabels (astReader e) := by
  intro labels
  cases e with
  | beginFunctionBody | endFunctionBody | onExpr => cases he
  | onImport =>
      simp only [astReader]
      exact Callback.Preserves.modify fun _ h => h
  | onExport index kind itemIndex name =>
      simp only [astReader, onExport]
      cases kind <;> infer_instance
  | _ =>
      simp only [astReader, onImportFunc, onFunctionSignature, onStartFunction,
        onFunctionBodiesCount, onLocalDecl, onInitExpr, beginElemSegment,
        onElemSegmentFunctionIndex, beginDataSegment, onDataSegmentData, onFunctionNamesCount,
        onLocalNamesCount]
      infer_instance

/-! ## One body -/

/-- One opcode of a body, with the labels above the function's `t`: the function's own
label is only popped by the closing opcode that `closesLast` finds. -/
theorem labelStep_of_closesLast {op : WasmOpcode} {rest : List WasmOpcode} {t st : List Bool}
    (hclose : closesLast WasmOpcode.bracket t.length (op :: rest)) (hrest : rest ≠ [])
    (hstep : labelStep (t ++ [false]) op.bracket = some st) :
    ∃ t', nestStep t op.bracket = some t' ∧ st = t' ++ [false] ∧
      closesLast WasmOpcode.bracket t'.length rest := by
  cases hb : op.bracket with
  | plain =>
      simp only [closesLast, hb] at hclose
      rw [hb] at hstep
      refine ⟨t, rfl, ?_, hclose⟩
      cases t <;> cases hstep <;> rfl
  | opening separable =>
      simp only [closesLast, hb] at hclose
      rw [hb, labelStep_opening] at hstep
      cases hstep
      exact ⟨separable :: t, rfl, rfl, hclose⟩
  | separator =>
      simp only [closesLast, hb] at hclose
      rw [hb] at hstep
      rcases t with _ | ⟨b, t⟩
      · cases hstep
      · cases b
        · cases hstep
        · refine ⟨false :: t, rfl, ?_, hclose⟩
          cases t <;> cases hstep <;> rfl
  | closing =>
      simp only [closesLast, hb] at hclose
      rw [hb] at hstep
      rcases t with _ | ⟨b, t⟩
      · exact absurd (List.isEmpty_iff.mp hclose) hrest
      · rw [List.cons_append, labelStep_closing] at hstep
        cases hstep
        exact ⟨t, by cases b <;> rfl, rfl, hclose⟩

/-- Up to any point of a body, the function's label is at the bottom and the labels
above it are those of `nestRun`. -/
theorem labelRun_of_closesLast {v : List WasmOpcode} : ∀ {u : List WasmOpcode} {t st : List Bool},
    closesLast WasmOpcode.bracket t.length (u ++ v ++ [.end_]) →
    labelRun (t ++ [false]) (u ++ v) = some st →
      ∃ t', labelRun (t ++ [false]) u = some (t' ++ [false]) ∧
        nestRun WasmOpcode.bracket t u = some t' ∧
        closesLast WasmOpcode.bracket t'.length (v ++ [.end_]) ∧
        labelRun (t' ++ [false]) v = some st
  | [], t, st, hclose, hrun => ⟨t, rfl, rfl, hclose, hrun⟩
  | op :: u, t, st, hclose, hrun => by
      obtain ⟨st₁, hstep, hrun⟩ := Option.bind_eq_some_iff.mp hrun
      obtain ⟨t₁, hnest, rfl, hclose⟩ := labelStep_of_closesLast hclose (by simp) hstep
      obtain ⟨t', hlabels, hnest', hclose', hrest⟩ := labelRun_of_closesLast hclose hrun
      refine ⟨t', ?_, ?_, hclose', hrest⟩
      · rw [labelRun, hstep, Option.bind_some, hlabels]
      · rw [nestRun, hnest, Option.bind_some, hnest']

theorem nested_of_closesLast {ops : List WasmOpcode} {st : List Bool}
    (hclose : closesLast WasmOpcode.bracket 0 (ops ++ [.end_]))
    (hrun : labelRun [false] ops = some st) : Nested WasmOpcode.bracket ops ∧ st = [false] := by
  obtain ⟨t, hlabels, hnest, hlast, -⟩ :=
    labelRun_of_closesLast (u := ops) (v := []) (t := []) (by simpa using hclose)
      (by simpa using hrun)
  cases t with
  | nil =>
      refine ⟨nested_iff.mpr hnest, ?_⟩
      rw [List.nil_append, hrun] at hlabels
      exact Option.some.inj hlabels
  | cons b t => cases hlast

/-! ## Runs -/

variable {data : List UInt8} {p p' : Proto}

/-- The state after the callbacks `es`, if all of them have succeeded. -/
def StateAfter (es : List (Nat × Event)) (c c' : ReadContext) : Prop :=
  runEvents astReader (es.map Prod.snd) c = .ok () c'

theorem stateAfter_append {es es' : List (Nat × Event)} {c c'' : ReadContext} :
    StateAfter (es ++ es') c c'' ↔ ∃ c', StateAfter es c c' ∧ StateAfter es' c' c'' := by
  simp only [StateAfter, List.map_append, runEvents_append_ok]

theorem stateAfter_cons {e : Nat × Event} {es : List (Nat × Event)} {c c'' : ReadContext} :
    StateAfter (e :: es) c c'' ↔
      ∃ c', astReader e.2 c = .ok () c' ∧ StateAfter es c' c'' := by
  simp only [StateAfter, List.map_cons, runEvents_cons]
  cases astReader e.2 c with
  | ok u c' => simp
  | error c' => simp
  | abort => simp

/-- The callbacks inside a body change the labels as its instructions do. -/
theorem labelRun_of_body : ∀ {mid : List (Nat × Event)} {p : Proto} {c c' : ReadContext},
    (∀ e ∈ mid, isBodyEvent e.2) → Emit.accept (Proto.step data) p mid = some p' →
    StateAfter mid c c' → labelRun c.shape (exprOpcodes mid) = some c'.shape
  | [], p, c, c', _, _, hrun => by
      cases hrun
      rfl
  | (o, e) :: mid, p, c, c', hmid, hacc, hrun => by
      obtain ⟨p₁, hstep, hacc⟩ := Option.bind_eq_some_iff.mp hacc
      obtain ⟨c₁, he, hrun⟩ := stateAfter_cons.mp hrun
      have ih := labelRun_of_body (fun e' he' => hmid e' (by simp [he'])) hacc hrun
      have hb : isBodyEvent e := hmid (o, e) (by simp)
      rw [exprOpcodes_cons]
      cases e <;> cases hb
      case onExpr instr =>
        show labelRun c.shape (instr.opcode :: exprOpcodes mid) = some c'.shape
        rw [labelRun, onExpr_shape he, Option.bind_some, ih]
      all_goals
        have hkeep : c₁.shape = c.shape :=
          congrArg (List.map _) ((astReader_keepsLabels rfl).of_ok he)
        rw [hkeep] at ih
        exact ih

theorem beginFunctionBody_shape {i : Nat} {c c' : ReadContext} {u : Unit}
    (h : beginFunctionBody i c = .ok u c') : c'.shape = false :: c.shape := by
  obtain ⟨_, _, hget, h⟩ := Callback.bind_eq_ok.mp h
  cases hget
  obtain ⟨_, _, hassert, h⟩ := Callback.bind_eq_ok.mp h
  obtain ⟨-, rfl⟩ := Callback.assert_eq_ok.mp hassert
  cases h
  rfl

theorem endFunctionBody_shape {c c' : ReadContext} {u : Unit}
    (h : endFunctionBody c = .ok u c') : ∃ b, c.shape = b :: c'.shape := by
  obtain ⟨_, c₁, hpop, h⟩ := Callback.bind_eq_ok.mp h
  cases h
  obtain ⟨b, hb⟩ := popLabel_shape hpop
  exact ⟨b, hb⟩

/-- What the protocol says of a whole body: its opcodes are those with a callback and a
last `end`, which is the last byte. -/
theorem opcodes_of_body {mid : List (Nat × Event)} {o i q : Nat}
    (hmid : ∀ e ∈ mid, isEndFunctionBody e.2 = false)
    (hacc : Emit.accept (Proto.step data) p ((o, .beginFunctionBody i) :: mid ++
      [(q, .endFunctionBody i)]) = some p') :
    (∀ e ∈ mid, isBodyEvent e.2) ∧
      (∃ p₁ p₂, Emit.accept (Proto.step data) p₁ mid = some p₂) ∧
      (data[q - 1]?).map UInt8.toNat = some WasmOpcode.end_.code ∧
      ∃ w, opcodes mid = w ++ [(q, .end_)] ∧ w.map Prod.snd = exprOpcodes mid := by
  rw [List.cons_append] at hacc
  obtain ⟨p₁, hbegin, hacc⟩ := Option.bind_eq_some_iff.mp hacc
  rw [Emit.accept_append] at hacc
  obtain ⟨p₂, hacc, hend⟩ := Option.bind_eq_some_iff.mp hacc
  obtain ⟨_, hend, -⟩ := Option.bind_eq_some_iff.mp hend
  obtain ⟨n, -, -, -, rfl⟩ := step_beginFunctionBody hbegin
  obtain ⟨n', hph, -⟩ := step_endFunctionBody hend
  obtain ⟨-, -, hbody, hbyte, w, hw, hops⟩ := accept_body rfl hmid hacc
  refine ⟨hbody, ⟨_, p₂, hacc⟩, ?_, w, ?_, hops⟩
  · rcases hbyte _ _ _ _ hph with heq | hbyte
    · rw [hph] at heq
      cases heq
    · exact hbyte
  · rw [hph] at hw
    simpa [pending] using hw

/-- A body that starts with an empty label stack and closes last is well formed, and
leaves the stack empty. -/
theorem body_spec {mid : List (Nat × Event)} {o i q : Nat} {c₀ c₁ : ReadContext}
    (hmid : ∀ e ∈ mid, isEndFunctionBody e.2 = false)
    (hacc : Emit.accept (Proto.step data) p ((o, .beginFunctionBody i) :: mid ++
      [(q, .endFunctionBody i)]) = some p')
    (hrun : StateAfter ((o, .beginFunctionBody i) :: mid ++ [(q, .endFunctionBody i)]) c₀ c₁)
    (hempty : c₀.shape = [])
    (hclose : closesLast WasmOpcode.bracket 0 ((opcodes mid).map Prod.snd)) :
    WellFormedBody data mid q ∧ c₁.shape = [] := by
  obtain ⟨hbody, ⟨p₁, p₂, hacc⟩, hbyte, w, hw, hops⟩ := opcodes_of_body hmid hacc
  obtain ⟨c₂, hrun, hend⟩ := stateAfter_append.mp hrun
  obtain ⟨c₃, hbegin, hrun⟩ := stateAfter_cons.mp hrun
  obtain ⟨c₄, hend, hnil⟩ := stateAfter_cons.mp hend
  cases hnil
  have hlabels := labelRun_of_body hbody hacc hrun
  rw [beginFunctionBody_shape hbegin, hempty] at hlabels
  rw [hw, List.map_append, hops] at hclose
  obtain ⟨hnested, hshape⟩ := nested_of_closesLast hclose hlabels
  refine ⟨⟨w, hw, hops ▸ hnested, hbyte⟩, ?_⟩
  obtain ⟨b, hb⟩ := endFunctionBody_shape hend
  rw [hshape] at hb
  exact (List.cons.inj hb).2.symm

theorem exprOpcodes_append (es es' : List (Nat × Event)) :
    exprOpcodes (es ++ es') = exprOpcodes es ++ exprOpcodes es' :=
  List.filterMap_append ..

/-- At any point of a body as in `body_spec`, the function's label is still there. -/
theorem body_labels {mid mid' : List (Nat × Event)} {o i q : Nat} {c₀ c₁ c₂ : ReadContext}
    (hmid : ∀ e ∈ mid ++ mid', isEndFunctionBody e.2 = false)
    (hacc : Emit.accept (Proto.step data) p ((o, .beginFunctionBody i) :: (mid ++ mid') ++
      [(q, .endFunctionBody i)]) = some p')
    (hrun : StateAfter ((o, .beginFunctionBody i) :: mid) c₀ c₁)
    (hrun' : StateAfter mid' c₁ c₂) (hempty : c₀.shape = [])
    (hclose : closesLast WasmOpcode.bracket 0 ((opcodes (mid ++ mid')).map Prod.snd)) :
    c₁.labelStack ≠ [] := by
  obtain ⟨hbody, ⟨p₁, p₂, hacc⟩, -, w, hw, hops⟩ := opcodes_of_body hmid hacc
  obtain ⟨c₃, hbegin, hrun⟩ := stateAfter_cons.mp hrun
  have hlabels := labelRun_of_body hbody hacc (stateAfter_append.mpr ⟨c₁, hrun, hrun'⟩)
  rw [Emit.accept_append] at hacc
  obtain ⟨p₃, hacc, -⟩ := Option.bind_eq_some_iff.mp hacc
  have hprefix := labelRun_of_body (fun e he => hbody e (List.mem_append_left _ he)) hacc hrun
  rw [beginFunctionBody_shape hbegin, hempty] at hlabels hprefix
  rw [hw, List.map_append, hops, exprOpcodes_append] at hclose
  rw [exprOpcodes_append] at hlabels
  obtain ⟨t, ht, -⟩ := labelRun_of_closesLast (t := []) hclose hlabels
  rw [List.nil_append, hprefix] at ht
  intro hnil
  rw [ReadContext.shape, hnil] at ht
  simp at ht

/-! ## Whole reads -/

/-- Function bodies are well formed, the label stack is empty after each of them, and every
instruction finds a label, so that no failure of `append_expr` is passed over. -/
structure BodyGrammar (tr : List (Nat × Event)) (data : List UInt8) : Prop where
  wellFormed : ∀ pre i mid q, HasBody tr pre i mid q → WellFormedBody data mid q
  emptyAfter : ∀ pre o i post c, tr = pre ++ (o, .endFunctionBody i) :: post →
    StateAfter (pre ++ [(o, .endFunctionBody i)]) {} c → c.labelStack = []
  findsLabel : ∀ pre o instr post c, tr = pre ++ (o, .onExpr instr) :: post →
    StateAfter pre {} c → c.labelStack ≠ []

/-- In every body, the first `end` with no `block`, `loop` or `if` to close is the last
opcode. -/
def BodiesCloseLast (tr : List (Nat × Event)) : Prop :=
  ∀ pre i mid q, HasBody tr pre i mid q →
    closesLast WasmOpcode.bracket 0 ((opcodes mid).map Prod.snd)

/-- Between two bodies the label stack is empty. -/
theorem shape_outside {tr : List (Nat × Event)} (hclose : BodiesCloseLast tr) (n : Nat) :
    ∀ {pre post : List (Nat × Event)} {p : Proto} {c : ReadContext}, pre.length = n →
      tr = pre ++ post → Emit.accept (Proto.step data) .initial pre = some p →
      inBody p.phase = false → StateAfter pre {} c → c.shape = [] := by
  induction n using Nat.strongRecOn with
  | _ n ih =>
    intro pre post p c hlen htr hacc hp hrun
    rcases List.eq_nil_or_concat pre with rfl | ⟨es, e, rfl⟩
    · cases hrun
      rfl
    rw [List.concat_eq_append] at htr hacc hrun hlen
    rw [List.length_append] at hlen
    obtain ⟨c', hrun', he⟩ := stateAfter_append.mp hrun
    rw [Emit.accept_append] at hacc
    obtain ⟨p', hacc', hstep⟩ := Option.bind_eq_some_iff.mp hacc
    obtain ⟨_, hstep, hnil⟩ := Option.bind_eq_some_iff.mp hstep
    cases hnil
    obtain ⟨_, he, hnil⟩ := stateAfter_cons.mp he
    cases hnil
    obtain ⟨o, e⟩ := e
    cases hp' : inBody p'.phase with
    | false =>
        have hshape := ih es.length (by simp at hlen; omega) rfl
          (by rw [htr, List.append_assoc]) hacc' hp' hrun'
        have htouch : touchesLabels e = false := by
          cases e <;> try rfl
          · obtain ⟨n, -, -, -, rfl⟩ := step_beginFunctionBody hstep
            cases hp
          · obtain ⟨n, k, o', code, hph, -⟩ := step_onExpr hstep
            rw [hph] at hp'
            cases hp'
          · obtain ⟨n, hph, -⟩ := step_endFunctionBody hstep
            rw [hph] at hp'
            cases hp'
        have hkeep := (astReader_keepsLabels htouch).of_ok he
        rw [ReadContext.shape, hkeep]
        exact hshape
    | true =>
        obtain ⟨i, rfl⟩ : ∃ i, e = .endFunctionBody i := by
          by_contra hne
          have hend : isEndFunctionBody e = false := by
            cases e <;> try rfl
            exact absurd ⟨_, rfl⟩ hne
          cases hb : isBodyEvent e with
          | false => rw [step_inBody hp' hb hend] at hstep; cases hstep
          | true => rw [(step_body hb hstep).1] at hp; cases hp
        obtain ⟨n', hph, -⟩ := step_endFunctionBody hstep
        obtain ⟨pre', o', j, mid, p₁, rfl, hidx, hpre, hp₁, hmid⟩ := accept_split rfl es hacc' hp'
        rw [hph] at hidx
        cases hidx
        obtain ⟨c₁, hrun₁, hrun₂⟩ := stateAfter_append.mp hrun'
        have hempty : c₁.shape = [] :=
          ih pre'.length (by simp at hlen; omega) rfl (by rw [htr, List.append_assoc,
            List.append_assoc]) hpre hp₁ hrun₁
        rw [Emit.accept_append_some hpre] at hacc'
        have hbodyAcc : Emit.accept (Proto.step data) p₁ ((o', .beginFunctionBody i) :: mid ++
            [(o, .endFunctionBody i)]) = some p := by
          rw [Emit.accept_append_some hacc']
          simp [Emit.accept_cons, hstep]
        have hbodyRun : StateAfter ((o', .beginFunctionBody i) :: mid ++
            [(o, .endFunctionBody i)]) c₁ c :=
          stateAfter_append.mpr ⟨c', hrun₂, stateAfter_cons.mpr ⟨c, he, rfl⟩⟩
        have hbody : HasBody tr pre' i mid o := ⟨⟨o', post, by rw [htr]; simp⟩, hmid⟩
        exact (body_spec hmid hbodyAcc hbodyRun hempty (hclose pre' i mid o hbody)).2

/-- A read that succeeds has accepted well-formed bodies exactly if they close last. -/
theorem wasmReadBinaryAst_bodyGrammar_iff {options : ReadBinaryOptions} {data : List UInt8}
    {c : ReadContext} (h : wasmReadBinaryAst options data = .ok () c) :
    BodyGrammar (trace { data, options }) data ↔ BodiesCloseLast (trace { data, options }) := by
  obtain ⟨p, hacc, hfinished, hrun⟩ := trace_complete h
  constructor
  · intro hg pre i mid q hbody
    obtain ⟨w, hw, hnested, -⟩ := hg.wellFormed pre i mid q hbody
    rw [hw, List.map_append, closesLast_append hnested]
    rfl
  · intro hclose
    have hprefix : ∀ {pre post : List (Nat × Event)}, trace { data, options } = pre ++ post →
        ∃ p₁ c₁, Emit.accept (Proto.step data) .initial pre = some p₁ ∧
          Emit.accept (Proto.step data) p₁ post = some p ∧
          StateAfter pre {} c₁ ∧ StateAfter post c₁ c := by
      intro pre post htr
      rw [htr] at hacc hrun
      rw [Emit.accept_append] at hacc
      obtain ⟨p₁, hpre, hpost⟩ := Option.bind_eq_some_iff.mp hacc
      obtain ⟨c₁, hrunPre, hrunPost⟩ := stateAfter_append.mp hrun
      exact ⟨p₁, c₁, hpre, hpost, hrunPre, hrunPost⟩
    have houtside : ∀ {pre post : List (Nat × Event)} {p₁ : Proto} {c₁ : ReadContext},
        trace { data, options } = pre ++ post →
        Emit.accept (Proto.step data) .initial pre = some p₁ → inBody p₁.phase = false →
        StateAfter pre {} c₁ → c₁.shape = [] :=
      fun htr hpre hp₁ hrun₁ => shape_outside hclose _ rfl htr hpre hp₁ hrun₁
    have hempty : ∀ {c₁ : ReadContext}, c₁.shape = [] → c₁.labelStack = [] :=
      fun hshape => List.map_eq_nil_iff.mp hshape
    refine ⟨?_, ?_, ?_⟩
    · rintro pre i mid q ⟨⟨o, post, htr⟩, hmid⟩
      have htr' : trace { data, options } = pre ++ ((o, .beginFunctionBody i) :: mid ++
          [(q, .endFunctionBody i)] ++ post) := by rw [htr]; simp
      obtain ⟨p₁, c₁, hpre, hpost, hrunPre, hrunPost⟩ := hprefix htr'
      rw [Emit.accept_append] at hpost
      obtain ⟨p₂, hbodyAcc, -⟩ := Option.bind_eq_some_iff.mp hpost
      obtain ⟨c₂, hbodyRun, -⟩ := stateAfter_append.mp hrunPost
      have hp₁ : inBody p₁.phase = false := by
        obtain ⟨_, hbegin, -⟩ := Option.bind_eq_some_iff.mp hbodyAcc
        obtain ⟨n, hph, -⟩ := step_beginFunctionBody hbegin
        rw [hph]
        rfl
      exact (body_spec hmid hbodyAcc hbodyRun (houtside htr' hpre hp₁ hrunPre)
        (hclose pre i mid q ⟨⟨o, post, htr⟩, hmid⟩)).1
    · intro pre o i post c₁ htr hrun₁
      have htr' : trace { data, options } = (pre ++ [(o, .endFunctionBody i)]) ++ post := by
        rw [htr]; simp
      obtain ⟨p₁, c₁', hpre, -, hrunPre, -⟩ := hprefix htr'
      obtain rfl : c₁' = c₁ := by
        rw [StateAfter, hrun₁] at hrunPre
        cases hrunPre
        rfl
      refine hempty (houtside htr' hpre ?_ hrunPre)
      rw [Emit.accept_append] at hpre
      obtain ⟨_, -, hend⟩ := Option.bind_eq_some_iff.mp hpre
      obtain ⟨_, hend, hnil⟩ := Option.bind_eq_some_iff.mp hend
      cases hnil
      obtain ⟨n, -, rfl⟩ := step_endFunctionBody hend
      rfl
    · intro pre o instr post c₁ htr hrun₁
      obtain ⟨p₁, c₁', hpre, hpost, hrunPre, hrunPost⟩ := hprefix htr
      obtain rfl : c₁' = c₁ := by
        rw [StateAfter, hrun₁] at hrunPre
        cases hrunPre
        rfl
      have hp₁ : inBody p₁.phase := by
        obtain ⟨_, hstep, -⟩ := Option.bind_eq_some_iff.mp hpost
        obtain ⟨n, k, o', code, hph, -⟩ := step_onExpr hstep
        rw [hph]
        rfl
      obtain ⟨pre', o', i, mid, p₂, rfl, hidx, hpre', hp₂, hmid⟩ := accept_split rfl pre hpre hp₁
      obtain ⟨mid', q, i', post', hsplit, hidx', hmid'⟩ :=
        accept_exit hp₁ (by rw [hfinished]; rfl) hpost
      obtain rfl : i' = i := Option.some.inj (hidx'.symm.trans hidx)
      rw [hsplit] at htr hpost hrunPost
      have htr' : trace { data, options } = pre' ++ (o', .beginFunctionBody i') :: (mid ++ mid') ++
          (q, .endFunctionBody i') :: post' := by rw [htr]; simp
      have hnoEnd : ∀ e ∈ mid ++ mid', isEndFunctionBody e.2 = false := by
        intro e he
        rcases List.mem_append.mp he with he | he
        · exact hmid e he
        · exact hmid' e he
      obtain ⟨c₂, hrunPre', hrunMid⟩ := stateAfter_append.mp hrunPre
      obtain ⟨c₃, hrunMid', -⟩ := stateAfter_append.mp hrunPost
      have hbodyAcc : ∃ p₃, Emit.accept (Proto.step data) p₂ ((o', .beginFunctionBody i') ::
          (mid ++ mid') ++ [(q, .endFunctionBody i')]) = some p₃ := by
        have hall : trace { data, options } = pre' ++ ((o', .beginFunctionBody i') ::
            (mid ++ mid') ++ [(q, .endFunctionBody i')] ++ post') := by rw [htr']; simp
        rw [hall, Emit.accept_append_some hpre', Emit.accept_append] at hacc
        exact (Option.bind_eq_some_iff.mp hacc).imp fun _ h => h.1
      obtain ⟨p₃, hbodyAcc⟩ := hbodyAcc
      exact body_labels hnoEnd hbodyAcc hrunMid hrunMid'
        (houtside (by rw [htr, List.append_assoc]) hpre' hp₂ hrunPre')
        (hclose pre' i' _ q ⟨⟨o', post', htr'⟩, hnoEnd⟩)

/-- A module with one function of the body `block`, `end`. -/
def unclosedBlock : List UInt8 :=
  [0x00, 0x61, 0x73, 0x6d, 0x0d, 0x00, 0x00, 0x00,
   0x01, 0x04, 0x01, 0x60, 0x00, 0x00,
   0x03, 0x02, 0x01, 0x00,
   0x0a, 0x06, 0x01, 0x04, 0x00, 0x02, 0x40, 0x0b]

/-- The function's label is left over, and the block's has been popped in its stead. -/
theorem unclosedBlock_read : wasmReadBinaryAst { readDebugNames := false } unclosedBlock = .ok ()
    { module :=
        { funcTypes := [{ paramTypes := [], resultTypes := [] }]
          funcs := [{
            decl := { typeVar := some 0, sig := { paramTypes := [], resultTypes := [] } }
            localTypes := []
            firstExpr := .nil }] }
      labelStack := [⟨.func 0, .block [] .nil .nil⟩] } := by
  decide +kernel

theorem wasmReadBinaryAst_bodyGrammar_iff_unclosedBlock :
    let inp : Input := { data := unclosedBlock, options := { readDebugNames := false } }
    BodyGrammar (trace inp) unclosedBlock ↔ BodiesCloseLast (trace inp) :=
  wasmReadBinaryAst_bodyGrammar_iff unclosedBlock_read

theorem unclosedBlock_accepted : ¬∀ (options : ReadBinaryOptions) (data : List UInt8)
    (c : ReadContext), wasmReadBinaryAst options data = .ok () c →
      BodyGrammar (trace { data, options }) data := by
  intro h
  let inp : Input := { data := unclosedBlock, options := { readDebugNames := false } }
  let mid : List (Nat × Event) :=
    [(23, .onLocalDeclCount 0), (24, .onOpcode 2), (25, .onExpr (.block [])), (26, .onOpcode 11)]
  have htrace : trace inp = (trace inp).take 14 ++ (21, .beginFunctionBody 0) :: mid ++
      (26, .endFunctionBody 0) :: [(26, .endFunctionBodiesSection), (26, .endModule)] := by
    decide +kernel
  have hbody : HasBody (trace inp) ((trace inp).take 14) 0 mid 26 :=
    ⟨⟨21, _, htrace⟩, by decide⟩
  obtain ⟨w, hw, hnested, -⟩ := (h _ unclosedBlock _ unclosedBlock_read).wellFormed _ _ _ _ hbody
  have hops : opcodes mid = [(24, .block)] ++ [(26, .end_)] := by
    decide +kernel
  rw [← List.append_cancel_right (hops.symm.trans hw), nested_iff] at hnested
  cases hnested

end Ast

end SexprWasm
