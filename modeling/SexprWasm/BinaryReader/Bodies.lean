import Mathlib.Data.List.Induction
import SexprWasm.BinaryReader.ProtocolSound

/-!
# Function bodies in a trace

The callbacks of one function body stand together in a trace, between
`begin_function_body` and `end_function_body`. Each opcode is announced
by `on_opcode` and followed by its `on_*_expr`, but for the `end` that
is the last byte of the body.
-/

namespace SexprWasm

namespace BinaryReader

/-! ## Bodies in a trace -/

/-- The opcodes of a stretch of callbacks, each with the offset behind it. -/
def opcodes (es : List (Nat × Event)) : List (Nat × WasmOpcode) :=
  es.filterMap fun e =>
    match e.2 with
    | .onOpcode code => (WasmOpcode.ofCode? code).map fun op => (e.1, op)
    | _ => none

/-- The opcodes whose `on_*_expr` callback is made. -/
def exprOpcodes (es : List (Nat × Event)) : List WasmOpcode :=
  es.filterMap fun e =>
    match e.2 with
    | .onExpr instr => some instr.opcode
    | _ => none

def isEndFunctionBody : Event → Bool
  | .endFunctionBody _ => true
  | _ => false

/-- After the callbacks `pre`, the trace has a function body with the callbacks `mid`;
`endOffset` is the offset behind it. -/
def HasBody (tr pre : List (Nat × Event)) (index : Nat) (mid : List (Nat × Event))
    (endOffset : Nat) : Prop :=
  (∃ offset post, tr = pre ++ (offset, .beginFunctionBody index) :: mid ++
    (endOffset, .endFunctionBody index) :: post) ∧ ∀ e ∈ mid, isEndFunctionBody e.2 = false

/-! ## Bodies and the protocol -/

def isBodyEvent : Event → Bool
  | .onLocalDeclCount _ | .onLocalDecl .. | .onOpcode _ | .onExpr _ => true
  | _ => false

def inBody : Phase → Bool
  | .bodyStart .. | .localDecls .. | .instrs .. | .opcode .. => true
  | _ => false

/-- The function whose body is read. -/
def bodyIndex : Phase → Option Nat
  | .bodyStart _ k | .localDecls _ k _ _ | .instrs _ k | .opcode _ k _ _ => some k
  | _ => none

/-- The opcode that has been read and has had no `on_*_expr` callback yet. -/
def pending : Phase → List (Nat × WasmOpcode)
  | .opcode _ _ offset code => ((WasmOpcode.ofCode? code).map fun op => (offset, op)).toList
  | _ => []

variable {data : List UInt8} {p p' : Proto}

/-- Inside a body only its own callbacks can follow. -/
theorem step_inBody {e : Nat × Event} (hp : inBody p.phase) (hb : isBodyEvent e.2 = false)
    (he : isEndFunctionBody e.2 = false) : Proto.step data p e = none := by
  obtain ⟨o, e⟩ := e
  cases hph : p.phase <;> rw [hph] at hp <;> cases hp <;> cases e <;>
    first
    | cases hb; done
    | cases he; done
    | simp [Proto.step, Proto.goto, Proto.entry, Proto.endSection, Proto.beginEntry,
        Proto.importDone, Proto.beginInit, Proto.endInit, Proto.beginSection, hph]

/-! ### What the callbacks of a body can do -/

theorem step_beginFunctionBody {o i : Nat}
    (h : Proto.step data p (o, .beginFunctionBody i) = some p') :
    ∃ n, p.phase = .entries n i ∧ p.sectionCode = 10 ∧ i < n ∧
      p' = { p with phase := .bodyStart n i } := by
  simp only [Proto.step, Proto.beginEntry] at h
  split at h
  · next n k hph =>
    split_ifs at h with hk
    obtain ⟨hcode, rfl, hlt⟩ := hk
    cases h
    exact ⟨n, hph, hcode, hlt, rfl⟩
  · cases h

theorem step_onOpcode {o code : Nat} (h : Proto.step data p (o, .onOpcode code) = some p') :
    ∃ n k, p.phase = .instrs n k ∧ (data[o - 1]?).map UInt8.toNat = some code ∧
      p' = { p with phase := .opcode n k o code } := by
  simp only [Proto.step, Proto.bodyStep] at h
  split at h
  · next n k hph =>
    split_ifs at h with hbyte
    cases h
    exact ⟨n, k, hph, hbyte.1, rfl⟩
  · cases h

theorem step_onExpr {o : Nat} {instr : Instr}
    (h : Proto.step data p (o, .onExpr instr) = some p') :
    ∃ n k offset code, p.phase = .opcode n k offset code ∧
      WasmOpcode.ofCode? code = some instr.opcode ∧ p.exprOk instr ∧ p' = { p with phase := .instrs n k } := by
  simp only [Proto.step, Proto.bodyStep] at h
  split_ifs at h with hok
  split at h
  · next n k offset code hph =>
    split_ifs at h with hop
    cases h
    exact ⟨n, k, offset, code, hph, hop, hok, rfl⟩
  · cases h

theorem step_endFunctionBody {o i : Nat}
    (h : Proto.step data p (o, .endFunctionBody i) = some p') :
    ∃ n, p.phase = .opcode n i o WasmOpcode.end_.code ∧
      p' = { p with phase := .entries n (i + 1) } := by
  simp only [Proto.step, Proto.bodyStep] at h
  split at h
  · next n k offset code hph =>
    split_ifs at h with hk
    obtain ⟨rfl, rfl, rfl⟩ := hk
    cases h
    exact ⟨n, hph, rfl⟩
  · cases h

/-- One callback inside a body. -/
theorem step_body {e : Nat × Event} (hb : isBodyEvent e.2) (h : Proto.step data p e = some p') :
    inBody p'.phase ∧ bodyIndex p'.phase = bodyIndex p.phase ∧
      (∀ n k o code, p'.phase = .opcode n k o code →
        (data[o - 1]?).map UInt8.toNat = some code) ∧
      ∃ w, pending p.phase ++ opcodes [e] = w ++ pending p'.phase ∧
        w.map Prod.snd = exprOpcodes [e] := by
  obtain ⟨o, e⟩ := e
  cases e <;> cases hb
  case onLocalDeclCount count =>
    simp only [Proto.step, Proto.bodyStep] at h
    split at h
    · next n k hph =>
      cases h
      split <;> exact ⟨rfl, by rw [hph]; rfl, by simp, [], by rw [hph]; rfl, rfl⟩
    · cases h
  case onLocalDecl i count type =>
    simp only [Proto.step, Proto.bodyStep] at h
    split at h
    · next n k m j hph =>
      split_ifs at h <;> cases h <;>
        exact ⟨rfl, by rw [hph]; rfl, by simp, [], by rw [hph]; rfl, rfl⟩
    · cases h
  case onOpcode code =>
    obtain ⟨n, k, hph, hbyte, rfl⟩ := step_onOpcode h
    refine ⟨rfl, by rw [hph]; rfl, ?_, [], ?_, rfl⟩
    · rintro _ _ _ _ ⟨⟩
      exact hbyte
    · rw [hph]
      cases hop : WasmOpcode.ofCode? code <;> simp [pending, opcodes, hop]
  case onExpr instr =>
    obtain ⟨n, k, offset, code, hph, hop, -, rfl⟩ := step_onExpr h
    refine ⟨rfl, by rw [hph]; rfl, by simp, [(offset, instr.opcode)], ?_, rfl⟩
    rw [hph]
    simp [pending, opcodes, hop]

theorem opcodes_cons (e : Nat × Event) (es : List (Nat × Event)) :
    opcodes (e :: es) = opcodes [e] ++ opcodes es := by
  rw [← List.singleton_append, opcodes, List.filterMap_append]
  rfl

theorem exprOpcodes_cons (e : Nat × Event) (es : List (Nat × Event)) :
    exprOpcodes (e :: es) = exprOpcodes [e] ++ exprOpcodes es := by
  rw [← List.singleton_append, exprOpcodes, List.filterMap_append]
  rfl

/-- The callbacks of a body, up to any point before its end. -/
theorem accept_body : ∀ {mid : List (Nat × Event)} {p p' : Proto}, inBody p.phase →
    (∀ e ∈ mid, isEndFunctionBody e.2 = false) →
    Emit.accept (Proto.step data) p mid = some p' →
      inBody p'.phase ∧ bodyIndex p'.phase = bodyIndex p.phase ∧
        (∀ e ∈ mid, isBodyEvent e.2) ∧
        (∀ n k o code, p'.phase = .opcode n k o code →
          p.phase = p'.phase ∨ (data[o - 1]?).map UInt8.toNat = some code) ∧
        ∃ w, pending p.phase ++ opcodes mid = w ++ pending p'.phase ∧
          w.map Prod.snd = exprOpcodes mid
  | [], p, p', hp, _, h => by
      cases h
      exact ⟨hp, rfl, by simp, fun _ _ _ _ _ => .inl rfl, [], by simp [opcodes], rfl⟩
  | e :: mid, p, p', hp, hend, h => by
      obtain ⟨p₁, hstep, h⟩ := Option.bind_eq_some_iff.mp h
      have hb : isBodyEvent e.2 := by
        by_contra hb
        rw [step_inBody hp (by simpa using hb) (hend e (by simp))] at hstep
        cases hstep
      obtain ⟨hp₁, hidx₁, hbyte₁, w₁, hw₁, hops₁⟩ := step_body hb hstep
      obtain ⟨hp', hidx, hmid, hbyte, w₂, hw₂, hops₂⟩ :=
        accept_body hp₁ (fun e' he' => hend e' (by simp [he'])) h
      refine ⟨hp', hidx.trans hidx₁, by simpa [hb] using hmid, ?_, w₁ ++ w₂, ?_, ?_⟩
      · intro n k o code hph
        rcases hbyte n k o code hph with heq | hb
        · exact .inr (hbyte₁ n k o code (heq.trans hph))
        · exact .inr hb
      · rw [opcodes_cons, ← List.append_assoc, hw₁, List.append_assoc, hw₂, List.append_assoc]
      · rw [List.map_append, hops₁, hops₂, ← exprOpcodes_cons]

/-- A body is entered through `begin_function_body` only. -/
theorem step_enter {e : Nat × Event} (hp : inBody p.phase = false) (hp' : inBody p'.phase)
    (h : Proto.step data p e = some p') : ∃ i, e.2 = .beginFunctionBody i := by
  obtain ⟨o, e⟩ := e
  cases e
  case beginFunctionBody i => exact ⟨i, rfl⟩
  all_goals
    exfalso
    simp only [Proto.step, Proto.goto, Proto.entry, Proto.endSection, Proto.beginEntry,
      Proto.importDone, Proto.beginInit, Proto.endInit, Proto.beginSection, Proto.bodyStep,
      Option.map_if] at h
    repeat' split at h
  all_goals cases h
  all_goals first
    | cases hp'; done
    | simp_all [inBody]

/-- Inside a body, its `begin_function_body` is the last one. -/
theorem accept_split {p₀ : Proto} (h₀ : inBody p₀.phase = false) (es : List (Nat × Event)) :
    ∀ {p : Proto}, Emit.accept (Proto.step data) p₀ es = some p → inBody p.phase →
      ∃ pre o i mid p₁, es = pre ++ (o, .beginFunctionBody i) :: mid ∧
        bodyIndex p.phase = some i ∧
        Emit.accept (Proto.step data) p₀ pre = some p₁ ∧ inBody p₁.phase = false ∧
        ∀ e ∈ mid, isEndFunctionBody e.2 = false := by
  induction es using List.reverseRecOn with
  | nil =>
      intro p h hp
      cases h
      rw [h₀] at hp
      cases hp
  | append_singleton es e ih =>
      intro p h hp
      rw [Emit.accept_append] at h
      obtain ⟨p', hes, h⟩ := Option.bind_eq_some_iff.mp h
      obtain ⟨_, hstep, hnil⟩ := Option.bind_eq_some_iff.mp h
      cases hnil
      cases hp' : inBody p'.phase with
      | false =>
          obtain ⟨o, e⟩ := e
          obtain ⟨i, rfl⟩ := step_enter hp' hp hstep
          obtain ⟨n, -, -, -, rfl⟩ := step_beginFunctionBody hstep
          exact ⟨es, o, i, [], p', rfl, rfl, hes, hp', by simp⟩
      | true =>
          have hend : isEndFunctionBody e.2 = false := by
            obtain ⟨o, e⟩ := e
            cases e <;> try rfl
            obtain ⟨n, -, rfl⟩ := step_endFunctionBody hstep
            cases hp
          have hb : isBodyEvent e.2 := by
            by_contra hb
            rw [step_inBody hp' (by simpa using hb) hend] at hstep
            cases hstep
          obtain ⟨pre, o, i, mid, p₁, rfl, hidx, hpre, hp₁, hmid⟩ := ih hes hp'
          obtain ⟨-, hidx', -⟩ := step_body hb hstep
          refine ⟨pre, o, i, mid ++ [e], p₁, by simp, hidx'.trans hidx, hpre, hp₁, fun e' he' => ?_⟩
          rcases List.mem_append.mp he' with he' | he'
          · exact hmid e' he'
          · rw [List.mem_singleton.mp he']
            exact hend

/-- A body that is left is left through `end_function_body`. -/
theorem accept_exit : ∀ {es : List (Nat × Event)} {p p' : Proto}, inBody p.phase →
    inBody p'.phase = false → Emit.accept (Proto.step data) p es = some p' →
      ∃ mid o i post, es = mid ++ (o, .endFunctionBody i) :: post ∧
        bodyIndex p.phase = some i ∧ ∀ e ∈ mid, isEndFunctionBody e.2 = false
  | [], p, p', hp, hp', h => by
      cases h
      rw [hp] at hp'
      cases hp'
  | e :: es, p, p', hp, hp', h => by
      obtain ⟨p₁, hstep, h⟩ := Option.bind_eq_some_iff.mp h
      cases hend : isEndFunctionBody e.2 with
      | true =>
          obtain ⟨o, e⟩ := e
          cases e <;> cases hend
          rename_i i
          obtain ⟨n, hph, -⟩ := step_endFunctionBody hstep
          exact ⟨[], o, i, es, rfl, by rw [hph]; rfl, by simp⟩
      | false =>
          have hb : isBodyEvent e.2 := by
            by_contra hb
            rw [step_inBody hp (by simpa using hb) hend] at hstep
            cases hstep
          obtain ⟨hp₁, hidx, -⟩ := step_body hb hstep
          obtain ⟨mid, o, i, post, rfl, hi, hmid⟩ := accept_exit hp₁ hp' h
          exact ⟨e :: mid, o, i, post, rfl, hidx.symm.trans hi, by simpa [hend] using hmid⟩

end BinaryReader

end SexprWasm
