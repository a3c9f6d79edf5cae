import SexprWasm.BinaryReader.Protocol
import SexprWasm.Lib.History

/-!
# The reader follows the protocol

A lemma for each function of the reader: from an automaton state that
agrees with the reader's context (`At`), the events of the function
are accepted and the two agree again. Reads that call nothing back are
`Quiet` and move the offset only. `trace_follows` is the result.
-/

namespace SexprWasm

namespace BinaryReader

/-! ## Reads that call nothing back -/

/-- `m` emits nothing and changes nothing but the offset; its result satisfies `R`. -/
def Quiet {α : Type} (m : ReadM α) (R : α → Prop) : Prop :=
  ∀ c, (m c).1 = [] ∧ ∀ a c', (m c).2 = .ok (a, c') → R a ∧ ∃ o, c' = { c with offset := o }

namespace Quiet

variable {α β : Type} {R : α → Prop}

theorem mono {R' : α → Prop} {m : ReadM α} (h : Quiet m R) (hR : ∀ a, R a → R' a) :
    Quiet m R' := fun c =>
  ⟨(h c).1, fun a c' hr => ⟨hR a ((h c).2 a c' hr).1, ((h c).2 a c' hr).2⟩⟩

theorem pure {a : α} (h : R a) : Quiet (Pure.pure a) R := by
  refine fun c => ⟨rfl, fun a' c' hr => ?_⟩
  cases hr
  exact ⟨h, c.offset, rfl⟩

theorem fail {e : ReadFailure} : Quiet (Emit.fail e : ReadM α) R :=
  fun _ => ⟨rfl, fun _ _ hr => by cases hr⟩

theorem bind {R' : β → Prop} {m : ReadM α} {f : α → ReadM β} (hm : Quiet m R)
    (hf : ∀ a, R a → Quiet (f a) R') : Quiet (m >>= f) R' := by
  intro c
  obtain ⟨hes, hok⟩ := hm c
  rw [Emit.bind_eq]
  rcases hmc : m c with ⟨es, e | ⟨a, c'⟩⟩
  · rw [Emit.bind_error hmc]
    rw [hmc] at hes
    exact ⟨hes, fun _ _ hr => by cases hr⟩
  · rw [Emit.bind_ok hmc]
    rw [hmc] at hes hok
    obtain ⟨ha, o, rfl⟩ := hok a c' rfl
    obtain ⟨hes', hok'⟩ := hf a ha { c with offset := o }
    refine ⟨by rw [hes']; exact congrArg (· ++ []) hes, fun b c'' hr => ?_⟩
    obtain ⟨hb, o', rfl⟩ := hok' b c'' hr
    exact ⟨hb, o', rfl⟩

theorem check {b : Bool} {e : ReadFailure} :
    Quiet (Emit.check b e : ReadM Unit) fun _ => b = true := by
  unfold Emit.check
  split
  · exact pure ‹_›
  · exact fail

theorem collect {m : ReadM α} (hm : Quiet m R) :
    ∀ n, Quiet (Emit.collect m n) fun as => as.length = n ∧ ∀ a ∈ as, R a
  | 0 => pure ⟨rfl, by simp⟩
  | n + 1 => by
      refine bind hm fun a ha => bind (collect hm n) fun as ⟨hlen, has⟩ => pure ⟨by simp [hlen], ?_⟩
      intro b hb
      rcases List.mem_cons.mp hb with rfl | hb
      · exact ha
      · exact has b hb

end Quiet

section Quiet

variable (inp : Input)

theorem quiet_raiseErrorUnless (b : Bool) : Quiet (raiseErrorUnless b) fun _ => b = true :=
  Quiet.check

theorem quiet_raiseError {α : Type} {R : α → Prop} : Quiet (raiseError : ReadM α) R :=
  Quiet.fail

theorem quiet_inRaw (size : Nat) : Quiet (inRaw inp size) fun bs => bs.length = size := by
  intro c
  unfold inRaw
  by_cases h : c.offset + size > c.readEnd
  · rw [if_pos h]
    exact ⟨rfl, fun _ _ hr => by cases hr⟩
  · rw [if_neg h]
    by_cases hlen : ((inp.data.drop c.offset).take size).length = size
    · simp only [hlen, ↓reduceIte, true_and]
      rintro a c' ⟨⟩
      exact ⟨hlen, _, rfl⟩
    · simp only [hlen, ↓reduceIte, true_and]
      rintro a c' ⟨⟩

theorem quiet_inLeb {read : List UInt8 → Option (Nat × Nat)} {R : Nat → Prop}
    (h : ∀ p v n, read p = some (v, n) → R v) : Quiet (inLeb inp read) R := by
  intro c
  unfold inLeb
  split
  · exact ⟨rfl, fun _ _ hr => by cases hr⟩
  · next v n hr =>
    refine ⟨rfl, ?_⟩
    rintro a c' ⟨⟩
    exact ⟨h _ _ _ hr, _, rfl⟩

theorem quiet_inU8 : Quiet (inU8 inp) fun _ => True :=
  Quiet.bind (quiet_inRaw inp 1) fun _ _ => Quiet.pure trivial

theorem quiet_inU32 : Quiet (inU32 inp) fun _ => True :=
  Quiet.bind (quiet_inRaw inp 4) fun _ _ => Quiet.pure trivial

theorem quiet_inF32 : Quiet (inF32 inp) fun _ => True := quiet_inU32 inp

theorem quiet_inF64 : Quiet (inF64 inp) fun _ => True :=
  Quiet.bind (quiet_inRaw inp 8) fun _ _ => Quiet.pure trivial

theorem quiet_inU32Leb128 : Quiet (inU32Leb128 inp) (· < maxU32) :=
  quiet_inLeb inp fun _ _ _ h => wasmReadU32Leb128_lt h

theorem quiet_inI32Leb128 : Quiet (inI32Leb128 inp) fun _ => True :=
  quiet_inLeb inp fun _ _ _ _ => trivial

theorem quiet_inI64Leb128 : Quiet (inI64Leb128 inp) fun _ => True :=
  quiet_inLeb inp fun _ _ _ _ => trivial

theorem quiet_inType : Quiet (inType inp) fun _ => True :=
  Quiet.bind (quiet_inI32Leb128 inp) fun _ _ =>
    Quiet.bind (quiet_raiseErrorUnless _) fun _ _ => Quiet.pure trivial

theorem quiet_inConcreteType : Quiet (inConcreteType inp) fun _ => True := by
  refine Quiet.bind (quiet_inType inp) fun type _ => ?_
  cases concreteType? type with
  | none => exact quiet_raiseError
  | some t => exact Quiet.pure trivial

theorem quiet_inInlineSig : Quiet (inInlineSig inp) fun sig => sig.length ≤ 1 := by
  refine Quiet.bind (quiet_inType inp) fun type _ => ?_
  cases concreteType? type with
  | none =>
      exact Quiet.bind (quiet_raiseErrorUnless _) fun _ _ => Quiet.pure (by decide)
  | some t => exact Quiet.pure (by simp)

theorem quiet_inStr : Quiet (inStr inp) fun _ => True :=
  Quiet.bind (quiet_inU32Leb128 inp) fun n _ => (quiet_inRaw inp n).mono fun _ _ => trivial

theorem quiet_inBytes : Quiet (inBytes inp) (·.length < maxU32) :=
  Quiet.bind (quiet_inU32Leb128 inp) fun n hn => (quiet_inRaw inp n).mono fun _ h => h ▸ hn

theorem quiet_readTable : Quiet (readTable inp) fun l => Proto.tableLimitsOk l = true := by
  refine Quiet.bind (quiet_inType inp) fun type _ => ?_
  refine Quiet.bind (quiet_raiseErrorUnless _) fun _ _ => ?_
  refine Quiet.bind (quiet_inU32Leb128 inp) fun flags _ => ?_
  refine Quiet.bind (quiet_inU32Leb128 inp) fun initial _ => ?_
  split
  · refine Quiet.bind (quiet_inU32Leb128 inp) fun max _ => ?_
    refine Quiet.bind (quiet_raiseErrorUnless _) fun _ h => ?_
    exact Quiet.pure (by simpa [Proto.tableLimitsOk] using h)
  · exact Quiet.pure rfl

theorem quiet_readMemory : Quiet (readMemory inp) fun l => Proto.memoryLimitsOk l = true := by
  refine Quiet.bind (quiet_inU32Leb128 inp) fun flags _ => ?_
  refine Quiet.bind (quiet_inU32Leb128 inp) fun initial _ => ?_
  refine Quiet.bind (quiet_raiseErrorUnless _) fun _ hinitial => ?_
  split
  · refine Quiet.bind (quiet_inU32Leb128 inp) fun max _ => ?_
    refine Quiet.bind (quiet_raiseErrorUnless _) fun _ hmax => ?_
    refine Quiet.bind (quiet_raiseErrorUnless _) fun _ hle => ?_
    refine Quiet.pure ?_
    simp only [decide_eq_true_eq] at hinitial hmax hle
    simp [Proto.memoryLimitsOk, hinitial, hmax, hle]
  · refine Quiet.pure ?_
    simp only [decide_eq_true_eq] at hinitial
    simp [Proto.memoryLimitsOk, hinitial]

theorem quiet_readGlobalHeader : Quiet (readGlobalHeader inp) fun _ => True := by
  refine Quiet.bind (quiet_inConcreteType inp) fun _ _ => ?_
  refine Quiet.bind (quiet_inU8 inp) fun _ _ => ?_
  exact Quiet.bind (quiet_raiseErrorUnless _) fun _ _ => Quiet.pure trivial

end Quiet

/-! ## The reader's context and the automaton's state -/

/-- The automaton is in `phase` of the section `code` and has the reader's counts;
`last` is the reader's `last_known_section_code`. -/
structure At (last code : Nat) (phase : Phase) (c : Context) (p : Proto) : Prop where
  last_eq : c.lastKnownSectionCode = last
  code_eq : p.sectionCode = code
  phase_eq : p.phase = phase
  numSignatures : c.numSignatures = p.numSignatures
  numFuncImports : c.numFuncImports = p.numFuncImports
  numTableImports : c.numTableImports = p.numTableImports
  numMemoryImports : c.numMemoryImports = p.numMemoryImports
  numGlobalImports : c.numGlobalImports = p.numGlobalImports
  numFunctionSignatures : c.numFunctionSignatures = p.numFunctionSignatures
  numTables : c.numTables = p.numTables
  numMemories : c.numMemories = p.numMemories
  numGlobals : c.numGlobals = p.numGlobals

namespace At

variable {last code : Nat} {phase : Phase} {c : Context} {p : Proto}

theorem offset (h : At last code phase c p) (o : Nat) :
    At last code phase { c with offset := o } p := { h with }

theorem readEnd (h : At last code phase c p) (e : Nat) :
    At last code phase { c with readEnd := e } p := { h with }

theorem countFuncImport (h : At last code phase c p) :
    At last code phase { c with numFuncImports := c.numFuncImports + 1 }
      { p with numFuncImports := p.numFuncImports + 1 } :=
  { h with numFuncImports := congrArg (· + 1) h.numFuncImports }

theorem countTableImport (h : At last code phase c p) :
    At last code phase { c with numTableImports := c.numTableImports + 1 }
      { p with numTableImports := p.numTableImports + 1 } :=
  { h with numTableImports := congrArg (· + 1) h.numTableImports }

theorem countMemoryImport (h : At last code phase c p) :
    At last code phase { c with numMemoryImports := c.numMemoryImports + 1 }
      { p with numMemoryImports := p.numMemoryImports + 1 } :=
  { h with numMemoryImports := congrArg (· + 1) h.numMemoryImports }

theorem countGlobalImport (h : At last code phase c p) :
    At last code phase { c with numGlobalImports := c.numGlobalImports + 1 }
      { p with numGlobalImports := p.numGlobalImports + 1 } :=
  { h with numGlobalImports := congrArg (· + 1) h.numGlobalImports }

theorem numTotalFuncs (h : At last code phase c p) : c.numTotalFuncs = p.numTotalFuncs := by
  rw [Context.numTotalFuncs, Proto.numTotalFuncs, h.numFuncImports, h.numFunctionSignatures]

theorem numTotalTables (h : At last code phase c p) : c.numTotalTables = p.numTotalTables := by
  rw [Context.numTotalTables, Proto.numTotalTables, h.numTableImports, h.numTables]

theorem numTotalMemories (h : At last code phase c p) :
    c.numTotalMemories = p.numTotalMemories := by
  rw [Context.numTotalMemories, Proto.numTotalMemories, h.numMemoryImports, h.numMemories]

theorem numTotalGlobals (h : At last code phase c p) :
    c.numTotalGlobals = p.numTotalGlobals := by
  rw [Context.numTotalGlobals, Proto.numTotalGlobals, h.numGlobalImports, h.numGlobals]

/-- The same counts in another phase. -/
theorem setPhase (h : At last code phase c p) (phase' : Phase) :
    At last code phase' c { p with phase := phase' } := { h with phase_eq := rfl }

theorem openSection (h : At last code phase c p) (code' : Nat) :
    At last code' .opened c { p with phase := .opened, sectionCode := code' } :=
  { h with code_eq := rfl, phase_eq := rfl }

theorem goto (h : At last code phase c p) (dst : Phase) :
    ∃ p', p.goto code phase dst = some p' ∧ At last code dst c p' :=
  ⟨_, if_pos ⟨h.code_eq, h.phase_eq⟩, h.setPhase dst⟩

theorem entry {n k : Nat} (h : At last code (.entries n k) c p) (hk : k < n) :
    ∃ p', p.entry code k = some p' ∧ At last code (.entries n (k + 1)) c p' := by
  refine ⟨_, ?_, h.setPhase _⟩
  simp [Proto.entry, h.phase_eq, h.code_eq, hk]

theorem endSection {n : Nat} (h : At last code (.entries n n) c p) :
    ∃ p', p.endSection code = some p' ∧ At last code .top c p' := by
  refine ⟨_, ?_, h.setPhase _⟩
  simp [Proto.endSection, h.phase_eq, h.code_eq]

theorem beginEntry {n k : Nat} (h : At last code (.entries n k) c p) (hk : k < n)
    (dst : Nat → Nat → Phase) :
    ∃ p', p.beginEntry code k dst = some p' ∧ At last code (dst n k) c p' := by
  refine ⟨_, ?_, h.setPhase _⟩
  simp [Proto.beginEntry, h.phase_eq, h.code_eq, hk]

theorem beginInit {n k : Nat} (h : At last code (.beforeInit n k) c p) (hk : k < n) :
    ∃ p', p.beginInit code k = some p' ∧ At last code (.inInit n k) c p' := by
  refine ⟨_, ?_, h.setPhase _⟩
  simp [Proto.beginInit, h.phase_eq, h.code_eq, hk]

theorem endInit {n k : Nat} (h : At last code (.inInit n k) c p) (hk : k < n) :
    ∃ p', p.endInit code k = some p' ∧ At last code (.afterInit n k) c p' := by
  refine ⟨_, ?_, h.setPhase _⟩
  simp [Proto.endInit, h.phase_eq, h.code_eq, hk]

theorem importDone {n k : Nat} (h : At last 2 (.importKind n k) c p) (hk : k < n) :
    ∃ p', p.importDone k = some p' ∧ At last 2 (.entries n (k + 1)) c p' := by
  refine ⟨_, ?_, h.setPhase _⟩
  simp [Proto.importDone, h.phase_eq, h.code_eq, hk]

end At

/-! ## Rules -/

section Rules

variable {inp : Input} {α β : Type} {c : Context} {p : Proto}

/-- The events of `m` run from `c` are accepted from `p`, and `Q` holds at the end. -/
abbrev FollowsProto (inp : Input) (p : Proto) (m : ReadM α) (c : Context)
    (Q : α → Context → Proto → Prop) : Prop :=
  Emit.Follows (Proto.step inp.data) p m c Q

theorem follows_bind {m : ReadM α} {f : α → ReadM β} {Q : β → Context → Proto → Prop}
    (h : FollowsProto inp p m c fun a c' p' => FollowsProto inp p' (f a) c' Q) :
    FollowsProto inp p (m >>= f) c Q :=
  Emit.Follows.bind h

theorem follows_pure {a : α} {Q : α → Context → Proto → Prop} (h : Q a c p) :
    FollowsProto inp p (Pure.pure a) c Q :=
  Emit.Follows.pure h

theorem follows_quiet {m : ReadM α} {R : α → Prop} {Q : α → Context → Proto → Prop}
    (hm : Quiet m R) (h : ∀ a o, R a → Q a { c with offset := o } p) :
    FollowsProto inp p m c Q := by
  obtain ⟨hes, hok⟩ := hm c
  refine ⟨p, by rw [hes]; rfl, fun a c' hr => ?_⟩
  obtain ⟨ha, o, rfl⟩ := hok a c' hr
  exact h a o ha

theorem follows_unless {b : Bool} {Q : Unit → Context → Proto → Prop} (h : b = true → Q () c p) :
    FollowsProto inp p (raiseErrorUnless b) c Q :=
  Emit.Follows.check h

theorem follows_raiseError {Q : α → Context → Proto → Prop} :
    FollowsProto inp p raiseError c Q :=
  Emit.Follows.fail

theorem follows_callback {e : Event} {Q : Unit → Context → Proto → Prop}
    (h : ∃ p', Proto.step inp.data p (c.offset, e) = some p' ∧ Q () c p') :
    FollowsProto inp p (callback e) c Q := by
  obtain ⟨p', hp', hQ⟩ := h
  refine ⟨p', by simp [callback, Emit.accept_cons, hp'], fun a c' hr => ?_⟩
  cases hr
  exact hQ

/-- A loop over the entries of a section, with a fact that every entry keeps. -/
theorem follows_entries_of {body : Nat → ReadM Unit} {last code n : Nat} {K : Proto → Prop}
    {Q : Unit → Context → Proto → Prop}
    (hbody : ∀ k c p, k < n → At last code (.entries n k) c p → K p →
      FollowsProto inp p (body k) c
        fun _ c' p' => At last code (.entries n (k + 1)) c' p' ∧ K p')
    (h : At last code (.entries n 0) c p) (hK : K p)
    (hQ : ∀ c' p', At last code (.entries n n) c' p' → Q () c' p') :
    FollowsProto inp p (Emit.forFrom body 0 n) c Q :=
  (Emit.Follows.forFrom (I := fun k c p => At last code (.entries n k) c p ∧ K p)
    (fun k c p hk h => hbody k c p hk h.1 h.2) (by omega) ⟨h, hK⟩).mono
      fun _ c' p' h' => hQ c' p' h'.1

/-- A loop over the entries of a section. -/
theorem follows_entries {body : Nat → ReadM Unit} {last code n : Nat}
    {Q : Unit → Context → Proto → Prop}
    (hbody : ∀ k c p, k < n → At last code (.entries n k) c p →
      FollowsProto inp p (body k) c fun _ c' p' => At last code (.entries n (k + 1)) c' p')
    (h : At last code (.entries n 0) c p)
    (hQ : ∀ c' p', At last code (.entries n n) c' p' → Q () c' p') :
    FollowsProto inp p (Emit.forFrom body 0 n) c Q :=
  follows_entries_of (K := fun _ => True)
    (fun k c p hk h _ => (hbody k c p hk h).mono fun _ _ _ h' => ⟨h', trivial⟩) h trivial hQ

end Rules

/-! ## The functions of the reader -/

section Functions

variable (inp : Input) {last n k : Nat} {c : Context} {p : Proto}

/-- An initializer expression leaves the automaton where it is. -/
theorem readInitExpr_follows {code : Nat} (hk : k < n) (h : At last code (.inInit n k) c p) :
    FollowsProto inp p (readInitExpr inp k) c
      fun _ c' p' => p' = p ∧ At last code (.inInit n k) c' p := by
  have hexpr : ∀ (e : InitExpr) (o : Nat), Proto.step inp.data p (o, .onInitExpr k e) = some p := by
    intro e o
    have hp : ({ p with phase := .inInit n k } : Proto) = p := by rw [← h.phase_eq]
    simp [Proto.step, h.phase_eq, hk, hp]
  have hend : ∀ (e : InitExpr) (o : Nat),
      FollowsProto inp p (do
        callback (.onInitExpr k e)
        let opcode ← inU8 inp
        raiseErrorUnless (opcode = WasmOpcode.end_.code)) { c with offset := o }
        fun _ c' p' => p' = p ∧ At last code (.inInit n k) c' p := by
    intro e o
    refine follows_bind (follows_callback ⟨p, hexpr e o, ?_⟩)
    refine follows_bind (follows_quiet (quiet_inU8 inp) fun opcode o' _ => ?_)
    exact follows_unless fun _ => ⟨rfl, h.offset o'⟩
  refine follows_bind (follows_quiet (quiet_inU8 inp) fun opcode o _ => ?_)
  split
  · exact follows_pure ⟨rfl, h.offset o⟩
  · split_ifs
    · exact follows_bind (follows_quiet (quiet_inI32Leb128 inp) fun value o _ => hend _ o)
    · exact follows_bind (follows_quiet (quiet_inI64Leb128 inp) fun value o _ => hend _ o)
    · exact follows_bind (follows_quiet (quiet_inF32 inp) fun bits o _ => hend _ o)
    · exact follows_bind (follows_quiet (quiet_inF64 inp) fun bits o _ => hend _ o)
    · exact follows_bind (follows_quiet (quiet_inU32Leb128 inp) fun index o _ => hend _ o)
    · exact follows_bind follows_raiseError

/-- From inside the body of function `k` to the next point between two instructions. -/
theorem callback_expr_follows {instr : Instr} {opcode : WasmOpcode} {offset : Nat}
    (hop : instr.opcode = opcode) (hok : p.exprOk instr)
    (h : At last 10 (.opcode n k offset opcode.code) c p) :
    FollowsProto inp p (callback (.onExpr instr)) c
      fun _ c' p' => At last 10 (.instrs n k) c' p' := by
  refine follows_callback ⟨{ p with phase := .instrs n k }, ?_, h.setPhase _⟩
  simp [Proto.step, Proto.bodyStep, h.phase_eq, hok, hop]

theorem readInstr_follows {opcode : WasmOpcode} {offset : Nat}
    (h : At last 10 (.opcode n k offset opcode.code) c p) :
    FollowsProto inp p (readInstr inp opcode) c
      fun _ c' p' => At last 10 (.instrs n k) c' p' := by
  have hbare : ∀ (instr : Instr), instr.opcode = opcode → p.exprOk instr = true →
      FollowsProto inp p (callback (.onExpr instr)) c
        fun _ c' p' => At last 10 (.instrs n k) c' p' :=
    fun instr hop hok => callback_expr_follows inp hop hok h
  have hread : ∀ {α : Type} {m : ReadM α} {R : α → Prop} (instr : α → Instr), Quiet m R →
      (∀ a, (instr a).opcode = opcode) → (∀ a, R a → p.exprOk (instr a) = true) →
      FollowsProto inp p (m >>= fun a => callback (.onExpr (instr a))) c
        fun _ c' p' => At last 10 (.instrs n k) c' p' :=
    fun instr hm hop hok => follows_bind (follows_quiet hm fun a o ha =>
      callback_expr_follows inp (hop a) (hok a ha) (h.offset o))
  have hmem : ∀ (instr : Nat → Nat → Instr), (∀ a b, (instr a b).opcode = opcode) →
      (∀ a b, p.exprOk (instr a b) = true) →
      FollowsProto inp p (do
        let alignmentLog2 ← inU32Leb128 inp
        let offset ← inU32Leb128 inp
        callback (.onExpr (instr alignmentLog2 offset))) c
        fun _ c' p' => At last 10 (.instrs n k) c' p' := by
    intro instr hop hok
    refine follows_bind (follows_quiet (quiet_inU32Leb128 inp) fun a o _ => ?_)
    refine follows_bind (follows_quiet (quiet_inU32Leb128 inp) fun b o _ => ?_)
    exact callback_expr_follows inp (hop a b) (hok a b) ((h.offset _).offset o)
  have hreserved : ∀ (instr : Instr), instr.opcode = opcode → p.exprOk instr = true →
      FollowsProto inp p (do
        let reserved ← inU32Leb128 inp
        raiseErrorUnless (reserved = 0)
        callback (.onExpr instr)) c fun _ c' p' => At last 10 (.instrs n k) c' p' := by
    intro instr hop hok
    refine follows_bind (follows_quiet (quiet_inU32Leb128 inp) fun _ o _ => ?_)
    refine follows_bind (follows_unless fun _ => ?_)
    exact callback_expr_follows inp hop hok (h.offset o)
  unfold readInstr
  split <;> rename_i hg
  · obtain rfl : opcode = .unreachable := WasmOpcode.eq_of_group (by rw [hg]; rfl)
    exact hbare .unreachable rfl rfl
  · obtain rfl : opcode = .block := WasmOpcode.eq_of_group (by rw [hg]; rfl)
    exact hread .block (quiet_inInlineSig inp) (fun _ => rfl) fun _ hsig => decide_eq_true hsig
  · obtain rfl : opcode = .loop := WasmOpcode.eq_of_group (by rw [hg]; rfl)
    exact hread .loop (quiet_inInlineSig inp) (fun _ => rfl) fun _ hsig => decide_eq_true hsig
  · obtain rfl : opcode = .if_ := WasmOpcode.eq_of_group (by rw [hg]; rfl)
    exact hread .if_ (quiet_inInlineSig inp) (fun _ => rfl) fun _ hsig => decide_eq_true hsig
  · obtain rfl : opcode = .else_ := WasmOpcode.eq_of_group (by rw [hg]; rfl)
    exact hbare .else_ rfl rfl
  · obtain rfl : opcode = .select := WasmOpcode.eq_of_group (by rw [hg]; rfl)
    exact hbare .select rfl rfl
  · obtain rfl : opcode = .br := WasmOpcode.eq_of_group (by rw [hg]; rfl)
    exact hread .br (quiet_inU32Leb128 inp) (fun _ => rfl) fun _ _ => rfl
  · obtain rfl : opcode = .brIf := WasmOpcode.eq_of_group (by rw [hg]; rfl)
    exact hread .brIf (quiet_inU32Leb128 inp) (fun _ => rfl) fun _ _ => rfl
  · obtain rfl : opcode = .brTable := WasmOpcode.eq_of_group (by rw [hg]; rfl)
    refine follows_bind (follows_quiet (quiet_inU32Leb128 inp) fun numTargets o _ => ?_)
    refine follows_bind (follows_quiet (Quiet.collect (quiet_inU32Leb128 inp) _) fun ds o _ => ?_)
    refine follows_bind (follows_quiet (quiet_inU32Leb128 inp) fun d o _ => ?_)
    exact callback_expr_follows inp rfl rfl (((h.offset _).offset _).offset o)
  · obtain rfl : opcode = .return_ := WasmOpcode.eq_of_group (by rw [hg]; rfl)
    exact hbare .return_ rfl rfl
  · obtain rfl : opcode = .nop := WasmOpcode.eq_of_group (by rw [hg]; rfl)
    exact hbare .nop rfl rfl
  · obtain rfl : opcode = .drop := WasmOpcode.eq_of_group (by rw [hg]; rfl)
    exact hbare .drop rfl rfl
  · obtain rfl : opcode = .end_ := WasmOpcode.eq_of_group (by rw [hg]; rfl)
    exact hbare .end_ rfl rfl
  · obtain rfl : opcode = .i32Const := WasmOpcode.eq_of_group (by rw [hg]; rfl)
    exact hread .i32Const (quiet_inI32Leb128 inp) (fun _ => rfl) fun _ _ => rfl
  · obtain rfl : opcode = .i64Const := WasmOpcode.eq_of_group (by rw [hg]; rfl)
    exact hread .i64Const (quiet_inI64Leb128 inp) (fun _ => rfl) fun _ _ => rfl
  · obtain rfl : opcode = .f32Const := WasmOpcode.eq_of_group (by rw [hg]; rfl)
    exact hread .f32Const (quiet_inF32 inp) (fun _ => rfl) fun _ _ => rfl
  · obtain rfl : opcode = .f64Const := WasmOpcode.eq_of_group (by rw [hg]; rfl)
    exact hread .f64Const (quiet_inF64 inp) (fun _ => rfl) fun _ _ => rfl
  · obtain rfl : opcode = .getGlobal := WasmOpcode.eq_of_group (by rw [hg]; rfl)
    exact hread .getGlobal (quiet_inU32Leb128 inp) (fun _ => rfl) fun _ _ => rfl
  · obtain rfl : opcode = .getLocal := WasmOpcode.eq_of_group (by rw [hg]; rfl)
    exact hread .getLocal (quiet_inU32Leb128 inp) (fun _ => rfl) fun _ _ => rfl
  · obtain rfl : opcode = .setGlobal := WasmOpcode.eq_of_group (by rw [hg]; rfl)
    exact hread .setGlobal (quiet_inU32Leb128 inp) (fun _ => rfl) fun _ _ => rfl
  · obtain rfl : opcode = .setLocal := WasmOpcode.eq_of_group (by rw [hg]; rfl)
    exact hread .setLocal (quiet_inU32Leb128 inp) (fun _ => rfl) fun _ _ => rfl
  · obtain rfl : opcode = .call := WasmOpcode.eq_of_group (by rw [hg]; rfl)
    refine follows_bind (follows_quiet (quiet_inU32Leb128 inp) fun funcIndex o _ => ?_)
    refine follows_bind (Emit.Follows.get ?_)
    refine follows_bind (follows_unless fun hlt => ?_)
    refine callback_expr_follows inp rfl ?_ (h.offset o)
    simpa [Proto.exprOk, ← (h.offset o).numTotalFuncs] using hlt
  · obtain rfl : opcode = .callIndirect := WasmOpcode.eq_of_group (by rw [hg]; rfl)
    refine follows_bind (follows_quiet (quiet_inU32Leb128 inp) fun sigIndex o _ => ?_)
    refine follows_bind (Emit.Follows.get ?_)
    refine follows_bind (follows_unless fun hlt => ?_)
    refine follows_bind (follows_quiet (quiet_inU32Leb128 inp) fun reserved o _ => ?_)
    refine follows_bind (follows_unless fun _ => ?_)
    refine callback_expr_follows inp rfl ?_ ((h.offset _).offset o)
    simpa [Proto.exprOk, ← (h.offset o).numSignatures] using hlt
  · obtain rfl : opcode = .teeLocal := WasmOpcode.eq_of_group (by rw [hg]; rfl)
    exact hread .teeLocal (quiet_inU32Leb128 inp) (fun _ => rfl) fun _ _ => rfl
  · exact hmem (.load ⟨opcode, hg⟩) (fun _ _ => rfl) (fun _ _ => rfl)
  · exact hmem (.store ⟨opcode, hg⟩) (fun _ _ => rfl) (fun _ _ => rfl)
  · obtain rfl : opcode = .currentMemory := WasmOpcode.eq_of_group (by rw [hg]; rfl)
    exact hreserved .currentMemory rfl rfl
  · obtain rfl : opcode = .growMemory := WasmOpcode.eq_of_group (by rw [hg]; rfl)
    exact hreserved .growMemory rfl rfl
  · exact hbare (.binary ⟨opcode, hg⟩) rfl rfl
  · exact hbare (.compare ⟨opcode, hg⟩) rfl rfl
  · exact hbare (.unary ⟨opcode, hg⟩) rfl rfl
  · exact hbare (.convert ⟨opcode, hg⟩) rfl rfl

theorem inU8_eq_ok {c c' : Context} {v : Nat} {es : List (Nat × Event)}
    (h : inU8 inp c = (es, .ok (v, c'))) :
    es = [] ∧ c' = { c with offset := c.offset + 1 } ∧
      (inp.data[c.offset]?).map UInt8.toNat = some v := by
  obtain ⟨bytes, c₁, es₁, es₂, hraw, hpure, rfl⟩ := Emit.bind_eq_ok h
  cases hpure
  unfold inRaw at hraw
  by_cases hend : c.offset + 1 > c.readEnd
  · rw [if_pos hend] at hraw
    cases hraw
  rw [if_neg hend] at hraw
  by_cases hlen : ((inp.data.drop c.offset).take 1).length = 1
  case neg =>
    simp only [hlen, ↓reduceIte] at hraw
    cases hraw
  simp only [hlen, ↓reduceIte] at hraw
  cases hraw
  refine ⟨rfl, rfl, ?_⟩
  cases hdrop : inp.data.drop c.offset with
  | nil => rw [hdrop] at hlen; cases hlen
  | cons b bs =>
      have hget : inp.data[c.offset]? = some b := by
        rw [← List.head?_drop, hdrop, List.head?_cons]
      simp [hget, leNat]

/-- Once `end_offset` is reached the loop stops. -/
theorem readOpcodes_at_end {endOffset : Nat} {seen : Bool} :
    ∀ (fuel : Nat), endOffset ≤ c.offset →
      readOpcodes inp endOffset fuel seen c = ([], .ok (seen, c))
  | 0, _ => rfl
  | fuel + 1, h => by
      have hlt : ¬c.offset < endOffset := by omega
      simp [readOpcodes, Emit.bind_eq, Emit.bind, hlt]

/-- The phase after the loop of `read_function_body`: at the end of the body if an
`end` was last. -/
theorem readOpcodes_follows (endOffset : Nat) : ∀ (fuel : Nat) (c : Context) (p : Proto),
    At last 10 (.instrs n k) c p →
      FollowsProto inp p (readOpcodes inp endOffset fuel false) c fun seen c' p' =>
        (seen = false ∧ At last 10 (.instrs n k) c' p') ∨
          (seen = true ∧ c'.offset = endOffset ∧
            At last 10 (.opcode n k endOffset WasmOpcode.end_.code) c' p')
  | 0, c, p, h => follows_pure (.inl ⟨rfl, h⟩)
  | fuel + 1, c, p, h => by
      refine follows_bind (Emit.Follows.get ?_)
      split
      case isFalse => exact follows_pure (.inl ⟨rfl, h⟩)
      case isTrue hlt =>
        refine follows_bind ⟨p, by rw [(quiet_inU8 inp c).1]; rfl, fun opcode c₁ hr => ?_⟩
        obtain ⟨-, rfl, hbyte⟩ := inU8_eq_ok inp (Prod.ext rfl hr)
        have h₁ := (h.setPhase (.opcode n k (c.offset + 1) opcode)).offset (c.offset + 1)
        have hstep : Proto.step inp.data p (c.offset + 1, .onOpcode opcode) =
            some { p with phase := .opcode n k (c.offset + 1) opcode } := by
          simp [Proto.step, Proto.bodyStep, h.phase_eq, hbyte]
        refine follows_bind (follows_callback ⟨_, hstep, ?_⟩)
        split
        case h_1 => exact follows_raiseError
        case h_2 op hop =>
          obtain rfl := WasmOpcode.code_of_ofCode? hop
          refine follows_bind (Emit.Follows.get ?_)
          split
          case isTrue hend =>
            obtain rfl : op = .end_ := WasmOpcode.eq_of_group (by rw [hend.1]; rfl)
            obtain ⟨-, rfl⟩ := hend
            have hrun : readOpcodes inp (c.offset + 1) fuel true { c with offset := c.offset + 1 } =
                ([], .ok (true, { c with offset := c.offset + 1 })) :=
              readOpcodes_at_end inp fuel (Nat.le_refl _)
            refine ⟨_, by rw [hrun]; rfl, ?_⟩
            rw [hrun]
            rintro seen c' ⟨⟩
            exact .inr ⟨rfl, rfl, h₁⟩
          case isFalse =>
            exact follows_bind ((readInstr_follows inp h₁).mono fun _ c' p' h' =>
              readOpcodes_follows endOffset fuel c' p' h')

theorem readFunctionBody_follows {endOffset : Nat} (h : At last 10 (.instrs n k) c p) :
    FollowsProto inp p (readFunctionBody inp endOffset) c fun _ c' p' =>
      c'.offset = endOffset ∧ At last 10 (.opcode n k endOffset WasmOpcode.end_.code) c' p' := by
  refine follows_bind ((readOpcodes_follows inp endOffset endOffset c p h).mono ?_)
  intro seen c' p' hloop
  refine follows_bind (Emit.Follows.get ?_)
  refine follows_bind (follows_unless fun _ => ?_)
  refine follows_unless fun hseen => ?_
  rcases hloop with ⟨rfl, -⟩ | ⟨-, hoff, h'⟩
  · cases hseen
  · exact ⟨hoff, h'⟩

theorem readSignature_follows (hk : k < n) (h : At last 1 (.entries n k) c p) :
    FollowsProto inp p (readSignature inp k) c
      fun _ c' p' => At last 1 (.entries n (k + 1)) c' p' := by
  refine follows_bind (follows_quiet (quiet_inType inp) fun _ _ _ => ?_)
  refine follows_bind (follows_unless fun _ => ?_)
  refine follows_bind (follows_quiet (quiet_inU32Leb128 inp) fun _ _ _ => ?_)
  refine follows_bind (follows_quiet (Quiet.collect (quiet_inConcreteType inp) _) fun _ _ _ => ?_)
  refine follows_bind (follows_quiet (quiet_inU32Leb128 inp) fun _ _ _ => ?_)
  refine follows_bind (follows_unless fun hresults => ?_)
  refine follows_bind (follows_quiet (Quiet.collect (quiet_inConcreteType inp) _)
    fun resultTypes o ⟨hlen, _⟩ => ?_)
  obtain ⟨p', hp', h'⟩ := (h.offset o).entry hk
  have hone : resultTypes.length ≤ 1 := by
    rw [hlen]
    exact of_decide_eq_true hresults
  exact follows_callback ⟨p', by simp [Proto.step, hone, hp'], h'⟩

theorem readTypeSection_follows {size : Nat} (h : At last 1 .opened c p) :
    FollowsProto inp p (readTypeSection inp size) c fun _ c' p' => At last 1 .top c' p' := by
  obtain ⟨p₁, hp₁, h₁⟩ := h.goto .opened
  refine follows_bind (follows_callback ⟨p₁, hp₁, ?_⟩)
  refine follows_bind (follows_quiet (quiet_inU32Leb128 inp) fun count o _ => ?_)
  refine follows_bind (Emit.Follows.modify ?_)
  obtain ⟨p₂, hp₂, h₂⟩ := h₁.goto (.entries count 0)
  refine follows_bind (follows_callback
    ⟨{ p₂ with numSignatures := count }, by simp [Proto.step, hp₂], ?_⟩)
  refine follows_bind (follows_entries (fun k c p hk h => readSignature_follows inp hk h)
    { h₂ with numSignatures := rfl } fun c p h => ?_)
  exact follows_callback h.endSection

theorem readImport_follows (hk : k < n) (h : At last 2 (.entries n k) c p) :
    FollowsProto inp p (readImport inp k) c
      fun _ c' p' => At last 2 (.entries n (k + 1)) c' p' := by
  refine follows_bind (follows_quiet (quiet_inStr inp) fun _ o _ => ?_)
  refine follows_bind (follows_quiet (quiet_inStr inp) fun _ o' _ => ?_)
  obtain ⟨p₁, hp₁, h₁⟩ := ((h.offset o).offset o').beginEntry hk .importKind
  refine follows_bind (follows_callback ⟨p₁, hp₁, ?_⟩)
  refine follows_bind (follows_quiet (quiet_inU32Leb128 inp) fun kind o _ => ?_)
  obtain ⟨p₂, hp₂, h₂⟩ := (h₁.offset o).importDone hk
  split_ifs
  · refine follows_bind (follows_quiet (quiet_inU32Leb128 inp) fun sigIndex o' _ => ?_)
    refine follows_bind (Emit.Follows.get ?_)
    refine follows_bind (follows_unless fun hlt => ?_)
    have hsig : sigIndex < p₁.numSignatures := h₁.numSignatures ▸ of_decide_eq_true hlt
    refine follows_bind (follows_callback ⟨_, by simp [Proto.step, hsig, hp₂]; rfl, ?_⟩)
    exact Emit.Follows.modify (h₂.offset o').countFuncImport
  · refine follows_bind (follows_quiet (quiet_readTable inp) fun limits o' hlimits => ?_)
    refine follows_bind (follows_callback ⟨_, by simp [Proto.step, hlimits, hp₂]; rfl, ?_⟩)
    exact Emit.Follows.modify (h₂.offset o').countTableImport
  · refine follows_bind (follows_quiet (quiet_readMemory inp) fun limits o' hlimits => ?_)
    refine follows_bind (follows_callback ⟨_, by simp [Proto.step, hlimits, hp₂]; rfl, ?_⟩)
    exact Emit.Follows.modify (h₂.offset o').countMemoryImport
  · refine follows_bind (follows_quiet (quiet_readGlobalHeader inp) fun header o' _ => ?_)
    refine follows_bind (follows_callback ⟨_, by simp [Proto.step, hp₂]; rfl, ?_⟩)
    exact Emit.Follows.modify (h₂.offset o').countGlobalImport
  · exact follows_raiseError

theorem readImportSection_follows {size : Nat} (h : At last 2 .opened c p) :
    FollowsProto inp p (readImportSection inp size) c fun _ c' p' => At last 2 .top c' p' := by
  obtain ⟨p₁, hp₁, h₁⟩ := h.goto .opened
  refine follows_bind (follows_callback ⟨p₁, hp₁, ?_⟩)
  refine follows_bind (follows_quiet (quiet_inU32Leb128 inp) fun count o _ => ?_)
  refine follows_bind (Emit.Follows.modify ?_)
  obtain ⟨p₂, hp₂, h₂⟩ := h₁.goto (.entries count 0)
  refine follows_bind (follows_callback ⟨p₂, hp₂, ?_⟩)
  refine follows_bind (follows_entries (fun k c p hk h => readImport_follows inp hk h)
    { h₂ with } fun c p h => ?_)
  exact follows_callback h.endSection

theorem readFunctionSection_follows {size : Nat} (h : At last 3 .opened c p) :
    FollowsProto inp p (readFunctionSection inp size) c fun _ c' p' => At last 3 .top c' p' := by
  obtain ⟨p₁, hp₁, h₁⟩ := h.goto .opened
  refine follows_bind (follows_callback ⟨p₁, hp₁, ?_⟩)
  refine follows_bind (follows_quiet (quiet_inU32Leb128 inp) fun count o _ => ?_)
  refine follows_bind (Emit.Follows.modify ?_)
  obtain ⟨p₂, hp₂, h₂⟩ := h₁.goto (.entries count 0)
  refine follows_bind (follows_callback
    ⟨{ p₂ with numFunctionSignatures := count }, by simp [Proto.step, hp₂], ?_⟩)
  refine follows_bind (follows_entries ?_ { h₂ with numFunctionSignatures := rfl }
    fun c p h => ?_)
  · intro k c p hk h
    refine follows_bind (follows_quiet (quiet_inU32Leb128 inp) fun sigIndex o _ => ?_)
    refine follows_bind (Emit.Follows.get ?_)
    refine follows_bind (follows_unless fun hlt => ?_)
    have hsig : sigIndex < p.numSignatures := h.numSignatures ▸ of_decide_eq_true hlt
    obtain ⟨p', hp', h'⟩ := (h.offset o).entry hk
    exact follows_callback ⟨p', by simp [Proto.step, hsig, hp'], h'⟩
  · exact follows_callback h.endSection

theorem readTableSection_follows {size : Nat} (h : At last 4 .opened c p) :
    FollowsProto inp p (readTableSection inp size) c fun _ c' p' => At last 4 .top c' p' := by
  obtain ⟨p₁, hp₁, h₁⟩ := h.goto .opened
  refine follows_bind (follows_callback ⟨p₁, hp₁, ?_⟩)
  refine follows_bind (follows_quiet (quiet_inU32Leb128 inp) fun count o _ => ?_)
  refine follows_bind (Emit.Follows.modify ?_)
  refine follows_bind (follows_unless fun hcount => ?_)
  obtain ⟨p₂, hp₂, h₂⟩ := h₁.goto (.entries count 0)
  refine follows_bind (follows_callback ⟨{ p₂ with numTables := count },
    by simp [Proto.step, hp₂, of_decide_eq_true hcount], ?_⟩)
  refine follows_bind (follows_entries ?_ { h₂ with numTables := rfl } fun c p h => ?_)
  · intro k c p hk h
    refine follows_bind (follows_quiet (quiet_readTable inp) fun limits o hlimits => ?_)
    obtain ⟨p', hp', h'⟩ := (h.offset o).entry hk
    exact follows_callback ⟨p', by simp [Proto.step, hlimits, hp'], h'⟩
  · exact follows_callback h.endSection

theorem readMemorySection_follows {size : Nat} (h : At last 5 .opened c p) :
    FollowsProto inp p (readMemorySection inp size) c fun _ c' p' => At last 5 .top c' p' := by
  obtain ⟨p₁, hp₁, h₁⟩ := h.goto .opened
  refine follows_bind (follows_callback ⟨p₁, hp₁, ?_⟩)
  refine follows_bind (follows_quiet (quiet_inU32Leb128 inp) fun count o _ => ?_)
  refine follows_bind (Emit.Follows.modify ?_)
  refine follows_bind (follows_unless fun hcount => ?_)
  obtain ⟨p₂, hp₂, h₂⟩ := h₁.goto (.entries count 0)
  refine follows_bind (follows_callback ⟨{ p₂ with numMemories := count },
    by simp [Proto.step, hp₂, of_decide_eq_true hcount], ?_⟩)
  refine follows_bind (follows_entries ?_ { h₂ with numMemories := rfl } fun c p h => ?_)
  · intro k c p hk h
    refine follows_bind (follows_quiet (quiet_readMemory inp) fun limits o hlimits => ?_)
    obtain ⟨p', hp', h'⟩ := (h.offset o).entry hk
    exact follows_callback ⟨p', by simp [Proto.step, hlimits, hp'], h'⟩
  · exact follows_callback h.endSection

theorem readGlobal_follows (hk : k < n) (h : At last 6 (.entries n k) c p) :
    FollowsProto inp p (readGlobal inp k) c
      fun _ c' p' => At last 6 (.entries n (k + 1)) c' p' := by
  refine follows_bind (follows_quiet (quiet_readGlobalHeader inp) fun header o _ => ?_)
  obtain ⟨p₁, hp₁, h₁⟩ := (h.offset o).beginEntry hk .beforeInit
  refine follows_bind (follows_callback ⟨p₁, hp₁, ?_⟩)
  obtain ⟨p₂, hp₂, h₂⟩ := h₁.beginInit hk
  refine follows_bind (follows_callback ⟨p₂, hp₂, ?_⟩)
  refine follows_bind ((readInitExpr_follows inp hk h₂).mono ?_)
  rintro _ c p ⟨rfl, h⟩
  obtain ⟨p₃, hp₃, h₃⟩ := h.endInit hk
  refine follows_bind (follows_callback ⟨p₃, hp₃, ?_⟩)
  refine follows_callback ⟨{ p₃ with phase := .entries n (k + 1) }, ?_, h₃.setPhase _⟩
  simp [Proto.step, h₃.phase_eq, h₃.code_eq]

theorem readGlobalSection_follows {size : Nat} (h : At last 6 .opened c p) :
    FollowsProto inp p (readGlobalSection inp size) c fun _ c' p' => At last 6 .top c' p' := by
  obtain ⟨p₁, hp₁, h₁⟩ := h.goto .opened
  refine follows_bind (follows_callback ⟨p₁, hp₁, ?_⟩)
  refine follows_bind (follows_quiet (quiet_inU32Leb128 inp) fun count o _ => ?_)
  refine follows_bind (Emit.Follows.modify ?_)
  obtain ⟨p₂, hp₂, h₂⟩ := h₁.goto (.entries count 0)
  refine follows_bind (follows_callback
    ⟨{ p₂ with numGlobals := count }, by simp [Proto.step, hp₂], ?_⟩)
  refine follows_bind (follows_entries (fun k c p hk h => readGlobal_follows inp hk h)
    { h₂ with numGlobals := rfl } fun c p h => ?_)
  exact follows_callback h.endSection

theorem readExport_follows (hk : k < n) (h : At last 7 (.entries n k) c p) :
    FollowsProto inp p (readExport inp k) c
      fun _ c' p' => At last 7 (.entries n (k + 1)) c' p' := by
  refine follows_bind (follows_quiet (quiet_inStr inp) fun name o₁ _ => ?_)
  refine follows_bind (follows_quiet (quiet_inU8 inp) fun externalKind o₂ _ => ?_)
  refine follows_bind (follows_unless fun _ => ?_)
  refine follows_bind (follows_quiet (quiet_inU32Leb128 inp) fun itemIndex o₃ _ => ?_)
  refine follows_bind (Emit.Follows.get ?_)
  have hc := h.offset o₃
  obtain ⟨p', hp', h'⟩ := hc.entry hk
  have hexport : ∀ {kind : ExternalKind}, itemIndex < p.numTotal kind →
      ∃ p', Proto.step inp.data p (o₃, .onExport k kind itemIndex name) = some p' ∧
        At last 7 (.entries n (k + 1)) { c with offset := o₃ } p' :=
    fun hlt => ⟨p', by simp [Proto.step, hlt, hp'], h'⟩
  split_ifs
  · refine follows_bind (follows_unless fun hlt => follows_callback (hexport ?_))
    exact Nat.lt_of_lt_of_eq (of_decide_eq_true hlt) hc.numTotalFuncs
  · refine follows_bind (follows_unless fun hlt => follows_callback (hexport ?_))
    exact Nat.lt_of_lt_of_eq (of_decide_eq_true hlt) hc.numTotalTables
  · refine follows_bind (follows_unless fun hlt => follows_callback (hexport ?_))
    exact Nat.lt_of_lt_of_eq (of_decide_eq_true hlt) hc.numTotalMemories
  · refine follows_bind (follows_unless fun hlt => follows_callback (hexport ?_))
    exact Nat.lt_of_lt_of_eq (of_decide_eq_true hlt) hc.numTotalGlobals

theorem readExportSection_follows {size : Nat} (h : At last 7 .opened c p) :
    FollowsProto inp p (readExportSection inp size) c fun _ c' p' => At last 7 .top c' p' := by
  obtain ⟨p₁, hp₁, h₁⟩ := h.goto .opened
  refine follows_bind (follows_callback ⟨p₁, hp₁, ?_⟩)
  refine follows_bind (follows_quiet (quiet_inU32Leb128 inp) fun count o _ => ?_)
  refine follows_bind (Emit.Follows.modify ?_)
  obtain ⟨p₂, hp₂, h₂⟩ := h₁.goto (.entries count 0)
  refine follows_bind (follows_callback ⟨p₂, hp₂, ?_⟩)
  refine follows_bind (follows_entries (fun k c p hk h => readExport_follows inp hk h)
    { h₂ with } fun c p h => ?_)
  exact follows_callback h.endSection

theorem readStartSection_follows {size : Nat} (h : At last 8 .opened c p) :
    FollowsProto inp p (readStartSection inp size) c fun _ c' p' => At last 8 .top c' p' := by
  obtain ⟨p₁, hp₁, h₁⟩ := h.goto .opened
  refine follows_bind (follows_callback ⟨p₁, hp₁, ?_⟩)
  refine follows_bind (follows_quiet (quiet_inU32Leb128 inp) fun funcIndex o _ => ?_)
  refine follows_bind (Emit.Follows.get ?_)
  refine follows_bind (follows_unless fun hlt => ?_)
  have hfunc : funcIndex < p₁.numTotalFuncs := (h₁.offset o).numTotalFuncs ▸ of_decide_eq_true hlt
  obtain ⟨p₂, hp₂, h₂⟩ := (h₁.offset o).goto (.entries 0 0)
  refine follows_bind (follows_callback ⟨p₂, by simp [Proto.step, hfunc, hp₂], ?_⟩)
  exact follows_callback h₂.endSection

theorem readElemSegment_follows (hk : k < n) (htables : 0 < p.numTotalTables)
    (h : At last 9 (.entries n k) c p) :
    FollowsProto inp p (readElemSegment inp k) c
      fun _ c' p' => At last 9 (.entries n (k + 1)) c' p' ∧ 0 < p'.numTotalTables := by
  refine follows_bind (follows_quiet (quiet_inU32Leb128 inp) fun tableIndex o _ => ?_)
  obtain ⟨p₁, hp₁, h₁⟩ := (h.offset o).beginEntry hk .beforeInit
  refine follows_bind (follows_callback ⟨p₁, by simp [Proto.step, htables, hp₁], ?_⟩)
  obtain ⟨p₂, hp₂, h₂⟩ := h₁.beginInit hk
  refine follows_bind (follows_callback ⟨p₂, hp₂, ?_⟩)
  refine follows_bind ((readInitExpr_follows inp hk h₂).mono ?_)
  rintro _ c' _ ⟨rfl, h'⟩
  obtain ⟨p₃, hp₃, h₃⟩ := h'.endInit hk
  refine follows_bind (follows_callback ⟨p₃, hp₃, ?_⟩)
  have htables₃ : 0 < p₃.numTotalTables := by
    rw [← h₃.numTotalTables, h'.numTotalTables, ← h₂.numTotalTables, (h.offset o).numTotalTables]
    exact htables
  refine follows_bind (follows_quiet (quiet_inU32Leb128 inp) fun m o _ => ?_)
  refine follows_bind (follows_callback ⟨{ p₃ with phase := .elemIndexes n k m 0 },
    by simp [Proto.step, h₃.phase_eq, h₃.code_eq, htables₃], ?_⟩)
  refine follows_bind ((Emit.Follows.forFrom (N := m) (I := fun j c p =>
    At last 9 (.elemIndexes n k m j) c p ∧ 0 < p.numTotalTables)
    ?_ (by omega) ⟨(h₃.setPhase _).offset o, htables₃⟩).mono ?_)
  · rintro j c p hj ⟨h, ht⟩
    refine follows_bind (follows_quiet (quiet_inU32Leb128 inp) fun funcIndex o _ => ?_)
    exact follows_callback ⟨{ p with phase := .elemIndexes n k m (j + 1) },
      by simp [Proto.step, h.phase_eq, hj, ht], (h.setPhase _).offset o, ht⟩
  · rintro _ c p ⟨h, ht⟩
    exact follows_callback ⟨{ p with phase := .entries n (k + 1) },
      by simp [Proto.step, h.phase_eq], h.setPhase _, ht⟩

theorem readElemSection_follows {size : Nat} (h : At last 9 .opened c p) :
    FollowsProto inp p (readElemSection inp size) c fun _ c' p' => At last 9 .top c' p' := by
  obtain ⟨p₁, hp₁, h₁⟩ := h.goto .opened
  refine follows_bind (follows_callback ⟨p₁, hp₁, ?_⟩)
  refine follows_bind (follows_quiet (quiet_inU32Leb128 inp) fun count o _ => ?_)
  obtain ⟨p₂, hp₂, h₂⟩ := (h₁.offset o).goto (.entries count 0)
  refine follows_bind (follows_callback ⟨p₂, hp₂, ?_⟩)
  refine follows_bind (Emit.Follows.get ?_)
  refine follows_bind (follows_unless fun hcount => ?_)
  refine follows_bind (follows_entries_of (K := fun p => count = 0 ∨ 0 < p.numTotalTables)
    ?_ h₂ (h₂.numTotalTables ▸ of_decide_eq_true hcount) fun c p h => ?_)
  · intro k c p hk h hK
    refine (readElemSegment_follows inp hk (hK.resolve_left (by omega)) h).mono ?_
    exact fun _ _ _ h' => ⟨h'.1, .inr h'.2⟩
  · exact follows_callback h.endSection

theorem readFunctionBodyEntry_follows (hk : k < n) (h : At last 10 (.entries n k) c p) :
    FollowsProto inp p (readFunctionBodyEntry inp k) c
      fun _ c' p' => At last 10 (.entries n (k + 1)) c' p' := by
  refine follows_bind (Emit.Follows.modify ?_)
  obtain ⟨p₁, hp₁, h₁⟩ := (h.offset (u32 c.offset)).beginEntry hk .bodyStart
  refine follows_bind (follows_callback ⟨p₁, hp₁, ?_⟩)
  refine follows_bind (follows_quiet (quiet_inU32Leb128 inp) fun bodySize o _ => ?_)
  refine follows_bind (Emit.Follows.get ?_)
  refine follows_bind (follows_quiet (quiet_inU32Leb128 inp) fun decls o' _ => ?_)
  let phase (j : Nat) : Phase := if j = decls then .instrs n k else .localDecls n k decls j
  refine follows_bind (follows_callback ⟨{ p₁ with phase := phase 0 }, ?_, ?_⟩)
  · by_cases hd : decls = 0 <;> simp [Proto.step, Proto.bodyStep, h₁.phase_eq, phase, hd, eq_comm]
  refine follows_bind ((Emit.Follows.forFrom (N := decls) (I := fun j c p =>
    At last 10 (phase j) c p) ?_ (by omega) ((h₁.setPhase _).offset o')).mono ?_)
  · intro j c p hj h
    have hphase : p.phase = .localDecls n k decls j := by
      rw [h.phase_eq]
      exact if_neg (by omega)
    refine follows_bind (follows_quiet (quiet_inU32Leb128 inp) fun count o _ => ?_)
    refine follows_bind (follows_quiet (quiet_inConcreteType inp) fun type o' _ => ?_)
    exact follows_callback ⟨{ p with phase := phase (j + 1) },
      by simp [Proto.step, Proto.bodyStep, hphase, hj, phase], (h.setPhase _).offset o'⟩
  · intro _ c p h
    have hphase : phase decls = .instrs n k := if_pos rfl
    rw [hphase] at h
    refine follows_bind ((readFunctionBody_follows inp h).mono ?_)
    rintro _ c p ⟨hoff, h⟩
    exact follows_callback ⟨{ p with phase := .entries n (k + 1) },
      by simp [Proto.step, Proto.bodyStep, h.phase_eq, hoff], h.setPhase _⟩

theorem readCodeSection_follows {size : Nat} (h : At last 10 .opened c p) :
    FollowsProto inp p (readCodeSection inp size) c fun _ c' p' => At last 10 .top c' p' := by
  obtain ⟨p₁, hp₁, h₁⟩ := h.goto .opened
  refine follows_bind (follows_callback ⟨p₁, hp₁, ?_⟩)
  refine follows_bind (follows_quiet (quiet_inU32Leb128 inp) fun count o _ => ?_)
  refine follows_bind (Emit.Follows.modify ?_)
  refine follows_bind (Emit.Follows.get ?_)
  refine follows_bind (follows_unless fun hcount => ?_)
  have hcount' : count = p₁.numFunctionSignatures :=
    h₁.numFunctionSignatures ▸ (of_decide_eq_true hcount).symm
  obtain ⟨p₂, hp₂, h₂⟩ := h₁.goto (.entries count 0)
  refine follows_bind (follows_callback ⟨p₂, by simp [Proto.step, ← hcount', hp₂], ?_⟩)
  refine follows_bind (follows_entries (fun k c p hk h => readFunctionBodyEntry_follows inp hk h)
    { h₂ with } fun c p h => ?_)
  exact follows_callback h.endSection

theorem readDataSegment_follows (hk : k < n) (hmem : 0 < p.numTotalMemories)
    (h : At last 11 (.entries n k) c p) :
    FollowsProto inp p (readDataSegment inp k) c
      fun _ c' p' => At last 11 (.entries n (k + 1)) c' p' ∧ 0 < p'.numTotalMemories := by
  refine follows_bind (follows_quiet (quiet_inU32Leb128 inp) fun memoryIndex o _ => ?_)
  obtain ⟨p₁, hp₁, h₁⟩ := (h.offset o).beginEntry hk .beforeInit
  refine follows_bind (follows_callback ⟨p₁, by simp [Proto.step, hmem, hp₁], ?_⟩)
  obtain ⟨p₂, hp₂, h₂⟩ := h₁.beginInit hk
  refine follows_bind (follows_callback ⟨p₂, hp₂, ?_⟩)
  refine follows_bind ((readInitExpr_follows inp hk h₂).mono ?_)
  rintro _ c' _ ⟨rfl, h'⟩
  obtain ⟨p₃, hp₃, h₃⟩ := h'.endInit hk
  refine follows_bind (follows_callback ⟨p₃, hp₃, ?_⟩)
  have hmem₃ : 0 < p₃.numTotalMemories := by
    rw [← h₃.numTotalMemories, h'.numTotalMemories, ← h₂.numTotalMemories,
      (h.offset o).numTotalMemories]
    exact hmem
  refine follows_bind (follows_quiet (quiet_inBytes inp) fun data o _ => ?_)
  refine follows_bind (follows_callback ⟨{ p₃ with phase := .dataRead n k },
    by simp [Proto.step, h₃.phase_eq, h₃.code_eq, hmem₃], ?_⟩)
  exact follows_callback ⟨{ p₃ with phase := .entries n (k + 1) },
    by simp [Proto.step], (h₃.setPhase _).offset o, hmem₃⟩

theorem readDataSection_follows {size : Nat} (h : At last 11 .opened c p) :
    FollowsProto inp p (readDataSection inp size) c fun _ c' p' => At last 11 .top c' p' := by
  obtain ⟨p₁, hp₁, h₁⟩ := h.goto .opened
  refine follows_bind (follows_callback ⟨p₁, hp₁, ?_⟩)
  refine follows_bind (follows_quiet (quiet_inU32Leb128 inp) fun count o _ => ?_)
  obtain ⟨p₂, hp₂, h₂⟩ := (h₁.offset o).goto (.entries count 0)
  refine follows_bind (follows_callback ⟨p₂, hp₂, ?_⟩)
  refine follows_bind (Emit.Follows.get ?_)
  refine follows_bind (follows_unless fun hcount => ?_)
  refine follows_bind (follows_entries_of (K := fun p => count = 0 ∨ 0 < p.numTotalMemories)
    ?_ h₂ (h₂.numTotalMemories ▸ of_decide_eq_true hcount) fun c p h => ?_)
  · intro k c p hk h hK
    refine (readDataSegment_follows inp hk (hK.resolve_left (by omega)) h).mono ?_
    exact fun _ _ _ h' => ⟨h'.1, .inr h'.2⟩
  · exact follows_callback h.endSection

theorem readFunctionNames_follows {code : Nat} (hk : k < n) (hn : n ≤ p.numTotalFuncs)
    (h : At last code (.names n k) c p) :
    FollowsProto inp p (readFunctionNames inp k) c
      fun _ c' p' => At last code (.names n (k + 1)) c' p' ∧ n ≤ p'.numTotalFuncs := by
  refine follows_bind (follows_quiet (quiet_inStr inp) fun _ o _ => ?_)
  refine follows_bind (follows_callback ⟨p, by simp [Proto.step, h.phase_eq, hk, hn], ?_⟩)
  refine follows_bind (follows_quiet (quiet_inU32Leb128 inp) fun m o' _ => ?_)
  let phase (j : Nat) : Phase := if j = m then .names n (k + 1) else .localNames n k m j
  refine follows_bind (follows_callback ⟨{ p with phase := phase 0 }, ?_, ?_⟩)
  · by_cases hm : m = 0 <;> simp [Proto.step, h.phase_eq, hk, hn, phase, hm, eq_comm]
  refine (Emit.Follows.forFrom (N := m) (I := fun j c p =>
    At last code (phase j) c p ∧ n ≤ p.numTotalFuncs) ?_ (by omega)
    ⟨(h.setPhase _).offset o', hn⟩).mono ?_
  · rintro j c p hj ⟨h, hn⟩
    have hphase : p.phase = .localNames n k m j := by
      rw [h.phase_eq]
      exact if_neg (by omega)
    refine follows_bind (follows_quiet (quiet_inStr inp) fun _ o _ => ?_)
    exact follows_callback ⟨{ p with phase := phase (j + 1) },
      by simp [Proto.step, hphase, hk, hj, hn, phase], (h.setPhase _).offset o, hn⟩
  · rintro _ c p ⟨h, hn⟩
    have hphase : phase m = .names n (k + 1) := if_pos rfl
    exact ⟨hphase ▸ h, hn⟩

theorem readCustomSection_follows {code size : Nat} (h : At last code .custom c p) :
    FollowsProto inp p (readCustomSection inp size) c fun _ c' p' => At last code .top c' p' := by
  have hend : ∀ {c p}, At last code .custom c p →
      FollowsProto inp p (callback .endCustomSection) c fun _ c' p' => At last code .top c' p' :=
    fun {c p} h => follows_callback ⟨{ p with phase := .top }, if_pos h.phase_eq, h.setPhase _⟩
  refine follows_bind (follows_quiet (quiet_inStr inp) fun name o _ => ?_)
  have h := h.offset o
  refine follows_bind (follows_callback ⟨p, if_pos h.phase_eq, ?_⟩)
  refine follows_bind (Emit.Follows.get ?_)
  split
  · refine follows_bind (follows_callback ⟨p, if_pos h.phase_eq, ?_⟩)
    refine follows_bind (follows_quiet (quiet_inU32Leb128 inp) fun count o _ => ?_)
    have h := h.offset o
    refine follows_bind (follows_unless fun hcount => ?_)
    have hle : count ≤ p.numTotalFuncs := h.numTotalFuncs ▸ of_decide_eq_true hcount
    refine follows_bind (follows_callback ⟨{ p with phase := .names count 0 },
      if_pos ⟨h.phase_eq, hle⟩, ?_⟩)
    refine follows_bind ((Emit.Follows.forFrom (N := count) (I := fun k c p =>
      At last code (.names count k) c p ∧ count ≤ p.numTotalFuncs) ?_ (by omega)
      ⟨h.setPhase _, hle⟩).mono ?_)
    · exact fun k c p hk h => readFunctionNames_follows inp hk h.2 h.1
    · rintro _ c p ⟨h, -⟩
      refine follows_bind (follows_callback ⟨{ p with phase := .custom }, ?_, hend (h.setPhase _)⟩)
      simp [Proto.step, h.phase_eq]
  · exact follows_bind (Emit.Follows.modify (hend { h with }))

theorem readSectionPayload_follows {sectionCode size : Nat} (h₀ : sectionCode ≠ 0)
    (h : At last sectionCode .opened c p) :
    FollowsProto inp p (readSectionPayload inp sectionCode size) c
      fun _ c' p' => At last sectionCode .top c' p' := by
  unfold readSectionPayload
  split
  · exact absurd rfl h₀
  · exact readTypeSection_follows inp h
  · exact readImportSection_follows inp h
  · exact readFunctionSection_follows inp h
  · exact readTableSection_follows inp h
  · exact readMemorySection_follows inp h
  · exact readGlobalSection_follows inp h
  · exact readExportSection_follows inp h
  · exact readStartSection_follows inp h
  · exact readElemSection_follows inp h
  · exact readCodeSection_follows inp h
  · exact readDataSection_follows inp h
  · exact follows_raiseError

/-- Between two sections: the reader's last known section is the automaton's. -/
def BetweenSections (c : Context) (p : Proto) : Prop :=
  ∃ last code, At last code .top c p ∧
    (last = numBinarySections ∧ code = 0 ∨ last = code ∧ code < numBinarySections)

theorem readSection_follows (h : BetweenSections c p) :
    FollowsProto inp p (readSection inp) c fun _ c' p' => BetweenSections c' p' := by
  obtain ⟨last, code, h, hlast⟩ := h
  refine follows_bind (Emit.Follows.modify ?_)
  refine follows_bind (follows_quiet (quiet_inU32Leb128 inp) fun sectionCode o _ => ?_)
  refine follows_bind (follows_quiet (quiet_inU32Leb128 inp) fun sectionSize o' _ => ?_)
  refine follows_bind (Emit.Follows.modify ?_)
  have h := ((h.readEnd inp.data.length).offset o').readEnd (o' + sectionSize)
  refine follows_bind (Emit.Follows.get ?_)
  refine follows_bind (follows_unless fun _ => ?_)
  refine follows_bind (follows_unless fun horder => ?_)
  rcases Nat.eq_zero_or_pos sectionCode with rfl | hpos
  · refine follows_bind (follows_callback ⟨{ p with phase := .custom }, ?_, ?_⟩)
    · simp [Proto.step, Proto.beginSection, h.phase_eq]
    refine follows_bind ((readCustomSection_follows inp (h.setPhase _)).mono fun _ c p h => ?_)
    refine follows_bind (Emit.Follows.get (follows_bind (follows_unless fun _ => ?_)))
    exact follows_pure ⟨last, code, h, hlast⟩
  have hne : sectionCode ≠ 0 := by omega
  by_cases hlt : sectionCode < numBinarySections
  · have hcode : p.sectionCode < sectionCode := by
      have horder := of_decide_eq_true horder
      rw [h.last_eq] at horder
      rw [h.code_eq]
      omega
    refine follows_bind (follows_callback
      ⟨{ p with phase := .opened, sectionCode := sectionCode }, ?_, ?_⟩)
    · simp [Proto.step, Proto.beginSection, h.phase_eq, hne, hcode, hlt]
    refine follows_bind ((readSectionPayload_follows inp hne (h.openSection _)).mono ?_)
    intro _ c p h
    refine follows_bind (Emit.Follows.get (follows_bind (follows_unless fun _ => ?_)))
    rw [if_pos hne]
    exact Emit.Follows.modify
      ⟨sectionCode, sectionCode, { h with last_eq := rfl }, .inr ⟨rfl, hlt⟩⟩
  · refine follows_bind (follows_callback ⟨{ p with phase := .finished }, ?_, ?_⟩)
    · simp [Proto.step, Proto.beginSection, h.phase_eq, hne, hlt]
    have hraise : readSectionPayload inp sectionCode sectionSize = raiseError := by
      unfold readSectionPayload
      split <;> first | rfl | (simp only [numBinarySections] at hlt; omega)
    rw [hraise]
    exact follows_bind follows_raiseError

theorem readSections_follows : ∀ (fuel : Nat) (c : Context) (p : Proto), BetweenSections c p →
    FollowsProto inp p (readSections inp fuel) c fun _ c' p' => BetweenSections c' p'
  | 0, c, p, h => follows_pure h
  | fuel + 1, c, p, h => by
      refine follows_bind (Emit.Follows.get ?_)
      split
      · exact follows_bind ((readSection_follows inp h).mono fun _ c p h =>
          readSections_follows fuel c p h)
      · exact follows_pure h

theorem readModule_follows :
    FollowsProto inp .initial (readModule inp) (initialContext inp)
      fun _ _ p' => p'.phase = .finished := by
  refine follows_bind (follows_quiet (quiet_inU32 inp) fun magic o _ => ?_)
  refine follows_bind (follows_unless fun _ => ?_)
  refine follows_bind (follows_quiet (quiet_inU32 inp) fun version o' _ => ?_)
  refine follows_bind (follows_unless fun _ => ?_)
  refine follows_bind (follows_callback ⟨{ Proto.initial with phase := .top }, rfl, ?_⟩)
  refine follows_bind ((readSections_follows inp _ _ _ ⟨numBinarySections, 0, ?_, .inl ⟨rfl, rfl⟩⟩).mono
    fun _ c p ⟨_, _, h, _⟩ => ?_)
  · exact ⟨rfl, rfl, rfl, rfl, rfl, rfl, rfl, rfl, rfl, rfl, rfl, rfl⟩
  · exact follows_callback ⟨{ p with phase := .finished }, if_pos h.phase_eq, rfl⟩

end Functions

/-- The automaton accepts the trace of every input. -/
theorem trace_follows (inp : Input) :
    ∃ p, Emit.accept (Proto.step inp.data) .initial (trace inp) = some p :=
  (readModule_follows inp).imp fun _ h => h.1

/-- A read that succeeds has run all the callbacks of a finished trace. -/
theorem trace_complete {σ : Type} {reader : Event → Callback σ Unit} {options : ReadBinaryOptions}
    {data : List UInt8} {s s' : σ} {u : Unit}
    (h : wasmReadBinary reader options data s = .ok u s') :
    ∃ p, Emit.accept (Proto.step data) .initial (trace { data, options }) = some p ∧
      p.phase = .finished ∧
      runEvents reader ((trace { data, options }).map Prod.snd) s = .ok () s' := by
  obtain ⟨p, hacc, hfinished⟩ := readModule_follows { data, options }
  obtain ⟨hrun, c, hres⟩ := wasmReadBinary_eq_ok.mp h
  exact ⟨p, hacc, hfinished () c hres, hrun⟩

/-- The invariant rule for a client of the reader. -/
theorem wasmReadBinary_invariant {σ : Type} {reader : Event → Callback σ Unit}
    {options : ReadBinaryOptions} {data : List UInt8} {s : σ} {J : Proto → σ → Prop}
    {E : σ → Prop} {P : σ → Event → Prop}
    (hstep : ∀ p p' o e s, J p s → Proto.step data p (o, e) = some p' →
      (∀ s', reader e s = .ok () s' → P s e → J p' s') ∧ (∀ s', reader e s = .error s' → E s'))
    (hinit : J .initial s) (hend : ∀ p s, J p s → E s)
    (hall : AllSteps reader P (events { data, options }) s) :
    (∀ s', wasmReadBinary reader options data s = .ok () s' →
      ∃ p, p.phase = .finished ∧ J p s') ∧
      ∀ s', wasmReadBinary reader options data s = .error s' → E s' := by
  obtain ⟨p, hacc, hfinished⟩ := readModule_follows { data, options }
  have hinv := runEvents_invariant (J := J) (E := E) (P := fun s (e : Nat × Event) => P s e.2)
    (fun p p' e s => hstep p p' e.1 e.2 s) hacc hinit ((allSteps_map Prod.snd _ _).mp hall)
  rw [← runEvents_map] at hinv
  refine ⟨fun s' h => ?_, fun s' h => ?_⟩
  · obtain ⟨hrun, c, hres⟩ := wasmReadBinary_eq_ok.mp h
    exact ⟨p, hfinished () c hres, hinv.1 s' hrun⟩
  · rcases wasmReadBinary_eq_error h with hrun | hrun
    · exact hinv.2 s' hrun
    · exact hend p s' (hinv.1 s' hrun)

/-- The rule for what a client knows in front of a callback from the ones before it. -/
theorem wasmReadBinary_history {σ : Type} {reader : Event → Callback σ Unit}
    {options : ReadBinaryOptions} {data : List UInt8} {s s' : σ}
    {J : List (σ × Event) → Proto → σ → Prop}
    (hstep : ∀ h p p' o e s s', J h p s → Proto.step data p (o, e) = some p' →
      reader e s = .ok () s' → J (h ++ [(s, e)]) p' s')
    (hinit : J [] .initial s) (hread : wasmReadBinary reader options data s = .ok () s')
    {e : Event} {es es' : List Event} (hevents : events { data, options } = es ++ e :: es') :
    ∃ p p' o s₁ s₂, J (history reader es s) p s₁ ∧ Proto.step data p (o, e) = some p' ∧
      runEvents reader es s = .ok () s₁ ∧ reader e s₁ = .ok () s₂ := by
  obtain ⟨p, hacc, -, hrun⟩ := trace_complete hread
  obtain ⟨tr, tr', htrace, rfl, htr'⟩ := List.map_eq_append_iff.mp hevents
  obtain ⟨⟨o, e⟩, tr', rfl, rfl, rfl⟩ := List.map_eq_cons_iff.mp htr'
  rw [runEvents_map] at hrun
  rw [htrace] at hacc hrun
  obtain ⟨p₁, p₂, s₁, s₂, hJ, hp, hrun₁, he⟩ := history_at
    (J := fun h p s => J (h.map fun read => (read.1, read.2.2)) p s)
    (fun h p p' e s s' hJ hp he => by
      rw [List.map_append]
      exact hstep _ p p' e.1 e.2 s s' hJ hp he) hacc hinit hrun
  rw [history_map, runEvents_map]
  exact ⟨p₁, p₂, o, s₁, s₂, hJ, hp, hrun₁, he⟩

/-- What is known at the end of a read that succeeds. -/
theorem wasmReadBinary_history_finished {σ : Type} {reader : Event → Callback σ Unit}
    {options : ReadBinaryOptions} {data : List UInt8} {s s' : σ}
    {J : List (σ × Event) → Proto → σ → Prop}
    (hstep : ∀ h p p' o e s s', J h p s → Proto.step data p (o, e) = some p' →
      reader e s = .ok () s' → J (h ++ [(s, e)]) p' s')
    (hinit : J [] .initial s) (hread : wasmReadBinary reader options data s = .ok () s') :
    ∃ p, p.phase = .finished ∧ J (history reader (events { data, options }) s) p s' := by
  obtain ⟨p, hacc, hfinished, hrun⟩ := trace_complete hread
  rw [runEvents_map] at hrun
  have hJ := runEvents_history (h := [])
    (J := fun h p s => J (h.map fun read => (read.1, read.2.2)) p s)
    (fun h p p' e s s' hJ hp he => by
      rw [List.map_append]
      exact hstep _ p p' e.1 e.2 s s' hJ hp he) hacc hinit hrun
  rw [List.nil_append] at hJ
  rw [events, history_map]
  exact ⟨p, hfinished, hJ⟩

end BinaryReader

end SexprWasm
