import SexprWasm.BinaryReader.ProtocolSound

/-!
# What the order of the callbacks says about counts

Which callback changes which counter of the automaton (`step_counts`),
and what the order of the sections makes of them. A section is reached
when its count has been read, or a later section has begun. A counter
is 0 until its section is reached (`Ordered`), and an entry of a section
has been read when its last callback has been made or the section is
over (`entryRead`).
-/

namespace SexprWasm

namespace Phase

/-- The sections in which the reader can be in a phase. -/
def fits (code : Nat) : Phase → Prop
  | .importKind _ _ => code = 2
  | .beforeInit _ _ | .inInit _ _ | .afterInit _ _ => code = 6 ∨ code = 9 ∨ code = 11
  | .elemIndexes .. => code = 9
  | .dataRead _ _ => code = 11
  | .bodyStart _ _ | .localDecls .. | .instrs _ _ | .opcode .. => code = 10
  | _ => True

/-- How many entries its section has, and how many of them are behind the reader. -/
def entry? : Phase → Option (Nat × Nat)
  | .entries n k | .importKind n k | .beforeInit n k | .inInit n k | .afterInit n k
  | .elemIndexes n k _ _ | .dataRead n k | .bodyStart n k | .localDecls n k _ _ | .instrs n k
  | .opcode n k _ _ => some (n, k)
  | _ => none

end Phase

namespace Proto

/-- The counters after a callback. -/
def count (p : Proto) : Event → Proto
  | .onSignatureCount count => { p with numSignatures := count }
  | .onImportFunc .. => { p with numFuncImports := p.numFuncImports + 1 }
  | .onImportTable .. => { p with numTableImports := p.numTableImports + 1 }
  | .onImportMemory .. => { p with numMemoryImports := p.numMemoryImports + 1 }
  | .onImportGlobal .. => { p with numGlobalImports := p.numGlobalImports + 1 }
  | .onFunctionSignaturesCount count => { p with numFunctionSignatures := count }
  | .onTableCount count => { p with numTables := count }
  | .onMemoryCount count => { p with numMemories := count }
  | .onGlobalCount count => { p with numGlobals := count }
  | _ => p

/-- The counter of a section. -/
def counter? (p : Proto) (code : Nat) : Option Nat :=
  if code = 1 then some p.numSignatures
  else if code = 3 then some p.numFunctionSignatures
  else if code = 4 then some p.numTables
  else if code = 5 then some p.numMemories
  else if code = 6 then some p.numGlobals
  else none

/-- The count of the section, if the reader has got to it, has been read. -/
def reached (p : Proto) (code : Nat) : Prop :=
  code < p.sectionCode ∨ code = p.sectionCode ∧ p.phase ≠ .opened

/-- The callbacks that read the entries of the function, table and memory sections. -/
def reads (code i : Nat) (e : Event) : Prop :=
  (code = 3 → ∃ sigIndex, e = .onFunctionSignature i sigIndex) ∧
    (code = 4 → ∃ limits, e = .onTable i limits) ∧
    (code = 5 → ∃ limits, e = .onMemory i limits)

/-- Entry `i` of the section has been read, if there is one. -/
def entryRead (p : Proto) (code i : Nat) : Prop :=
  p.reached code ∧ (p.sectionCode = code → ∀ n k, p.phase.entry? = some (n, k) → i < k)

/-- Where a callback leads: between sections and in a custom one, from the count of a section to
its entries, inside an entry, past it, or past the last of them. -/
inductive Move (p : Proto) (e : Event) (p' : Proto) : Prop
  | outside (hp : p.phase.entry? = none) (hp' : p'.phase.entry? = none)
      (hcode : p.sectionCode ≤ p'.sectionCode)
      (hopened : p'.phase = .opened → p.phase = .opened ∨ p.sectionCode < p'.sectionCode)
      (hcount : ∀ code, p'.counter? code = p.counter? code)
  | count (n : Nat) (hp : p.phase = .opened) (hp' : p'.phase = .entries n 0)
      (hcode : p'.sectionCode = p.sectionCode)
      (hcount : ∀ m, p'.counter? p.sectionCode = some m → n = m)
      (hothers : ∀ code, code ≠ p.sectionCode → p'.counter? code = p.counter? code)
  | inside (n k : Nat) (hp : p.phase.entry? = some (n, k)) (hp' : p'.phase.entry? = some (n, k))
      (hcode : p'.sectionCode = p.sectionCode) (hcount : ∀ code, p'.counter? code = p.counter? code)
  | past (n k : Nat) (hp : p.phase.entry? = some (n, k)) (hp' : p'.phase = .entries n (k + 1))
      (hcode : p'.sectionCode = p.sectionCode) (hcount : ∀ code, p'.counter? code = p.counter? code)
      (hreads : reads p.sectionCode k e)
  | done (n k : Nat) (hp : p.phase = .entries n k) (hk : k = n) (hp' : p'.phase = .top)
      (hcode : p'.sectionCode = p.sectionCode) (hcount : ∀ code, p'.counter? code = p.counter? code)

variable {data : List UInt8} {p p' : Proto} {o : Nat} {e : Event}

theorem step_counts (h : Proto.step data p (o, e) = some p') :
    p' = { p.count e with phase := p'.phase, sectionCode := p'.sectionCode } := by
  cases e
  all_goals
    simp only [Proto.step, Proto.goto, Proto.entry, Proto.endSection, Proto.beginEntry,
      Proto.importDone, Proto.beginInit, Proto.endInit, Proto.beginSection, Proto.bodyStep,
      Option.map_if] at h
    repeat' split at h
  all_goals cases h
  all_goals rfl

theorem step_fits (hp : p.phase.fits p.sectionCode) (h : Proto.step data p (o, e) = some p') :
    p'.phase.fits p'.sectionCode := by
  cases e
  all_goals
    simp only [Proto.step, Proto.goto, Proto.entry, Proto.endSection, Proto.beginEntry,
      Proto.importDone, Proto.beginInit, Proto.endInit, Proto.beginSection, Proto.bodyStep,
      Option.map_if] at h
    repeat' split at h
  all_goals cases h
  all_goals simp_all [Phase.fits]

theorem step_move (hp : p.phase.fits p.sectionCode) (h : Proto.step data p (o, e) = some p') :
    Move p e p' := by
  cases e
  all_goals
    simp only [Proto.step, Proto.goto, Proto.entry, Proto.endSection, Proto.beginEntry,
      Proto.importDone, Proto.beginInit, Proto.endInit, Proto.beginSection, Proto.bodyStep,
      Option.map_if] at h
    repeat' split at h
  all_goals cases h
  all_goals
    first
    | rename p.phase = _ => hphase
      first
      | refine .inside _ _ (hphase ▸ rfl) rfl rfl fun _ => rfl
      | refine .past _ _ (hphase ▸ rfl) rfl rfl (fun _ => rfl) ?_
        simp_all [reads, Phase.fits]
      | refine .done _ _ hphase ?_ rfl rfl fun _ => rfl
        simp_all
    | refine .outside ?_ ?_ ?_ ?_ (fun _ => rfl) <;> simp_all [Phase.entry?] <;> omega
    | refine .count _ ?_ rfl rfl ?_ ?_ <;> simp_all [counter?]

theorem step_reached (hp : p.phase.fits p.sectionCode) (h : Proto.step data p (o, e) = some p')
    {code : Nat} (hc : p.reached code) : p'.reached code := by
  unfold reached at hc ⊢
  cases step_move hp h with
  | outside _ _ hcode hopened => grind
  | count n _ hp' hcode => simp [hp', hcode]; omega
  | inside n k _ hp' hcode =>
      have : p'.phase ≠ .opened := by rintro h; simp [h, Phase.entry?] at hp'
      simp only [hcode]
      tauto
  | past n k _ hp' hcode => simp [hp', hcode]; omega
  | done n k _ _ hp' hcode => simp [hp', hcode]; omega

/-- The counters follow the order of the sections. -/
structure Ordered (p : Proto) : Prop where
  fits : p.phase.fits p.sectionCode
  unreached : ∀ code n, ¬p.reached code → p.counter? code = some n → n = 0
  counted : ∀ n k m, p.phase.entry? = some (n, k) → p.counter? p.sectionCode = some m → n = m

theorem ordered_initial : Ordered initial where
  fits := trivial
  unreached code n _ h := by
    simp only [counter?, initial] at h
    grind
  counted n k m h := by simp [initial, Phase.entry?] at h

theorem Ordered.step (hp : p.Ordered) (h : Proto.step data p (o, e) = some p') : p'.Ordered where
  fits := step_fits hp.fits h
  unreached code n hr hn := by
    have hr' : ¬p.reached code := fun hr' => hr (step_reached hp.fits h hr')
    refine hp.unreached code n hr' ?_
    cases step_move hp.fits h with
    | outside _ _ _ _ hcount => rwa [← hcount]
    | count n _ hp' hcode _ hothers =>
        rw [← hothers code, hn]
        rintro rfl
        simp [reached, hp', hcode] at hr
    | inside n k _ _ _ hcount => rwa [← hcount]
    | past n k _ _ _ hcount => rwa [← hcount]
    | done n k _ _ _ _ hcount => rwa [← hcount]
  counted n k m hk hm := by
    cases step_move hp.fits h with
    | outside _ hp' => simp [hp'] at hk
    | count n hp _ hcode hcount => grind [Phase.entry?]
    | inside n' k' hp0 hp' hcode hcount =>
        rw [hcode, hcount] at hm
        obtain ⟨rfl, rfl⟩ : n' = n ∧ k' = k := by simpa [hp'] using hk
        exact hp.counted _ _ _ hp0 hm
    | past n' k' hp0 hp' hcode hcount =>
        rw [hcode, hcount] at hm
        obtain ⟨rfl, -⟩ : n' = n ∧ k' + 1 = k := by simpa [hp', Phase.entry?] using hk
        exact hp.counted _ _ _ hp0 hm
    | done n k _ _ hp' => simp [hp', Phase.entry?] at hk

/-- The counters of later sections are still 0 when the callback of a section comes. -/
theorem Ordered.zero_of_count (hp : p.Ordered) (h : Proto.step data p (o, e) = some p') :
    (∀ n, e = .onSignatureCount n → p.numSignatures = 0) ∧
      (∀ i s, e = .onImportFunc i s → p.numFunctionSignatures = 0) ∧
      (∀ i t m, e = .onImportGlobal i t m → p.numGlobals = 0) ∧
      (∀ n, e = .onFunctionSignaturesCount n → p.numFunctionSignatures = 0) ∧
      ∀ n, e = .onGlobalCount n → p.numGlobals = 0 := by
  have hz := hp.unreached
  refine ⟨?_, ?_, ?_, ?_, ?_⟩
  · rintro n rfl
    simp only [Proto.step, goto, Option.map_eq_some_iff] at h
    exact hz 1 _ (by grind [reached]) rfl
  · rintro i s rfl
    simp only [Proto.step, importDone] at h
    exact hz 3 _ (by grind [reached]) rfl
  · rintro i t m rfl
    simp only [Proto.step, importDone] at h
    exact hz 6 _ (by grind [reached]) rfl
  · rintro n rfl
    simp only [Proto.step, goto, Option.map_eq_some_iff] at h
    exact hz 3 _ (by grind [reached]) rfl
  · rintro n rfl
    simp only [Proto.step, goto, Option.map_eq_some_iff] at h
    exact hz 6 _ (by grind [reached]) rfl

/-- An entry becomes read by its callback. -/
theorem Ordered.step_entryRead (hp : p.Ordered) (h : Proto.step data p (o, e) = some p')
    {code i n : Nat} (hn : p'.counter? code = some n) (hi : i < n) (hr : p'.entryRead code i) :
    p.entryRead code i ∨ reads code i e := by
  by_cases hr0 : p.reached code
  · cases step_move hp.fits h with
    | outside hp0 => exact .inl ⟨hr0, fun _ n k hk => by simp [hp0] at hk⟩
    | count m hp0 hp' hcode => grind [entryRead, Phase.entry?]
    | inside m k hp0 hp' hcode => exact .inl ⟨hr0, fun hc => by grind [entryRead]⟩
    | past m k hp0 hp' hcode hcount hreads =>
        by_cases hik : code = p.sectionCode ∧ i = k
        · exact .inr (hik.1 ▸ hik.2 ▸ hreads)
        · exact .inl ⟨hr0, fun hc => by grind [entryRead, Phase.entry?]⟩
    | done m k hp0 hk hp' hcode hcount =>
        rw [hcount] at hn
        refine .inl ⟨hr0, fun hc n' k' hk' => ?_⟩
        obtain ⟨rfl, rfl⟩ : m = n' ∧ k = k' := by simpa [hp0, Phase.entry?] using hk'
        have hm : m = n := hp.counted _ _ _ hk' (hc ▸ hn)
        omega
  · have hz := hp.unreached code
    cases step_move hp.fits h with
    | outside _ _ _ _ hcount => grind
    | count m hp0 hp' hcode hcount hothers =>
        by_cases hc : code = p.sectionCode
        · have hlt : i < 0 := hr.2 (hcode.trans hc.symm) m 0 (by rw [hp']; rfl)
          omega
        · grind
    | inside m k hp0 _ _ hcount => grind
    | past m k hp0 _ _ hcount => grind
    | done m k _ _ _ _ hcount => grind

end Proto

end SexprWasm
