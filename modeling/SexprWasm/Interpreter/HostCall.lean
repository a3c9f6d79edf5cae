import SexprWasm.Interpreter.StackEffect

/-!
# Calls of host functions

What `wasm_call_host` makes of the values in use: the parameters are
popped, and of the results of the callback those are pushed that come
before one of another type (`accepted`), as long as there is room
(`HostOverflow`). The callback fills in an array, so the number of
results is that of the signature (`HostFunc.Fills`).
-/

namespace SexprWasm

namespace Interpreter

/-- The C callback fills in an array of as many results as the signature has. -/
def HostFunc.Fills (func : HostFunc) : Prop :=
  ∀ sig args results, func.callback sig args = some results →
    results.length = sig.resultTypes.length

namespace Machine

open Callback

variable {m m' m'' : Machine} {vs ws args : List Nat} {base valueSize callSize : Nat}
  {func : HostFunc} {sig : FuncSignature}

/-! ## The parameters -/

theorem Fits.holds (h : m.Fits valueSize callSize base) :
    m.Holds (m.thread.valueStack.take m.thread.valueStackTop) := by
  have hle := h.value_le
  have hlen := h.valueStack_length
  refine ⟨?_, List.take_prefix _ _⟩
  rw [List.length_take]
  omega

/-- The types and the values last first. -/
theorem popArgs_run {types : List ValueType} {ws : List Nat} {m : Machine}
    (acc : List TypedValue) (h : m.Holds (vs ++ ws.reverse)) (hlen : ws.length = types.length) :
    popArgs types acc m =
      .ok ((List.zipWith (fun type v => ⟨type.toType, v⟩) types ws).reverse ++ acc)
        (m.setTop vs.length) := by
  induction types generalizing ws m acc with
  | nil =>
    obtain rfl := List.length_eq_zero_iff.mp hlen
    have htop := h.top_eq
    rw [List.reverse_nil, List.append_nil] at htop
    rw [← htop]
    rfl
  | cons type types ih =>
    cases ws with
    | nil => cases hlen
    | cons w ws =>
      rw [List.reverse_cons, ← List.append_assoc] at h
      rw [popArgs, bind_run, pop_run h]
      dsimp only
      rw [ih _ h.setTop (Nat.succ.inj hlen), setTop_setTop, List.zipWith_cons_cons,
        List.reverse_cons, List.append_assoc]
      rfl

theorem wp_popArgs : ∀ (types : List ValueType) (m : Machine) (acc : List TypedValue),
    wp (popArgs types acc) (fun _ m' => types.length ≤ m.thread.valueStackTop ∧
      m' = m.setTop (m.thread.valueStackTop - types.length)) (fun _ => False) True m
  | [], m, acc => ⟨Nat.zero_le _, rfl⟩
  | type :: types, m, acc => by
      refine wp_bind.mpr (wp_pop fun v htop => ?_)
      refine (wp_popArgs types _ _).mono (fun _ m' hok => ?_) (fun _ => id) id
      obtain ⟨hle, rfl⟩ := hok
      rw [setTop_valueStackTop] at hle ⊢
      rw [setTop_setTop, List.length_cons]
      exact ⟨by omega, congrArg m.setTop (by omega)⟩

/-- There are fewer values than parameters. -/
theorem popArgs_abort {types : List ValueType} (acc : List TypedValue)
    (h : m.thread.valueStackTop < types.length) : popArgs types acc m = .abort := by
  have hwp := wp_popArgs types m acc
  cases hrun : popArgs types acc m with
  | ok args m' => exact absurd (hwp.of_ok hrun).1 (not_le.mpr h)
  | error m' => exact (hwp.of_error hrun).elim
  | abort => rfl

/-- The arguments a host function is called with. -/
def hostArgs (sig : FuncSignature) (args : List Nat) : List TypedValue :=
  List.zipWith (fun type v => ⟨type.toType, v⟩) sig.paramTypes args

/-! ## The results -/

theorem checkStack_error (hge : m.thread.valueStack.length ≤ m.thread.valueStackTop) :
    checkStack m = .error { m with result := .trapValueStackExhausted } := by
  rw [checkStack, bind_run, get_run]
  dsimp only
  rw [trapIf_run, decide_eq_true hge, if_pos rfl]

theorem push_error (hge : m.thread.valueStack.length ≤ m.thread.valueStackTop) (v : Nat) :
    push v m = .error { m with result := .trapValueStackExhausted } := by
  rw [push, bind_run, checkStack_error hge]

/-- One result. -/
theorem pushResults_cons (type : ValueType) (types : List ValueType) (result : TypedValue)
    (results : List TypedValue) (m : Machine) :
    pushResults (type :: types) (result :: results) m =
      if result.type ≠ type.toType then .error { m with result := .trapHostResultTypeMismatch }
      else if m.thread.valueStack.length ≤ m.thread.valueStackTop then
        .error { m with result := .trapValueStackExhausted }
      else pushResults types results (m.put m.thread.valueStackTop result.value) := by
  rw [pushResults, bind_run, trapIf_run]
  by_cases htype : result.type = type.toType
  · rw [decide_eq_false (not_not.mpr htype), if_neg (by decide), if_neg (not_not.mpr htype)]
    dsimp only
    rw [bind_run]
    rcases Nat.lt_or_ge m.thread.valueStackTop m.thread.valueStack.length with hlt | hge
    · rw [push_run rfl hlt, if_neg (not_le.mpr hlt)]
    · rw [push_error hge, if_pos hge]
  · rw [decide_eq_true htype, if_pos rfl, if_pos htype]

theorem pushResults_run {types : List ValueType} {results : List TypedValue} (h : m.Holds vs)
    (htypes : results.map (·.type) = types.map ValueType.toType)
    (hroom : vs.length + results.length ≤ m.thread.valueStack.length) :
    ∃ m', pushResults types results m = .ok () m' ∧ m'.Holds (vs ++ results.map (·.value)) ∧
      m'.result = m.result := by
  induction types generalizing results m vs with
  | nil =>
    rw [List.map_nil, List.map_eq_nil_iff] at htypes
    subst htypes
    exact ⟨m, rfl, by rwa [List.map_nil, List.append_nil], rfl⟩
  | cons type types ih =>
    obtain ⟨result, results, rfl, htype, htypes⟩ := List.map_eq_cons_iff.mp htypes
    rw [List.length_cons] at hroom
    have hlt : vs.length < m.thread.valueStack.length := by omega
    have hput : (m.put vs.length result.value).Holds (vs ++ [result.value]) := by
      have h' : m.Holds (vs ++ []) := by rwa [List.append_nil]
      exact h'.put hlt
    obtain ⟨m', hrun, hholds, hresult⟩ := ih hput htypes (by
      rw [length_put, List.length_append, List.length_singleton]
      omega)
    refine ⟨m', ?_, by rwa [List.map_cons, List.append_cons], hresult⟩
    rw [pushResults_cons, if_neg (not_not.mpr htype), h.top_eq, if_neg (not_le.mpr hlt), hrun]

theorem pushResults_eq_ok {types : List ValueType} {results : List TypedValue}
    (hlen : results.length = types.length)
    (hle : m.thread.valueStackTop ≤ m.thread.valueStack.length)
    (hrun : pushResults types results m = .ok () m') :
    results.map (·.type) = types.map ValueType.toType ∧
      m.thread.valueStackTop + results.length ≤ m.thread.valueStack.length := by
  induction types generalizing results m with
  | nil =>
    obtain rfl := List.length_eq_zero_iff.mp hlen
    exact ⟨rfl, hle⟩
  | cons type types ih =>
    obtain ⟨result, results, rfl⟩ := List.exists_cons_of_length_eq_add_one hlen
    rw [pushResults_cons] at hrun
    by_cases htype : result.type = type.toType
    · rw [if_neg (not_not.mpr htype)] at hrun
      rcases Nat.lt_or_ge m.thread.valueStackTop m.thread.valueStack.length with hlt | hge
      · rw [if_neg (not_le.mpr hlt)] at hrun
        obtain ⟨htypes, hlast⟩ := ih (Nat.succ.inj hlen) (by rwa [length_put]) hrun
        rw [length_put] at hlast
        change m.thread.valueStackTop + 1 + results.length ≤ _ at hlast
        rw [List.map_cons, List.map_cons, htype, htypes, List.length_cons]
        exact ⟨rfl, by omega⟩
      · rw [if_pos hge] at hrun
        cases hrun
    · rw [if_pos htype] at hrun
      cases hrun

theorem pushResults_ne_abort {types : List ValueType} {results : List TypedValue}
    (hlen : results.length = types.length) : pushResults types results m ≠ .abort := by
  induction types generalizing results m with
  | nil =>
    intro hrun
    cases hrun
  | cons type types ih =>
    obtain ⟨result, results, rfl⟩ := List.exists_cons_of_length_eq_add_one hlen
    intro hrun
    rw [pushResults_cons] at hrun
    by_cases htype : result.type = type.toType
    · rw [if_neg (not_not.mpr htype)] at hrun
      rcases Nat.lt_or_ge m.thread.valueStackTop m.thread.valueStack.length with hlt | hge
      · rw [if_neg (not_le.mpr hlt)] at hrun
        exact ih (Nat.succ.inj hlen) hrun
      · rw [if_pos hge] at hrun
        cases hrun
    · rw [if_pos htype] at hrun
      cases hrun

/-- The results up to the first that has another type than the signature says. -/
def accepted : List ValueType → List TypedValue → Nat
  | type :: types, result :: results =>
    if result.type = type.toType then accepted types results + 1 else 0
  | _, _ => 0

theorem wp_pushResults (types : List ValueType) (results : List TypedValue)
    (h : m.Fits valueSize callSize base) :
    wp (pushResults types results)
      (fun _ m' => m'.Fits valueSize callSize base ∧
        m.thread.valueStackTop + accepted types results ≤ valueSize)
      (fun m' => m'.Fits valueSize callSize base ∧
        (m'.result = .trapValueStackExhausted ↔
          valueSize < m.thread.valueStackTop + accepted types results))
      (m.thread.valueStackTop + accepted types results ≤ valueSize) m := by
  induction types generalizing results m with
  | nil => exact ⟨h, h.value_le⟩
  | cons type types ih =>
    cases results with
    | nil => exact h.value_le
    | cons result results =>
      have hlen := h.valueStack_length
      rw [wp, pushResults_cons, accepted]
      by_cases htype : result.type = type.toType
      · rw [if_neg (not_not.mpr htype), if_pos htype]
        rcases Nat.lt_or_ge m.thread.valueStackTop m.thread.valueStack.length with hlt | hge
        · rw [if_neg (not_le.mpr hlt)]
          have hrest := ih results (@Fits.put _ _ _ _ _ result.value h (hlt.trans_eq hlen))
          rw [Machine.put, Nat.add_right_comm] at hrest
          exact hrest
        · rw [if_pos hge]
          exact ⟨h.congr rfl, iff_of_true rfl (by omega)⟩
      · rw [if_pos htype, if_neg htype]
        have hle := h.value_le
        refine ⟨h.congr rfl, iff_of_false (fun hresult => ?_) (by omega)⟩
        cases hresult

/-! ## The call -/

/-- There is no room for the results, as far as they are accepted. -/
def HostOverflow (func : HostFunc) (m : Machine) : Prop :=
  ∃ sig args results m', m.env.sigs[func.sigIndex]? = some sig ∧
    popArgs sig.paramTypes.reverse [] m = .ok args m' ∧ func.callback sig args = some results ∧
    m'.thread.valueStack.length < m'.thread.valueStackTop + accepted sig.resultTypes results

section

variable {callArgs results : List TypedValue} (hsig : m.env.sigs[func.sigIndex]? = some sig)
  (hargs : popArgs sig.paramTypes.reverse [] m = .ok callArgs m')

include hsig hargs

theorem hostOverflow_iff (hcall : func.callback sig callArgs = some results) :
    HostOverflow func m ↔
      m'.thread.valueStack.length <
        m'.thread.valueStackTop + accepted sig.resultTypes results := by
  refine ⟨?_, fun hlt => ⟨sig, callArgs, results, m', hsig, hargs, hcall, hlt⟩⟩
  rintro ⟨sig', callArgs', results', m₁, hsig', hargs', hcall', hlt⟩
  cases hsig.symm.trans hsig'
  cases hargs.symm.trans hargs'
  cases hcall.symm.trans hcall'
  exact hlt

theorem not_hostOverflow (hcall : func.callback sig callArgs = none) : ¬HostOverflow func m := by
  rintro ⟨sig', callArgs', results', m₁, hsig', hargs', hcall', -⟩
  cases hsig.symm.trans hsig'
  cases hargs.symm.trans hargs'
  cases hcall.symm.trans hcall'

theorem callHost_run :
    callHost (.host func) m =
      match func.callback sig callArgs with
      | none => .error { m' with result := .trapHostTrapped }
      | some results => pushResults sig.resultTypes results m' := by
  rw [callHost, bind_run, get_run]
  dsimp only
  rw [bind_run, hsig, orAbort_some_run]
  dsimp only
  rw [bind_run, hargs]
  dsimp only
  cases func.callback sig callArgs <;> rfl

end

/-- There is no such signature, or there are fewer values than parameters. -/
theorem callHost_abort (h : ∀ sig, m.env.sigs[func.sigIndex]? = some sig →
    popArgs sig.paramTypes.reverse [] m = .abort) :
    callHost (.host func) m = .abort ∧ ¬HostOverflow func m := by
  constructor
  · rw [callHost, bind_run, get_run]
    dsimp only
    rw [bind_run]
    rcases hsig : m.env.sigs[func.sigIndex]? with _ | sig
    · rw [orAbort_none_run]
    · rw [orAbort_some_run]
      dsimp only
      rw [bind_run, h sig hsig]
  · rintro ⟨sig, callArgs, results, m', hsig, hargs, -, -⟩
    rw [h sig hsig] at hargs
    cases hargs

/-- `HostOverflow` is where the call reports that there is no room. -/
theorem wp_callHost (func : HostFunc) (h : m.Fits valueSize callSize base) :
    wp (callHost (.host func))
      (fun _ m' => m'.Fits valueSize callSize base ∧ ¬HostOverflow func m)
      (fun m' => m'.Fits valueSize callSize base ∧
        (m'.result = .trapValueStackExhausted ↔ HostOverflow func m)) (¬HostOverflow func m) m := by
  rcases hsig : m.env.sigs[func.sigIndex]? with _ | sig
  · have habort := callHost_abort fun sig hsome => by rw [hsig] at hsome; cases hsome
    rw [wp, habort.1]
    exact habort.2
  have hpops := wp_popArgs sig.paramTypes.reverse m []
  rcases hargs : popArgs sig.paramTypes.reverse [] m with ⟨callArgs, m'⟩ | m' | _
  · obtain ⟨htop, hm'⟩ := hpops.of_ok hargs
    have hle := h.value_le
    have hfits : m'.Fits valueSize callSize base := by
      rw [hm']
      exact h.setTop (by omega)
    rw [wp, callHost_run hsig hargs]
    rcases hcall : func.callback sig callArgs with _ | results
    · refine ⟨hfits.congr rfl, iff_of_false (fun hresult => ?_) (not_hostOverflow hsig hargs hcall)⟩
      cases hresult
    · rw [hostOverflow_iff hsig hargs hcall, hfits.valueStack_length]
      refine (wp_pushResults sig.resultTypes results hfits).mono (fun _ m'' hok => ?_)
        (fun m'' => id) not_lt.mpr
      exact ⟨hok.1, not_lt.mpr hok.2⟩
  · exact (hpops.of_error hargs).elim
  · have habort := callHost_abort fun sig' hsome => by
      rw [hsig] at hsome; cases hsome; exact hargs
    rw [wp, habort.1]
    exact habort.2

end Machine

end Interpreter

end SexprWasm
