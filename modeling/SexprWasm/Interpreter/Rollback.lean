import SexprWasm.Interpreter.LoadInvariant

/-!
# What a failed load leaves behind

`wasm_read_binary_interpreter` marks the environment before it reads and
resets it to the mark when the read fails. The reset drops what has been
appended, so it restores the environment if nothing below the mark has
been changed. Three things do change it: an export appended to a host
module, a write to a table or a memory that was there before, and code
whose offset has wrapped around (`Harmless`). A load without these is
undone completely (`wasmReadBinaryInterpreter_undone`).
-/

namespace SexprWasm

namespace Interpreter

set_option synthInstance.maxSize 2000

open Callback

/-! ## Resetting to the mark -/

/-- Everything below the mark of `env₀` is as it was. -/
structure Below (env₀ env : Environment) : Prop where
  modules : env.modules = env₀.modules
  sigs : env₀.sigs <+: env.sigs
  funcs : env₀.funcs <+: env.funcs
  memories : env₀.memories <+: env.memories
  tables : env₀.tables <+: env.tables
  globals : env₀.globals <+: env.globals
  istream : env₀.istream <+: env.istream
  moduleBindings : env.moduleBindings = env₀.moduleBindings
  registeredModuleBindings : env.registeredModuleBindings = env₀.registeredModuleBindings

theorem take_of_prefix {α : Type} {old new : List α} (h : old <+: new) :
    new.take old.length = old := by
  obtain ⟨rest, rfl⟩ := h
  exact List.take_left

theorem Below.rollback {env₀ : Environment} {c : Context} (h : Below env₀ c.env) :
    c.rollback env₀.mark = env₀ := by
  have hmodules : c.modules.take env₀.modules.length = env₀.modules := by
    rw [Context.modules, h.modules]
    exact List.take_left
  cases env₀
  simp only [Context.rollback, Environment.resetToMark, Environment.mark] at hmodules ⊢
  rw [hmodules, take_of_prefix h.sigs, take_of_prefix h.funcs, take_of_prefix h.memories,
    take_of_prefix h.tables, take_of_prefix h.globals, take_of_prefix h.istream,
    h.moduleBindings, h.registeredModuleBindings]

/-! ## Code -/

/-- The code before the load is untouched, and everything that may be patched is behind it:
the offsets in `slots`, the fixups and the conditions of open ifs. -/
structure CodeBelow (code₀ : List UInt8) (slots : List Nat) (c : Context) : Prop where
  istream : code₀ <+: c.env.istream
  offset : code₀.length ≤ c.istreamOffset
  offset_le : c.istreamOffset ≤ c.env.istream.length
  slots : ∀ f ∈ slots, code₀.length ≤ f
  depthFixups : ∀ fixups ∈ c.depthFixups, ∀ f ∈ fixups, code₀.length ≤ f
  funcFixups : ∀ fixups ∈ c.funcFixups, ∀ f ∈ fixups, code₀.length ≤ f
  labels : ∀ label ∈ c.labelStack, label.labelType = .if_ ∨ label.labelType = .else_ →
    code₀.length ≤ label.fixupOffset

/-- The buffer never shrinks, so an istream that fits has always fit. -/
def CodeInv (code₀ : List UInt8) (slots : List Nat) (c : Context) : Prop :=
  c.env.istream.length < 2 ^ 32 → CodeBelow code₀ slots c

variable {code₀ : List UInt8} {slots : List Nat} {c : Context}

theorem u32_of_lt {n : Nat} (h : n < 2 ^ 32) : u32 n = n := Nat.mod_eq_of_lt h

theorem CodeInv.emit (h : CodeInv code₀ slots c) (data : List UInt8) :
    CodeInv code₀ slots (c.emit data) := by
  intro hfits
  have hlen : (c.emit data).env.istream.length =
      max c.env.istream.length (c.istreamOffset + data.length) := Buffer.length_writeAt ..
  have hc := h (by omega)
  have hoff : (c.emit data).istreamOffset = c.istreamOffset + data.length := u32_of_lt (by omega)
  have := hc.offset
  exact
    { hc with
      istream := Buffer.prefix_writeAt hc.istream hc.offset
      offset := by omega
      offset_le := by omega }

theorem CodeInv.patch (h : CodeInv code₀ slots c) {offset : Nat} (hoff : offset ∈ slots)
    (value : Nat) : CodeInv code₀ slots (c.patch offset value) := by
  intro hfits
  have hlen : (c.patch offset value).env.istream.length =
      max c.env.istream.length (offset + (Buffer.leBytes 4 value).length) :=
    Buffer.length_writeAt ..
  have hc := h (by omega)
  have hle : c.istreamOffset ≤ (c.patch offset value).env.istream.length :=
    Nat.le_trans hc.offset_le (by omega)
  exact
    { hc with
      istream := Buffer.prefix_writeAt hc.istream (hc.slots offset hoff)
      offset_le := hle }

/-- The fixups that `append_fixup` has added to are behind the old code. -/
theorem appendFixup_above {fixups : List (List Nat)} {n index offset : Nat}
    (h : ∀ fs ∈ fixups, ∀ f ∈ fs, n ≤ f) (hoff : n ≤ offset) :
    ∀ fs ∈ appendFixup fixups index offset, ∀ f ∈ fs, n ≤ f := by
  intro fs hfs f hf
  obtain ⟨i, hi⟩ := List.mem_iff_getElem?.mp hfs
  have hold : ∀ fs ∈ fixups ++ List.replicate (index + 1 - fixups.length) [], ∀ f ∈ fs, n ≤ f := by
    intro fs hfs f hf
    rcases List.mem_append.mp hfs with hfs | hfs
    · exact h fs hfs f hf
    · rw [(List.mem_replicate.mp hfs).2] at hf
      cases hf
  rw [appendFixup, List.getElem?_modify, Option.map_eq_map, Option.map_eq_some_iff] at hi
  obtain ⟨fs', hi, rfl⟩ := hi
  have hmem := List.mem_of_getElem? hi
  split at hf
  · rcases List.mem_append.mp hf with hf | hf
    · exact hold fs' hmem f hf
    · rw [List.mem_singleton.mp hf]
      exact hoff
  · exact hold fs' hmem f hf

instance : TypeFree (CodeInv code₀ slots) := ⟨fun _ _ h hfits => { h hfits with }⟩

instance : EmitClosed (CodeInv code₀ slots) where
  emit _ data h := h.emit data
  depthFixup _ _ h hfits :=
    { h hfits with depthFixups := appendFixup_above (h hfits).depthFixups (h hfits).offset }
  funcFixup _ _ h hfits :=
    { h hfits with funcFixups := appendFixup_above (h hfits).funcFixups (h hfits).offset }

instance : ModuleFree (CodeInv code₀ slots) := ⟨fun _ _ _ _ _ _ h hfits => { h hfits with }⟩

instance : StoreFree (CodeInv code₀ slots) := ⟨fun _ _ _ h hfits => { h hfits with }⟩

instance : SpaceFree (CodeInv code₀ slots) := ⟨fun _ _ _ _ _ _ _ _ _ _ h hfits => { h hfits with }⟩

theorem CodeInv.setLabelStack (h : CodeInv code₀ slots c) {labelStack : List Label}
    (hlabels : ∀ label ∈ labelStack, label.labelType = .if_ ∨ label.labelType = .else_ →
      label ∈ c.labelStack ∨ label.fixupOffset ∈ slots) :
    CodeInv code₀ slots { c with labelStack } := fun hfits =>
  { h hfits with
    labels := fun label hl ht => (hlabels label hl ht).elim
      (fun hl => (h hfits).labels label hl ht) fun hs => (h hfits).slots _ hs }

instance : ExportFree (CodeInv code₀ slots) := ⟨fun _ _ _ _ _ h hfits => { h hfits with }⟩

theorem CodeInv.clearFixups (h : CodeInv code₀ slots c) (depth : Nat) :
    CodeInv code₀ slots { c with depthFixups := c.depthFixups.set depth [] } := fun hfits =>
  { h hfits with
    depthFixups := fun fs hfs f hf => by
      rcases List.mem_or_eq_of_mem_set hfs with hfs | rfl
      · exact (h hfits).depthFixups fs hfs f hf
      · cases hf }

theorem preserves_patchAll {fixups : List Nat} (hs : fixups ⊆ slots) (offset : Nat) :
    Preserves (CodeInv code₀ slots) (forEach (fun fixup => emitI32At fixup offset) fixups) := by
  induction fixups with
  | nil => exact Preserves.pure' _
  | cons fixup fixups ih =>
      have : Preserves (CodeInv code₀ slots) (emitI32At fixup offset) :=
        Preserves.modify fun c h => h.patch (hs (List.mem_cons_self ..)) offset
      have := ih fun f hf => hs (List.mem_cons_of_mem _ hf)
      exact Preserves.bind

/-! ## Code of a callback -/

/-- `m` keeps the code below the mark from `c` on. -/
abbrev KeepsCode {α : Type} (code₀ : List UInt8) (slots : List Nat) (m : Load α) (c : Context) :
    Prop :=
  wp m (fun _ => CodeInv code₀ slots) (CodeInv code₀ slots) True c

/-- An offset that is known to be behind the old code may be patched from here on. -/
theorem KeepsCode.withSlots {α : Type} {m : Load α} (new : List Nat) (h : CodeInv code₀ slots c)
    (hs : CodeBelow code₀ slots c → ∀ f ∈ new, code₀.length ≤ f)
    (hm : CodeInv code₀ (new ++ slots) c → KeepsCode code₀ (new ++ slots) m c) :
    KeepsCode code₀ slots m c := by
  have hback : ∀ c', CodeInv code₀ (new ++ slots) c' → CodeInv code₀ slots c' := fun c' h' hfits =>
    { h' hfits with slots := fun f hf => (h' hfits).slots f (List.mem_append_right _ hf) }
  have hforth : CodeInv code₀ (new ++ slots) c := fun hfits =>
    { h hfits with
      slots := fun f hf => (List.mem_append.mp hf).elim (hs (h hfits) f) ((h hfits).slots f) }
  exact (hm hforth).mono (fun _ => hback) hback id

theorem KeepsCode.withOffset {α : Type} {m : Load α} (h : CodeInv code₀ slots c)
    (hm : CodeInv code₀ (c.istreamOffset :: slots) c →
      KeepsCode code₀ (c.istreamOffset :: slots) m c) : KeepsCode code₀ slots m c :=
  withSlots [c.istreamOffset] h
    (fun hb _ hf => List.mem_singleton.mp hf ▸ hb.offset) hm

theorem wp_topLabel {α : Type} {f : Label → Load α} {Q : α → Context → Prop} {E : Context → Prop}
    (h : ∀ label, c.labelStack.head? = some label → wp (f label) Q E True c) :
    wp (topLabel >>= f) Q E True c := by
  simp only [topLabel, wp_bind, wp_get, wp_orAbort, implies_true, and_true]
  exact h

theorem wp_getIstreamOffset {α : Type} {f : Nat → Load α} {Q : α → Context → Prop}
    {E : Context → Prop} {A : Prop} (h : wp (f c.istreamOffset) Q E A c) :
    wp (getIstreamOffset >>= f) Q E A c := h

theorem keepsCode_pushLabel (h : CodeInv code₀ slots c) {labelType : LabelType}
    {sig : List ValueType} {offset fixupOffset : Nat}
    (hs : labelType = .if_ ∨ labelType = .else_ → fixupOffset ∈ slots) :
    KeepsCode code₀ slots (pushLabel labelType sig offset fixupOffset) c :=
  h.setLabelStack fun label hl ht => by
    rcases List.mem_cons.mp hl with rfl | hl
    · exact .inr (hs ht)
    · exact .inl hl

theorem keepsCode_patch (h : CodeInv code₀ slots c) {offset : Nat} (hs : offset ∈ slots)
    (value : Nat) : KeepsCode code₀ slots (emitI32At offset value) c := h.patch hs value

theorem keepsCode_onIfExpr (h : CodeInv code₀ [] c) (sig : List ValueType) :
    KeepsCode code₀ [] (onIfExpr sig) c := by
  refine Preserves.bind_wp h fun _ c h => ?_
  refine Preserves.bind_wp h fun _ c h => ?_
  refine Preserves.bind_wp h fun _ c h => ?_
  refine wp_getIstreamOffset (KeepsCode.withOffset h fun h => ?_)
  refine Preserves.bind_wp h fun _ c h => ?_
  exact keepsCode_pushLabel h fun _ => List.mem_cons_self ..

theorem keepsCode_onElseExpr (h : CodeInv code₀ [] c) : KeepsCode code₀ [] onElseExpr c := by
  refine wp_topLabel fun label hl => ?_
  refine wp_bind.mpr (wp_ensure.mpr ⟨fun ht => ?_, fun _ => h⟩)
  have ht : label.labelType = .if_ := of_decide_eq_true ht
  refine KeepsCode.withSlots [label.fixupOffset] h (fun hb f hf => ?_) fun h => ?_
  · rw [List.mem_singleton.mp hf]
    exact hb.labels label (List.mem_of_head? hl) (.inl ht)
  refine Preserves.bind_wp h fun _ c h => ?_
  refine Preserves.bind_wp h fun _ c h => ?_
  refine wp_getIstreamOffset (KeepsCode.withOffset h fun h => ?_)
  have hset : CodeInv code₀ (c.istreamOffset :: [label.fixupOffset] ++ []) { c with
      labelStack :=
        { label with labelType := .else_, fixupOffset := c.istreamOffset } ::
          c.labelStack.tail } :=
    h.setLabelStack fun label' hl' _ => by
      rcases List.mem_cons.mp hl' with rfl | hl'
      · exact .inr (List.mem_cons_self ..)
      · exact .inl (List.mem_of_mem_tail hl')
  refine wp_bind.mpr (wp_modify.mpr ?_)
  refine Preserves.bind_wp hset fun _ c h => ?_
  refine wp_getIstreamOffset ?_
  refine wp_bind.mpr ((keepsCode_patch h (by simp) _).mono (fun _ c h => ?_) (fun _ => id) id)
  exact Preserves.wp c h

theorem keepsCode_fixupIf (h : CodeInv code₀ [] c) {label : Label}
    (hl : label ∈ c.labelStack) : KeepsCode code₀ [] (fixupIf label) c := by
  refine wp_getIstreamOffset ?_
  refine KeepsCode.withSlots
    (if label.labelType = .if_ ∨ label.labelType = .else_ then [label.fixupOffset] else [])
    h (fun hb f hf => ?_) fun h => ?_
  · split at hf
    · rw [List.mem_singleton.mp hf]
      exact hb.labels label hl ‹_›
    · cases hf
  · cases ht : label.labelType with
    | if_ | else_ =>
        rw [ht] at h
        exact keepsCode_patch h (List.mem_singleton_self _) _
    | _ =>
        rw [ht] at h
        exact Preserves.wp c h

theorem keepsCode_fixupTopLabel (h : CodeInv code₀ [] c) (offset : Nat) :
    KeepsCode code₀ [] (fixupTopLabel offset) c := by
  unfold fixupTopLabel
  refine wp_bind.mpr (wp_get.mpr ?_)
  dsimp only
  cases hf : c.depthFixups[c.labelStack.length - 1]? with
  | none => exact h
  | some fixups =>
      dsimp only
      refine KeepsCode.withSlots fixups h
        (fun hb => hb.depthFixups fixups (List.mem_of_getElem? hf)) fun h => ?_
      have hpatch : Preserves (CodeInv code₀ (fixups ++ [])) _ :=
        preserves_patchAll (List.subset_append_left fixups []) offset
      refine Preserves.bind_wp h fun _ c h => ?_
      exact h.clearFixups _

instance : Preserves (CodeInv code₀ slots) popLabel := by
  have : Preserves (CodeInv code₀ slots) (Callback.modify fun c =>
      { c with
        labelStack := c.labelStack.tail
        depthFixups := c.depthFixups.take (c.labelStack.length - 1) }) :=
    Preserves.modify fun c h hfits =>
      { h hfits with
        depthFixups := fun fs hfs => (h hfits).depthFixups fs (List.mem_of_mem_take hfs)
        labels := fun label hl => (h hfits).labels label (List.mem_of_mem_tail hl) }
  simp only [popLabel]
  infer_instance

theorem keepsCode_onEndExpr (h : CodeInv code₀ [] c) : KeepsCode code₀ [] onEndExpr c := by
  refine wp_topLabel fun label hl => ?_
  refine wp_bind.mpr
    ((keepsCode_fixupIf h (List.mem_of_head? hl)).mono (fun _ c h => ?_) (fun _ => id) id)
  refine Preserves.bind_wp h fun _ c h => ?_
  refine Preserves.bind_wp h fun _ c h => ?_
  refine wp_getIstreamOffset ?_
  refine wp_bind.mpr ((keepsCode_fixupTopLabel h _).mono (fun _ c h => ?_) (fun _ => id) id)
  exact Preserves.wp c h

theorem keepsCode_onBrIfExpr (h : CodeInv code₀ [] c) (depth : Nat) :
    KeepsCode code₀ [] (onBrIfExpr depth) c := by
  refine Preserves.bind_wp h fun _ c h => ?_
  refine Preserves.bind_wp h fun depth c h => ?_
  refine Preserves.bind_wp h fun _ c h => ?_
  refine Preserves.bind_wp h fun _ c h => ?_
  refine wp_getIstreamOffset (KeepsCode.withOffset h fun h => ?_)
  refine Preserves.bind_wp h fun _ c h => ?_
  refine Preserves.bind_wp h fun _ c h => ?_
  exact wp_getIstreamOffset (keepsCode_patch h (List.mem_cons_self ..) _)

theorem keepsCode_onBrTableExpr (h : CodeInv code₀ [] c) (targetDepths : List Nat)
    (defaultTargetDepth : Nat) :
    KeepsCode code₀ [] (onBrTableExpr targetDepths defaultTargetDepth) c := by
  refine Preserves.bind_wp h fun _ c h => ?_
  refine Preserves.bind_wp h fun _ c h => ?_
  refine Preserves.bind_wp h fun _ c h => ?_
  refine wp_getIstreamOffset (KeepsCode.withOffset h fun h => ?_)
  refine Preserves.bind_wp h fun _ c h => ?_
  refine Preserves.bind_wp h fun _ c h => ?_
  refine Preserves.bind_wp h fun _ c h => ?_
  refine wp_getIstreamOffset ?_
  refine wp_bind.mpr
    ((keepsCode_patch h (List.mem_cons_self ..) _).mono (fun _ c h => ?_) (fun _ => id) id)
  exact Preserves.wp c h

theorem keepsCode_onExpr (h : CodeInv code₀ [] c) (instr : Instr) :
    KeepsCode code₀ [] (onExpr instr) c := by
  cases instr with
  | block sig => exact keepsCode_pushLabel h (by simp)
  | loop sig => exact wp_getIstreamOffset (keepsCode_pushLabel h (by simp))
  | if_ sig => exact keepsCode_onIfExpr h sig
  | else_ => exact keepsCode_onElseExpr h
  | end_ => exact keepsCode_onEndExpr h
  | brIf depth => exact keepsCode_onBrIfExpr h depth
  | brTable targetDepths defaultTargetDepth => exact keepsCode_onBrTableExpr h _ _
  | _ => exact (preserves_onExpr_of_isPlain rfl).wp c h

theorem keepsCode_beginFunctionBody (h : CodeInv code₀ [] c) (index : Nat) :
    KeepsCode code₀ [] (beginFunctionBody index) c := by
  refine Preserves.bind_wp h fun funcIndex c h => ?_
  refine Preserves.bind_wp h fun func c h => ?_
  refine Preserves.bind_wp h fun sig c h => ?_
  refine wp_getIstreamOffset (wp_bind.mpr (wp_modify.mpr ?_))
  have hreset : CodeInv code₀ [] { c with
      currentFunc := some funcIndex, depthFixups := [], typeStack := [], labelStack := [] } :=
    fun hfits =>
      { h hfits with
        depthFixups := fun fs hfs => by cases hfs
        labels := fun label hl => by cases hl }
  refine wp_bind.mpr (wp_get.mpr (wp_bind.mpr (wp_orAbort.mpr ⟨fun fixups hf => ?_, fun _ => trivial⟩)))
  refine KeepsCode.withSlots fixups hreset
    (fun hb => hb.funcFixups fixups (List.mem_of_getElem? hf)) fun h => ?_
  have hpatch : Preserves (CodeInv code₀ (fixups ++ [])) _ :=
    preserves_patchAll (List.subset_append_left fixups []) c.istreamOffset
  have := preserves_setTypeStack (J := CodeInv code₀ (fixups ++ []))
  refine Preserves.bind_wp h fun _ c h => ?_
  refine Preserves.bind_wp h fun _ c h => ?_
  refine Preserves.bind_wp h fun _ c h => ?_
  exact keepsCode_pushLabel h (by simp)

theorem keepsCode_onLocalDecl (h : CodeInv code₀ [] c) (declIndex count : Nat) (type : ValueType) :
    KeepsCode code₀ [] (onLocalDecl declIndex count type) c := by
  have hlocal (type : ValueType) : Preserves (CodeInv code₀ []) (getCurrentFunc >>= fun p => do
      setDefinedFunc p.1 { p.2 with paramAndLocalTypes := p.2.paramAndLocalTypes ++ [type] }
      pushType type) := Preserves.seq fun func => inferInstance
  refine Preserves.bind_wp h fun func c h => ?_
  refine Preserves.bind_wp h fun _ c h => ?_
  refine Preserves.bind_wp h fun _ c h => ?_
  refine wp_when.mpr ⟨fun _ => ?_, fun _ => h⟩
  refine Preserves.bind_wp h fun _ c h => ?_
  refine Preserves.bind_wp h fun _ c h => ?_
  refine wp_topLabel fun label hl => ?_
  refine wp_bind.mpr (wp_assert.mpr ⟨fun ht => ?_, fun _ => trivial⟩)
  refine wp_modify.mpr (h.setLabelStack fun label' hl' ht' => ?_)
  rcases List.mem_cons.mp hl' with rfl | hl'
  · simp_all
  · exact .inl (List.mem_of_mem_tail hl')

theorem keepsCode_endFunctionBody (h : CodeInv code₀ [] c) :
    KeepsCode code₀ [] endFunctionBody c := by
  have : Preserves (CodeInv code₀ []) (Callback.modify fun c =>
      { c with currentFunc := none, typeStack := [] }) :=
    Preserves.modify fun c h hfits => { h hfits with }
  refine wp_topLabel fun label hl => ?_
  refine Preserves.bind_wp h fun _ c h => ?_
  refine Preserves.bind_wp h fun _ c h => ?_
  refine Preserves.bind_wp h fun _ c h => ?_
  refine wp_getIstreamOffset ?_
  refine wp_bind.mpr ((keepsCode_fixupTopLabel h _).mono (fun _ c h => ?_) (fun _ => id) id)
  exact Preserves.wp c h

/-- Every callback keeps the code below the mark. -/
theorem keepsCode_interpreterReader (h : CodeInv code₀ [] c) (e : Event) :
    KeepsCode code₀ [] (interpreterReader e) c := by
  cases e with
  | onFunctionSignaturesCount count =>
      refine fun hfits => { h hfits with funcFixups := fun fs hfs f hf => ?_ }
      rw [(List.mem_replicate.mp hfs).2] at hf
      cases hf
  | beginFunctionBody index => exact keepsCode_beginFunctionBody h index
  | onLocalDecl declIndex count type => exact keepsCode_onLocalDecl h _ _ _
  | onExpr instr => exact keepsCode_onExpr h instr
  | endFunctionBody index => exact keepsCode_endFunctionBody h
  | _ =>
      simp only [interpreterReader]
      exact Preserves.wp c h

/-! ## What the module shares with others -/

/-- What a load shares with the modules before it and does not own. -/
structure SharedBelow (env₀ : Environment) (c : Context) : Prop where
  modules : c.env.modules = env₀.modules
  memories : env₀.memories <+: c.env.memories
  tables : env₀.tables <+: c.env.tables
  moduleBindings : c.env.moduleBindings = env₀.moduleBindings
  registeredModuleBindings : c.env.registeredModuleBindings = env₀.registeredModuleBindings

/-- The entry that comes next in the table is the function already. -/
def Context.rewritesElem (c : Context) (funcIndex : Nat) : Bool :=
  match c.env.tables[c.module.tableIndex]? with
  | some table => table.funcIndexes[c.tableOffset]? = c.funcIndexMapping[funcIndex]?
  | none => false

/-- The bytes are in the memory already. -/
def Context.rewritesData (c : Context) (data : List UInt8) : Bool :=
  match c.env.memories[c.module.memoryIndex]? with
  | some memory =>
      Buffer.window memory.data (u32 c.initExprValue.value) data.length = data
  | none => false

def ImportSource.isHost : ImportSource → Bool
  | .host _ => true
  | .module _ => false

/-- The callback does not change what was there before the load: it is not an import from
a host module, and what it writes to a table or a memory of another module is there already. -/
def harmless (env₀ : Environment) (c : Context) : Event → Bool
  | .onImportFunc .. | .onImportTable .. | .onImportMemory .. | .onImportGlobal .. =>
      !c.importSource.isHost
  | .onElemSegmentFunctionIndex _ funcIndex =>
      env₀.tables.length ≤ c.module.tableIndex || c.rewritesElem funcIndex
  | .onDataSegmentData _ data =>
      env₀.memories.length ≤ c.module.memoryIndex || c.rewritesData data
  | _ => true

variable {env₀ : Environment}

instance : TypeFree (SharedBelow env₀) := ⟨fun _ _ h => { h with }⟩
instance : LabelFree (SharedBelow env₀) := ⟨fun _ _ h => { h with }⟩
instance : CodeFree (SharedBelow env₀) := ⟨fun _ _ _ _ _ h => { h with }⟩
instance : ModuleFree (SharedBelow env₀) := ⟨fun _ _ _ _ _ _ h => { h with }⟩
instance : SpaceFree (SharedBelow env₀) := ⟨fun _ _ _ _ _ _ _ _ _ _ h => { h with }⟩

theorem set_of_getElem? {α : Type} {l : List α} {i : Nat} {a : α} (h : l[i]? = some a) :
    l.set i a = l := by
  obtain ⟨hi, rfl⟩ := List.getElem?_eq_some_iff.mp h
  exact List.set_getElem_self hi

theorem prefix_set {α : Type} {old new : List α} (h : old <+: new) {i : Nat}
    (hi : old.length ≤ i) (a : α) : old <+: new.set i a := by
  obtain ⟨rest, rfl⟩ := h
  rw [List.set_append_right _ _ hi]
  exact List.prefix_append ..

section Shared

variable (h : SharedBelow env₀ c)
include h

theorem shared_onImportFunc (index sigIndex : Nat) :
    wp (onImportFunc index sigIndex)
      (fun _ c' => c.importSource.isHost = false → SharedBelow env₀ c') (SharedBelow env₀)
      True c := by
  unfold onImportFunc
  simp only [getImport, translateSigIndexToEnv, wp_bind, wp_get, wp_orAbort, wp_assert,
    implies_true, and_true]
  intro import_ _ _ envIndex _
  cases hs : c.importSource with
  | host moduleIndex =>
      simp only [getHostDelegate, wp_bind, wp_get, wp_orAbort, implies_true, and_true]
      intro m _
      cases m with
      | defined m => trivial
      | host m =>
          simp only [getSignatureByEnvIndex, wp_bind, wp_get, wp_orAbort, wp_pure, implies_true,
            and_true]
          intro sig _
          cases m.importDelegate.importFunc import_ sig with
          | none => exact h
          | some callback =>
              intro hhost
              cases hhost
  | module importIndex =>
      have : Preserves (SharedBelow env₀) (checkImportKind import_ .func) := by
        simp only [checkImportKind]
        infer_instance
      exact Preserves.wp (J := SharedBelow env₀) c h |>.mono (fun _ _ h' _ => h') (fun _ => id) id

theorem shared_onImportTable (index : Nat) (limits : Limits) :
    wp (onImportTable index limits)
      (fun _ c' => c.importSource.isHost = false → SharedBelow env₀ c') (SharedBelow env₀)
      True c := by
  unfold onImportTable
  simp only [getImport, wp_bind, wp_get, wp_orAbort, wp_ensure, implies_true, and_true]
  refine ⟨fun _ import_ _ => ?_, fun _ => h⟩
  cases hs : c.importSource with
  | host moduleIndex =>
      simp only [getHostDelegate, wp_bind, wp_get, wp_orAbort, implies_true, and_true]
      intro m _
      cases m with
      | defined m => trivial
      | host m =>
          simp only [wp_pure]
          cases m.importDelegate.importTable import_ (newTable limits) with
          | none => exact h
          | some table =>
              simp only [modifyEnv, checkImportLimits, wp_bind, wp_modify, wp_ensure]
              exact ⟨fun _ hhost => (by cases hhost),
                fun _ => { h with tables := h.tables.trans (List.prefix_append ..) }⟩
  | module importIndex =>
      simp only [checkImportKind, checkImportLimits, setTableIndex, modifyModule, wp_bind,
        wp_orAbort, wp_ensure, wp_modify, implies_true, and_true]
      exact ⟨fun _ table _ => ⟨fun _ _ => { h with }, fun _ => h⟩, fun _ => h⟩

theorem shared_onImportMemory (index : Nat) (limits : Limits) :
    wp (onImportMemory index limits)
      (fun _ c' => c.importSource.isHost = false → SharedBelow env₀ c') (SharedBelow env₀)
      True c := by
  unfold onImportMemory
  simp only [getImport, wp_bind, wp_get, wp_orAbort, wp_ensure, implies_true, and_true]
  refine ⟨fun _ import_ _ => ?_, fun _ => h⟩
  cases hs : c.importSource with
  | host moduleIndex =>
      simp only [getHostDelegate, wp_bind, wp_get, wp_orAbort, implies_true, and_true]
      intro m _
      cases m with
      | defined m => trivial
      | host m =>
          simp only [wp_pure]
          cases m.importDelegate.importMemory import_ with
          | none => exact h
          | some memory =>
              simp only [modifyEnv, checkImportLimits, wp_bind, wp_modify, wp_ensure]
              exact ⟨fun _ hhost => (by cases hhost),
                fun _ => { h with memories := h.memories.trans (List.prefix_append ..) }⟩
  | module importIndex =>
      simp only [checkImportKind, checkImportLimits, setMemoryIndex, modifyModule, wp_bind,
        wp_orAbort, wp_ensure, wp_modify, implies_true, and_true]
      exact ⟨fun _ memory _ => ⟨fun _ _ => { h with }, fun _ => h⟩, fun _ => h⟩

theorem shared_onImportGlobal (index : Nat) (type : ValueType) (mutable_ : Bool) :
    wp (onImportGlobal index type mutable_)
      (fun _ c' => c.importSource.isHost = false → SharedBelow env₀ c') (SharedBelow env₀)
      True c := by
  unfold onImportGlobal
  simp only [getImport, wp_bind, wp_get, wp_orAbort, implies_true, and_true]
  intro import_ _
  cases hs : c.importSource with
  | host moduleIndex =>
      simp only [getHostDelegate, wp_bind, wp_get, wp_orAbort, implies_true, and_true]
      intro m _
      cases m with
      | defined m => trivial
      | host m =>
          simp only [wp_pure]
          cases m.importDelegate.importGlobal import_ ⟨⟨type, 0⟩, mutable_⟩ with
          | none => exact h
          | some global =>
              intro hhost
              cases hhost
  | module importIndex =>
      simp only [checkImportKind, wp_bind, wp_ensure]
      exact ⟨fun _ _ => { h with }, fun _ => h⟩

theorem shared_onTable (limits : Limits) :
    wp (onTable limits) (fun _ => SharedBelow env₀) (SharedBelow env₀) True c := by
  simp only [onTable, modifyEnv, setTableIndex, modifyModule, wp_bind, wp_get, wp_ensure,
    wp_modify]
  exact ⟨fun _ => { h with tables := h.tables.trans (List.prefix_append ..) }, fun _ => h⟩

theorem shared_onMemory (limits : Limits) :
    wp (onMemory limits) (fun _ => SharedBelow env₀) (SharedBelow env₀) True c := by
  simp only [onMemory, modifyEnv, setMemoryIndex, modifyModule, wp_bind, wp_get, wp_ensure,
    wp_modify]
  exact ⟨fun _ => { h with memories := h.memories.trans (List.prefix_append ..) }, fun _ => h⟩

theorem shared_onElemSegmentFunctionIndex (funcIndex : Nat) :
    wp (onElemSegmentFunctionIndex funcIndex)
      (fun _ c' => env₀.tables.length ≤ c.module.tableIndex ∨ c.rewritesElem funcIndex →
        SharedBelow env₀ c') (SharedBelow env₀) True c := by
  simp only [onElemSegmentFunctionIndex, translateFuncIndexToEnv, wp_bind, wp_get, wp_assert,
    wp_orAbort, wp_ensure, wp_modify, implies_true, and_true]
  intro _ table ht
  refine ⟨fun _ envIndex hf hc => ?_, fun _ => h⟩
  rcases hc with hc | hc
  · exact { h with tables := prefix_set h.tables hc _ }
  · simp only [Context.rewritesElem, ht, hf, decide_eq_true_eq] at hc
    rw [set_of_getElem? hc, set_of_getElem? ht]
    exact { h with }

theorem shared_onDataSegmentData (data : List UInt8) :
    wp (onDataSegmentData data)
      (fun _ c' => env₀.memories.length ≤ c.module.memoryIndex ∨ c.rewritesData data →
        SharedBelow env₀ c') (SharedBelow env₀) True c := by
  simp only [onDataSegmentData, modifyEnv, wp_bind, wp_get, wp_assert, wp_orAbort, wp_ensure,
    wp_when, wp_modify, implies_true, and_true]
  intro _ memory hm _
  refine ⟨fun _ hend => ⟨fun hne hc => ?_, fun _ _ => h⟩, fun _ => h⟩
  rcases hc with hc | hc
  · exact { h with memories := prefix_set h.memories hc _ }
  · simp only [Context.rewritesData, hm, decide_eq_true_eq] at hc
    simp only [decide_eq_true_eq] at hne
    simp only [Bool.or_eq_true, decide_eq_true_eq, hne, false_or] at hend
    rw [← hc, Buffer.writeAt_window hend, set_of_getElem? hm]
    exact { h with }

/-- A callback that is harmless, and one that fails, leaves the shared objects alone. -/
theorem shared_interpreterReader (e : Event) :
    wp (interpreterReader e) (fun _ c' => harmless env₀ c e → SharedBelow env₀ c')
      (SharedBelow env₀) True c := by
  have hplain {m : Load Unit} (hm : wp m (fun _ => SharedBelow env₀) (SharedBelow env₀) True c) :
      wp m (fun _ c' => harmless env₀ c e → SharedBelow env₀ c') (SharedBelow env₀) True c :=
    hm.mono (fun _ _ h' _ => h') (fun _ => id) id
  cases e with
  | onImportFunc index sigIndex =>
      simpa [harmless, interpreterReader] using shared_onImportFunc h index sigIndex
  | onImportTable index limits =>
      simpa [harmless, interpreterReader] using shared_onImportTable h index limits
  | onImportMemory index limits =>
      simpa [harmless, interpreterReader] using shared_onImportMemory h index limits
  | onImportGlobal index type mutable_ =>
      simpa [harmless, interpreterReader] using shared_onImportGlobal h index type mutable_
  | onElemSegmentFunctionIndex _ funcIndex =>
      simpa [harmless, interpreterReader] using shared_onElemSegmentFunctionIndex h funcIndex
  | onDataSegmentData _ data =>
      simpa [harmless, interpreterReader] using shared_onDataSegmentData h data
  | onTable _ limits => exact hplain (shared_onTable h limits)
  | onMemory _ limits => exact hplain (shared_onMemory h limits)
  | _ =>
      simp only [interpreterReader]
      exact hplain (Preserves.wp c h)

end Shared

/-! ## Failed loads -/

/-- The invariant of a load all of whose steps are harmless. -/
structure Undoable (env₀ : Environment) (p : Proto) (c : Context) : Prop where
  ordered : p.Ordered
  spaces : Spaces env₀ p c
  code : CodeInv env₀.istream [] c
  shared : SharedBelow env₀ c

theorem undoable_initial (env₀ : Environment) :
    Undoable env₀ .initial (initialContext env₀) where
  ordered := Proto.ordered_initial
  spaces := spaces_initial env₀
  code hfits :=
    { istream := List.prefix_rfl
      offset := Nat.le_of_eq (u32_of_lt hfits).symm
      offset_le := Nat.mod_le ..
      slots := fun f hf => by cases hf
      depthFixups := fun fs hfs => by cases hfs
      funcFixups := fun fs hfs => by cases hfs
      labels := fun label hl => by cases hl }
  shared := ⟨rfl, List.prefix_rfl, List.prefix_rfl, rfl, rfl⟩

theorem Undoable.below {p : Proto} (h : Undoable env₀ p c) (hfits : c.env.istream.length < 2 ^ 32) :
    Below env₀ c.env :=
  { h.shared with
    sigs := h.spaces.sigs.below
    funcs := h.spaces.funcs.below
    globals := h.spaces.globals.below
    istream := (h.code hfits).istream }

theorem undoable_step {data : List UInt8} {p p' : Proto} {o : Nat} {e : Event}
    (h : Undoable env₀ p c) (hstep : Proto.step data p (o, e) = some p') :
    (∀ c', interpreterReader e c = .ok () c' → harmless env₀ c e → Undoable env₀ p' c') ∧
      ∀ c', interpreterReader e c = .error c' → Undoable env₀ p c' := by
  have hspaces := spaces_step h.ordered h.spaces hstep
  have hcode := keepsCode_interpreterReader h.code e
  have hshared := shared_interpreterReader h.shared e
  refine ⟨fun c' hc hh => ?_, fun c' hc => ?_⟩
  · exact ⟨h.ordered.step hstep, hspaces.of_ok hc, hcode.of_ok hc, hshared.of_ok hc hh⟩
  · exact ⟨h.ordered, hspaces.of_error hc, hcode.of_error hc, hshared.of_error hc⟩

/-- A load that fails leaves the environment as it was if each of its steps was harmless and
the code it had emitted fits. -/
theorem wasmReadBinaryInterpreter_undone {options : ReadBinaryOptions} {data : List UInt8}
    {c : Context}
    (h : wasmReadBinary interpreterReader options data (initialContext env₀) = .error c)
    (hfits : c.env.istream.length < 2 ^ 32)
    (hsteps : AllSteps interpreterReader (fun c e => harmless env₀ c e)
      (BinaryReader.events { data, options }) (initialContext env₀)) :
    wasmReadBinaryInterpreter options data env₀ = .error env₀ := by
  have hinv := (BinaryReader.wasmReadBinary_invariant (J := Undoable env₀)
    (E := fun c => ∃ p, Undoable env₀ p c)
    (fun p p' o e c hc hstep => ⟨(undoable_step hc hstep).1, fun c' hc' =>
      ⟨p, (undoable_step hc hstep).2 c' hc'⟩⟩)
    (undoable_initial env₀) (fun p c hc => ⟨p, hc⟩) hsteps).2 c h
  obtain ⟨p, hinv⟩ := hinv
  unfold wasmReadBinaryInterpreter
  rw [h]
  exact congrArg Outcome.error (hinv.below hfits).rollback

/-- A module that exports a function and a table which holds it, registered as `m`. -/
def sharedTable : Environment where
  modules :=
    [.defined
      { name := []
        exports := [⟨[0x66], .func, 0⟩, ⟨[0x74], .table, 0⟩]
        exportBindings := (({} : BindingHash).insert [0x66] 0).insert [0x74] 1
        memoryIndex := invalidIndex
        tableIndex := 0
        imports := []
        startFuncIndex := invalidIndex
        istreamStart := 0
        istreamEnd := 1 }]
  sigs := [⟨[], []⟩]
  funcs := [.defined ⟨0, 0, 0, 0, []⟩]
  tables := [⟨⟨1, 0, false⟩, [0]⟩]
  istream := [0x0f]
  registeredModuleBindings := ({} : BindingHash).insert [0x6d] 0

/-- It imports both, puts the function where it is already, and has a body that adds
what is not there. -/
def illTypedBody : List UInt8 :=
  [0x00, 0x61, 0x73, 0x6d, 0x0d, 0x00, 0x00, 0x00,
    0x01, 0x04, 0x01, 0x60, 0x00, 0x00,
    0x02, 0x0f, 0x02, 0x01, 0x6d, 0x01, 0x66, 0x00, 0x00,
    0x01, 0x6d, 0x01, 0x74, 0x01, 0x70, 0x00, 0x01,
    0x03, 0x02, 0x01, 0x00,
    0x09, 0x07, 0x01, 0x00, 0x41, 0x00, 0x0b, 0x01, 0x00,
    0x0a, 0x05, 0x01, 0x03, 0x00, 0x6a, 0x0b]

theorem wasmReadBinaryInterpreter_undone_illTypedBody :
    wasmReadBinaryInterpreter { readDebugNames := false } illTypedBody sharedTable =
      .error sharedTable := by
  have hfail : (wasmReadBinary interpreterReader { readDebugNames := false } illTypedBody
      (initialContext sharedTable)).error?.map (fun c => c.env.istream.length) = some 1 := by
    decide +kernel
  obtain ⟨c, hc, hlen⟩ := Option.map_eq_some_iff.mp hfail
  exact wasmReadBinaryInterpreter_undone (Outcome.error?_eq_some.mp hc) (by omega)
    (by decide +kernel)

/-- An environment with one host module, registered as `h`. -/
def hostOnly : Environment :=
  Environment.appendHostModule {} [0x68]
    { importFunc := fun _ _ => some fun _ _ => some []
      importTable := fun _ table => some table
      importMemory := fun _ => none
      importGlobal := fun _ global => some global }

/-- It imports a function from `h`; then its function section names a signature that does not
exist. -/
def missingSignature : List UInt8 :=
  [0x00, 0x61, 0x73, 0x6d, 0x0d, 0x00, 0x00, 0x00,
    0x01, 0x04, 0x01, 0x60, 0x00, 0x00,
    0x02, 0x07, 0x01, 0x01, 0x68, 0x01, 0x66, 0x00, 0x00,
    0x03, 0x02, 0x01, 0x05]

theorem hostExport_survives : ¬∀ (options : ReadBinaryOptions) (data : List UInt8)
    (env env' : Environment), wasmReadBinaryInterpreter options data env = .error env' →
      env'.modules.map (fun m => m.header.exports) = env.modules.map fun m => m.header.exports := by
  intro h
  have hfail : (wasmReadBinaryInterpreter { readDebugNames := false } missingSignature
      hostOnly).error?.map (fun env => env.modules.map fun m => m.header.exports) =
        some [[⟨[0x66], .func, 0⟩]] := by
    decide +kernel
  obtain ⟨env', henv', hexports⟩ := Option.map_eq_some_iff.mp hfail
  have hsame := h _ _ _ _ (Outcome.error?_eq_some.mp henv')
  rw [hexports] at hsame
  exact absurd hsame (by decide)

end Interpreter

end SexprWasm
