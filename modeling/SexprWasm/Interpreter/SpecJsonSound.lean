import SexprWasm.Interpreter.SpecJson
import SexprWasm.Leb128Sound

/-!
# The reader of spec scripts ends

A run of the parser that has a turn for each byte of the file, and one
more, succeeds or reports an error, unless it begins a string that the
file does not close. There `parse_string` has no test for the end: it
writes the `-1` of `read_char` behind the string until it is past the
buffer. What is put back is what was read last, unless the run begins a
number that the file breaks off: `parse_uint32` puts back a character
where `read_char` has read none.

`Runs` is what a parser does from a state: where the state is at each
read and after each move is a position of the file with its line and
column (`Placed`), and the run ends and puts back as it should as long as
the strings and the numbers it begins end. `Moves` collects the parsers
that do not end before where they began, so that a loop whose body
consumes a character comes to an end.
-/

set_option synthInstance.maxSize 2000

namespace SexprWasm

namespace Interpreter

namespace SpecJson

variable (data : List UInt8)

/-! ## Positions -/

/-- The line and column of a position. -/
def locAt (n : Nat) : Location := (data.take n).foldl (fun loc b => loc.next (charInt b)) {}

theorem locAt_succ {n : Nat} {b : UInt8} (h : data[n]? = some b) :
    locAt data (n + 1) = (locAt data n).next (charInt b) := by
  rw [locAt, List.take_add_one, h, Option.toList_some, List.foldl_append]
  rfl

/-- The state is at a position of the file, and at its end the last character can be put back. -/
structure Placed (c : Context) : Prop where
  le : c.jsonOffset ≤ data.length
  loc : c.loc = locAt data c.jsonOffset
  prev : c.jsonOffset = data.length → c.jsonOffset ≠ 0 →
    c.hasPrevLoc = true ∧ c.prevLoc = locAt data (c.jsonOffset - 1)

def isHex (b : UInt8) : Bool := (hexCharValue (charInt b)).isSome

/-- The string that begins here is closed, or breaks off at an escape that is none. -/
def stringEnds : List UInt8 → Bool
  | [] => false
  | b :: rest =>
    if b = 0x22 then true
    else if b = 0x5c then
      match rest with
      | u :: h₁ :: h₂ :: h₃ :: h₄ :: rest =>
        !(u = 0x75 && isHex h₁ && isHex h₂ && isHex h₃ && isHex h₄) || stringEnds rest
      | _ => true
    else stringEnds rest

/-- The number that begins here, after digits worth `result`, is followed by a character, or is
too large before. -/
def numberEnds : Nat → List UInt8 → Bool
  | _, [] => false
  | result, b :: rest =>
    if 0x30 ≤ charInt b ∧ charInt b ≤ 0x39 then
      let next := u32 (result * 10 + (charInt b - 0x30).toNat)
      next < result || numberEnds next rest
    else true

/-! ## What a run emits -/

def Mark.position : Mark → Option (Nat × Location)
  | .read n loc | .moved n loc | .putback n loc => some (n, loc)
  | _ => none

/-- The positions that a run goes through are positions of the file. -/
def PlacedMarks (marks : List Mark) : Prop :=
  ∀ mark ∈ marks, ∀ n loc, mark.position = some (n, loc) → n ≤ data.length ∧ loc = locAt data n

/-- The strings that a run begins end. -/
def StringsEnd (marks : List Mark) : Prop :=
  ∀ start, Mark.string start ∈ marks → stringEnds (data.drop start) = true

/-- The numbers that a run begins end. -/
def NumbersEnd (marks : List Mark) : Prop :=
  ∀ start, Mark.number start ∈ marks → numberEnds 0 (data.drop start) = true

/-- Where the last read began, unless it has been put back. -/
abbrev LastRead : Type := Option (Nat × Location)

def Mark.lastRead (last : LastRead) : Mark → LastRead
  | .read n loc => some (n, loc)
  | .putback _ _ => none
  | _ => last

def Mark.Restores (last : LastRead) : Mark → Prop
  | .putback n loc => last = some (n, loc)
  | _ => True

/-- Every character that a run puts back is the one that the last read has read: the run is again
where that read began. -/
def Restored : LastRead → List Mark → Prop
  | _, [] => True
  | last, mark :: marks => mark.Restores last ∧ Restored (mark.lastRead last) marks

/-- A run of `m` goes through positions of the file and puts back what was read if the numbers it
begins end; it succeeds with `Q` or reports an error if the strings it begins end. -/
structure Runs {α : Type} (last : LastRead) (m : Json α) (c : Context)
    (Q : α → Context → LastRead → Prop) : Prop where
  placed : PlacedMarks data (m c).1
  restored : Restored last (m c).1 ↔ NumbersEnd data (m c).1
  ok : ∀ a c', (m c).2 = .ok (a, c') →
    StringsEnd data (m c).1 ∧ Q a c' ((m c).1.foldl Mark.lastRead last)
  error : ∀ reason c', (m c).2 = .error (reason, c') →
    reason = .error ∧ StringsEnd data (m c).1 ∨
      (reason = .overrun ∨ reason = .fuel) ∧ ¬StringsEnd data (m c).1

variable {data} {α β : Type} {c : Context} {last : LastRead}

@[simp] theorem placedMarks_nil : PlacedMarks data [] := by simp [PlacedMarks]

@[simp] theorem stringsEnd_nil : StringsEnd data [] := by simp [StringsEnd]

@[simp] theorem numbersEnd_nil : NumbersEnd data [] := by simp [NumbersEnd]

theorem placedMarks_append {es es' : List Mark} :
    PlacedMarks data (es ++ es') ↔ PlacedMarks data es ∧ PlacedMarks data es' := by
  simp only [PlacedMarks, List.forall_mem_append]

theorem stringsEnd_append {es es' : List Mark} :
    StringsEnd data (es ++ es') ↔ StringsEnd data es ∧ StringsEnd data es' := by
  simp only [StringsEnd, List.mem_append, or_imp, forall_and]

theorem numbersEnd_append {es es' : List Mark} :
    NumbersEnd data (es ++ es') ↔ NumbersEnd data es ∧ NumbersEnd data es' := by
  simp only [NumbersEnd, List.mem_append, or_imp, forall_and]

theorem restored_append {es es' : List Mark} :
    Restored last (es ++ es') ↔
      Restored last es ∧ Restored (es.foldl Mark.lastRead last) es' := by
  induction es generalizing last with
  | nil => simp [Restored]
  | cons mark es ih => simp only [List.cons_append, Restored, ih, and_assoc, List.foldl_cons]

namespace Runs

variable {Q Q' : α → Context → LastRead → Prop}

theorem mono {m : Json α} (h : Runs data last m c Q)
    (hQ : ∀ a c' last', Q a c' last' → Q' a c' last') : Runs data last m c Q' where
  placed := h.placed
  restored := h.restored
  ok a c' ha := ⟨(h.ok a c' ha).1, hQ a c' _ (h.ok a c' ha).2⟩
  error := h.error

theorem of_eq {m m' : Json α} (heq : m c = m' c) (h : Runs data last m' c Q) :
    Runs data last m c Q where
  placed := heq ▸ h.placed
  restored := heq ▸ h.restored
  ok := by
    rw [heq]
    exact h.ok
  error := by
    rw [heq]
    exact h.error

/-- A run of one mark, or of none. -/
theorem of_ok {m : Json α} {es : List Mark} {a : α} {c' : Context} (hm : m c = (es, .ok (a, c')))
    (hplaced : PlacedMarks data es) (hrestored : Restored last es ↔ NumbersEnd data es)
    (hstrings : StringsEnd data es) (h : Q a c' (es.foldl Mark.lastRead last)) :
    Runs data last m c Q := by
  refine ⟨?_, ?_, fun a' c'' ha => ?_, fun reason c'' hr => ?_⟩
  · rw [hm]
    exact hplaced
  · rw [hm]
    exact hrestored
  · rw [hm] at ha ⊢
    cases ha
    exact ⟨hstrings, h⟩
  · rw [hm] at hr
    cases hr

theorem pure {a : α} (h : Q a c last) : Runs data last (Pure.pure a) c Q :=
  of_ok rfl placedMarks_nil (by simp [Restored]) stringsEnd_nil h

theorem bind {m : Json α} {f : α → Json β} {Q : β → Context → LastRead → Prop}
    (h : Runs data last m c fun a c' last' => Runs data last' (f a) c' Q) :
    Runs data last (m >>= f) c Q := by
  rcases hm : m c with ⟨es, ⟨reason, c'⟩ | ⟨a, c'⟩⟩
  · have hrun : (m >>= f) c = (es, .error (reason, c')) := Emit.bind_error hm
    have hp := h.placed
    have hr := h.restored
    have he := h.error reason c'
    rw [hm] at hp hr he
    refine ⟨by rw [hrun]; exact hp, by rw [hrun]; exact hr, fun a c'' ha => ?_,
      fun reason' c'' hr => ?_⟩
    · rw [hrun] at ha
      cases ha
    · rw [hrun] at hr ⊢
      cases hr
      exact he rfl
  · have hrun : (m >>= f) c = (es ++ (f a c').1, (f a c').2) := Emit.bind_ok hm
    have hp := h.placed
    have hr := h.restored
    have ho := h.ok a c'
    rw [hm] at hp hr ho
    obtain ⟨hends, hf⟩ := ho rfl
    refine ⟨?_, ?_, fun b c'' hb => ?_, fun reason c'' he => ?_⟩
    · rw [hrun]
      exact placedMarks_append.mpr ⟨hp, hf.placed⟩
    · rw [hrun]
      exact restored_append.trans ((and_congr hr hf.restored).trans numbersEnd_append.symm)
    · rw [hrun] at hb ⊢
      have hok := hf.ok b c'' hb
      rw [List.foldl_append]
      exact ⟨stringsEnd_append.mpr ⟨hends, hok.1⟩, hok.2⟩
    · rw [hrun] at he ⊢
      simp only [stringsEnd_append, hends, true_and]
      exact hf.error reason c'' he

theorem parseError : Runs data last (parseError : Json α) c Q where
  placed := placedMarks_nil
  restored := by simp [SpecJson.parseError, stop, Restored]
  ok := by
    intro a c' ha
    cases ha
  error := by
    intro reason c' he
    cases he
    exact Or.inl ⟨rfl, stringsEnd_nil⟩

theorem get {Q : Context → Context → LastRead → Prop} (h : Q c c last) :
    Runs data last Emit.get c Q :=
  of_ok rfl placedMarks_nil (by simp [Restored]) stringsEnd_nil h

theorem modify {f : Context → Context} {Q : Unit → Context → LastRead → Prop}
    (h : Q () (f c) last) : Runs data last (Emit.modify f) c Q :=
  of_ok rfl placedMarks_nil (by simp [Restored]) stringsEnd_nil h

theorem moveTo {c' : Context} {Q : Unit → Context → LastRead → Prop}
    (hle : c'.jsonOffset ≤ data.length) (hloc : c'.loc = locAt data c'.jsonOffset)
    (h : Q () c' last) : Runs data last (moveTo c') c Q :=
  of_ok rfl (by simpa [PlacedMarks, Mark.position] using ⟨hle, hloc⟩)
    (by simp [Restored, Mark.Restores, NumbersEnd]) (by simp [StringsEnd]) h

theorem emitRead {Q : Unit → Context → LastRead → Prop} (hc : Placed data c)
    (h : Q () c (some (c.jsonOffset, c.loc))) :
    Runs data last (Emit.emit (.read c.jsonOffset c.loc)) c Q :=
  of_ok rfl (by simpa [PlacedMarks, Mark.position] using ⟨hc.le, hc.loc⟩)
    (by simp [Restored, Mark.Restores, NumbersEnd]) (by simp [StringsEnd]) h

theorem emitCommand {line : Nat} {command : SpecCommand} {Q : Unit → Context → LastRead → Prop}
    (h : Q () c last) : Runs data last (Emit.emit (.command line command)) c Q :=
  of_ok rfl (by simp [PlacedMarks, Mark.position])
    (by simp [Restored, Mark.Restores, NumbersEnd]) (by simp [StringsEnd]) h

theorem ite {p : Prop} [Decidable p] {m m' : Json α} (h : p → Runs data last m c Q)
    (h' : ¬p → Runs data last m' c Q) : Runs data last (if p then m else m') c Q := by
  split
  · exact h ‹_›
  · exact h' ‹_›

end Runs

/-! ## Characters -/

/-- `read_char`: the end of the file, or the next character, which can be put back. -/
theorem readChar_runs (h : Placed data c) :
    Runs data last (readChar data) c fun a c' last' =>
      c.jsonOffset = data.length ∧ a = -1 ∧ c' = c ∨
        Placed data c' ∧ c'.jsonOffset = c.jsonOffset + 1 ∧ c'.hasPrevLoc = true ∧
          c'.prevLoc = c.loc ∧ last' = some (c.jsonOffset, c.loc) ∧
            ∃ b, data[c.jsonOffset]? = some b ∧ a = charInt b := by
  refine Runs.bind (Runs.get (Runs.bind (Runs.emitRead h ?_)))
  cases hb : data[c.jsonOffset]? with
  | none =>
    have hend : data.length ≤ c.jsonOffset := List.getElem?_eq_none_iff.mp hb
    exact Runs.pure (Or.inl ⟨Nat.le_antisymm h.le hend, rfl, rfl⟩)
  | some b =>
    have hlt : c.jsonOffset < data.length := (List.getElem?_eq_some_iff.mp hb).1
    have hloc : c.loc.next (charInt b) = locAt data (c.jsonOffset + 1) := by
      rw [locAt_succ data hb, h.loc]
    refine Runs.bind (Runs.moveTo hlt hloc (Runs.pure ?_))
    exact Or.inr ⟨⟨hlt, hloc, fun _ _ => ⟨rfl, h.loc⟩⟩, rfl, rfl, rfl, rfl, b, rfl, rfl⟩

theorem placed_putback (hle : c.jsonOffset ≤ data.length) (hpos : c.jsonOffset ≠ 0)
    (hloc : c.prevLoc = locAt data (c.jsonOffset - 1)) :
    Placed data
      { c with jsonOffset := c.jsonOffset - 1, loc := c.prevLoc, hasPrevLoc := false } where
  le := by simp only; omega
  loc := hloc
  prev := by
    simp only
    omega

theorem putbackChar_eq (hprev : c.hasPrevLoc = true) :
    putbackChar c = ([.putback (c.jsonOffset - 1) c.prevLoc],
      .ok ((), { c with jsonOffset := c.jsonOffset - 1, loc := c.prevLoc, hasPrevLoc := false })) :=
  if_pos hprev

/-- `putback_char` behind a character that has been read. -/
theorem putbackChar_runs {c₀ : Context} {Q : Unit → Context → LastRead → Prop}
    (h₀ : Placed data c₀) (hoffset : c.jsonOffset = c₀.jsonOffset + 1)
    (hle : c.jsonOffset ≤ data.length) (hprev : c.hasPrevLoc = true) (hloc : c.prevLoc = c₀.loc)
    (h : ∀ c' last', Placed data c' → c'.jsonOffset = c₀.jsonOffset → Q () c' last') :
    Runs data (some (c₀.jsonOffset, c₀.loc)) putbackChar c Q := by
  have hback : c.jsonOffset - 1 = c₀.jsonOffset := by omega
  have hplaced := placed_putback hle (by omega) (by rw [hloc, hback, h₀.loc])
  refine Runs.of_ok (putbackChar_eq hprev) ?_ ?_ (by simp [StringsEnd]) (h _ _ hplaced hback)
  · intro mark hmark n loc hposition
    obtain rfl := List.mem_singleton.mp hmark
    cases hposition
    exact ⟨hplaced.le, hplaced.loc⟩
  · simp [Restored, Mark.Restores, NumbersEnd, hback, hloc]

theorem charInt_injective : Function.Injective charInt := by
  intro a b h
  have hnat := @toSigned_injective 8 _ _ a.toNat_lt b.toNat_lt h
  exact UInt8.toNat_inj.mp hnat

/-- A loop over white space stops behind it, or at the end of the file. -/
theorem skipWhitespace_runs (fuel : Nat) (h : Placed data c)
    (hfuel : data.length - c.jsonOffset < fuel) :
    Runs data last (skipWhitespace data fuel) c fun _ c' _ =>
      Placed data c' ∧ c.jsonOffset ≤ c'.jsonOffset := by
  induction fuel generalizing c last with
  | zero => exact absurd hfuel (Nat.not_lt_zero _)
  | succ fuel ih =>
    rw [skipWhitespace]
    refine Runs.bind ((readChar_runs h).mono fun a c' last' hread => ?_)
    rcases hread with ⟨_, rfl, rfl⟩ | ⟨hplaced, hoffset, hprev, hloc, rfl, b, hb, rfl⟩
    · exact Runs.ite (fun _ => Runs.pure ⟨h, le_rfl⟩) fun hne => absurd rfl hne
    have hlt := (List.getElem?_eq_some_iff.mp hb).1
    refine Runs.ite (fun _ => Runs.pure ⟨hplaced, by omega⟩) fun _ => ?_
    refine Runs.ite (fun _ => ?_) fun _ => ?_
    · exact (ih hplaced (by omega)).mono fun _ c'' _ hc => ⟨hc.1, by omega⟩
    · exact putbackChar_runs h hoffset hplaced.le hprev hloc fun c'' _ hc hback =>
        ⟨hc, by omega⟩

/-- The characters of a token, none of which `read_char` has for the end of the file. -/
def IsToken (s : List UInt8) : Prop := s ≠ [] ∧ ∀ b ∈ s, charInt b ≠ -1

instance (s : List UInt8) : Decidable (IsToken s) := inferInstanceAs (Decidable (_ ∧ _))

theorem matchChars_runs (s : List UInt8) (h : Placed data c) :
    Runs data last (matchChars data s) c fun a c' _ =>
      Placed data c' ∧ c.jsonOffset ≤ c'.jsonOffset ∧ (c.jsonOffset = data.length → c' = c) ∧
        (a = true → (∀ b ∈ s, charInt b ≠ -1) → c.jsonOffset + s.length ≤ c'.jsonOffset) := by
  induction s generalizing c last with
  | nil => exact Runs.pure ⟨h, le_rfl, fun _ => rfl, fun _ _ => le_rfl⟩
  | cons b s ih =>
    rw [matchChars]
    refine Runs.bind ((readChar_runs h).mono fun a c' last' hread => ?_)
    rcases hread with ⟨_, rfl, rfl⟩ | ⟨hplaced, hoffset, _, _, _, b', hb, rfl⟩
    · refine Runs.ite (fun heq => (ih h).mono fun a c'' _ hc => ⟨hc.1, hc.2.1, hc.2.2.1, ?_⟩)
        fun _ => Runs.pure ⟨h, le_rfl, fun _ => rfl, fun hfalse => by cases hfalse⟩
      exact fun _ htoken => absurd heq (htoken b List.mem_cons_self)
    · have hlt := (List.getElem?_eq_some_iff.mp hb).1
      refine Runs.ite (fun _ => (ih hplaced).mono fun a c'' _ hc => ?_) fun _ => Runs.pure ?_
      · refine ⟨hc.1, by omega, fun hend => by omega, fun ha htoken => ?_⟩
        have hrest := hc.2.2.2 ha fun b hb => htoken b (List.mem_cons_of_mem _ hb)
        rw [List.length_cons]
        omega
      · exact ⟨hplaced, by omega, fun hend => by omega, fun hfalse => by cases hfalse⟩

/-! ## Strings -/

/-- The marks of a run that goes well. -/
structure Clean (data : List UInt8) (marks : List Mark) : Prop where
  placed : PlacedMarks data marks
  strings : StringsEnd data marks
  restored : ∀ last, Restored last marks ↔ NumbersEnd data marks

theorem Clean.nil : Clean data [] :=
  ⟨placedMarks_nil, stringsEnd_nil, fun last => by simp [Restored]⟩

theorem Clean.read (h : Placed data c) : Clean data [.read c.jsonOffset c.loc] where
  placed := by simpa [PlacedMarks, Mark.position] using ⟨h.le, h.loc⟩
  strings := by simp [StringsEnd]
  restored last := by simp [Restored, Mark.Restores, NumbersEnd]

theorem Clean.append {es es' : List Mark} (h : Clean data es) (h' : Clean data es') :
    Clean data (es ++ es') where
  placed := placedMarks_append.mpr ⟨h.placed, h'.placed⟩
  strings := stringsEnd_append.mpr ⟨h.strings, h'.strings⟩
  restored last := restored_append.trans
    ((and_congr (h.restored last) (h'.restored _)).trans numbersEnd_append.symm)

theorem Runs.bind_eq {m : Json α} {f : α → Json β} {Q : β → Context → LastRead → Prop}
    {es : List Mark} {a : α} {c' : Context} (hm : m c = (es, .ok (a, c'))) (hes : Clean data es)
    (hf : ∀ last, Runs data last (f a) c' Q) : Runs data last (m >>= f) c Q :=
  Runs.bind (Runs.of_ok hm hes.placed (hes.restored last) hes.strings (hf _))

theorem readChar_eq {b : UInt8} (h : Placed data c) (hb : data[c.jsonOffset]? = some b) :
    ∃ es c', readChar data c = (es, .ok (charInt b, c')) ∧ Clean data es ∧ Placed data c' ∧
      c'.jsonOffset = c.jsonOffset + 1 := by
  have hrun : ∃ es c', readChar data c = (es, .ok (charInt b, c')) := by
    simp [readChar, hb, Emit.bind_eq, Emit.bind, moveTo]
  obtain ⟨es, c', hrun⟩ := hrun
  have hruns : ∀ last, _ := fun last => @readChar_runs data c last h
  have hok := (hruns none).ok (charInt b) c' (by rw [hrun])
  have hlt := (List.getElem?_eq_some_iff.mp hb).1
  rcases hok with ⟨hstrings, ⟨hend, _⟩ | ⟨hc', hoffset, _⟩⟩
  · omega
  · have hplaced := (hruns none).placed
    have hrestored : ∀ last, _ := fun last => (hruns last).restored
    rw [hrun] at hplaced hstrings
    simp only [hrun] at hrestored
    exact ⟨es, c', hrun, ⟨hplaced, hstrings, hrestored⟩, hc', hoffset⟩

/-- The next `n` characters are hexadecimal digits. -/
def HexAhead (data : List UInt8) (c : Context) (n : Nat) : Prop :=
  n ≤ (data.drop c.jsonOffset).length ∧ ∀ b ∈ (data.drop c.jsonOffset).take n, isHex b = true

theorem drop_of_getElem? {n : Nat} {b : UInt8} (h : data[n]? = some b) :
    data.drop n = b :: data.drop (n + 1) := by
  obtain ⟨hlt, rfl⟩ := List.getElem?_eq_some_iff.mp h
  exact List.drop_eq_getElem_cons hlt

theorem hexAhead_succ {n : Nat} {b : UInt8} {c' : Context} (hb : data[c.jsonOffset]? = some b)
    (hc' : c'.jsonOffset = c.jsonOffset + 1) :
    HexAhead data c (n + 1) ↔ isHex b = true ∧ HexAhead data c' n := by
  simp only [HexAhead, drop_of_getElem? hb, hc', List.length_cons, List.take_succ_cons,
    List.forall_mem_cons, Nat.add_le_add_iff_right]
  tauto

/-- The digits of an escape are read if they are there. -/
theorem parseHexChars_eq (n code : Nat) (h : Placed data c) (hhex : HexAhead data c n) :
    ∃ es code' c', parseHexChars data n code c = (es, .ok (code', c')) ∧ Clean data es ∧
      Placed data c' ∧ c'.jsonOffset = c.jsonOffset + n := by
  induction n generalizing c code with
  | zero => exact ⟨[], code, c, rfl, Clean.nil, h, rfl⟩
  | succ n ih =>
    obtain ⟨b, hb⟩ : ∃ b, data[c.jsonOffset]? = some b := by
      have hlen := hhex.1
      rw [List.length_drop] at hlen
      exact ⟨_, List.getElem?_eq_getElem (by omega)⟩
    obtain ⟨es, c', hread, hes, hc', hoffset⟩ := readChar_eq h hb
    obtain ⟨hbhex, hhex'⟩ := (hexAhead_succ hb hoffset).mp hhex
    obtain ⟨cval, hcval⟩ := Option.isSome_iff_exists.mp hbhex
    obtain ⟨es', code', c'', hrest, hes', hc'', hoffset'⟩ :=
      ih ((code * 16 + cval) % 2 ^ 16) hc' hhex'
    refine ⟨es ++ es', code', c'', ?_, hes.append hes', hc'', by omega⟩
    rw [parseHexChars, Emit.bind_eq, Emit.bind_ok hread]
    simp only [hcval, hrest]

theorem parseHexChars_error (n code : Nat) (h : Placed data c) (hhex : ¬HexAhead data c n) :
    Runs data last (parseHexChars data n code) c fun _ _ _ => False := by
  induction n generalizing c code last with
  | zero => exact absurd ⟨Nat.zero_le _, by simp⟩ hhex
  | succ n ih =>
    rw [parseHexChars]
    refine Runs.bind ((readChar_runs h).mono fun a c' last' hread => ?_)
    rcases hread with ⟨_, rfl, rfl⟩ | ⟨hplaced, hoffset, _, _, _, b, hb, rfl⟩
    · exact Runs.parseError
    · rw [hexAhead_succ hb hoffset] at hhex
      cases hcval : hexCharValue (charInt b) with
      | none => exact Runs.parseError
      | some cval =>
        have hbhex : isHex b = true := by rw [isHex, hcval]; rfl
        exact ih _ hplaced fun hahead => hhex ⟨hbhex, hahead⟩

theorem stringEnds_escape (u : UInt8) (rest : List UInt8) :
    stringEnds (0x5c :: u :: rest) = true ↔
      (u = 0x75 ∧ 4 ≤ rest.length ∧ ∀ b ∈ rest.take 4, isHex b = true) →
        stringEnds (rest.drop 4) = true := by
  rcases rest with _ | ⟨h₁, _ | ⟨h₂, _ | ⟨h₃, _ | ⟨h₄, rest⟩⟩⟩⟩
  · simp [stringEnds]
  · simp [stringEnds]
  · simp [stringEnds]
  · simp [stringEnds]
  · simp only [stringEnds, if_neg (show (0x5c : UInt8) ≠ 0x22 by decide), if_true,
      Bool.or_eq_true, Bool.not_eq_true', List.length_cons, List.take_succ_cons, List.take_zero,
      List.drop_succ_cons, List.drop_zero, List.forall_mem_cons]
    cases stringEnds rest <;> simp [← Bool.not_eq_true]

theorem stringEnds_cons {b : UInt8} (hquote : b ≠ 0x22) (hescape : b ≠ 0x5c) (rest : List UInt8) :
    stringEnds (b :: rest) = stringEnds rest := by
  rw [stringEnds.eq_def]
  simp [hquote, hescape]

theorem stringEnds_quote (rest : List UInt8) : stringEnds (0x22 :: rest) = true := by
  rw [stringEnds.eq_def]
  simp

theorem putChar_eq {start : Nat} {string : List UInt8} (h : start + string.length < data.length)
    (a : Int) :
    putChar data start string a = pure (string ++ [UInt8.ofNat (a % 0x100).toNat]) := if_pos h

/-- A run of `m` does not come to an end of its own. -/
structure Outruns (data : List UInt8) (m : Json α) (c : Context) : Prop where
  placed : PlacedMarks data (m c).1
  restored : ∀ last, Restored last (m c).1 ↔ NumbersEnd data (m c).1
  stopped : ∃ reason c', (m c).2 = .error (reason, c') ∧ (reason = .overrun ∨ reason = .fuel)

theorem Outruns.bind {m : Json α} {f : α → Json β} {es : List Mark} {a : α} {c' : Context}
    (hm : m c = (es, .ok (a, c'))) (hes : Clean data es) (hf : Outruns data (f a) c') :
    Outruns data (m >>= f) c := by
  have hrun : (m >>= f) c = (es ++ (f a c').1, (f a c').2) := Emit.bind_ok hm
  refine ⟨?_, fun last => ?_, ?_⟩
  · rw [hrun]
    exact placedMarks_append.mpr ⟨hes.placed, hf.placed⟩
  · rw [hrun]
    exact restored_append.trans
      ((and_congr (hes.restored last) (hf.restored _)).trans numbersEnd_append.symm)
  · rw [hrun]
    exact hf.stopped

theorem Outruns.stop {reason : Stop} (h : reason = .overrun ∨ reason = .fuel) :
    Outruns data (stop reason : Json α) c :=
  ⟨placedMarks_nil, Clean.nil.restored, reason, c, rfl, h⟩

/-- A string that ends in the file is read, or an escape in it is an error. -/
theorem parseStringChars_runs (start turns : Nat) (string : List UInt8) (h : Placed data c)
    (hstart : start + string.length ≤ c.jsonOffset)
    (hends : stringEnds (data.drop c.jsonOffset) = true)
    (hturns : data.length - c.jsonOffset < turns) :
    Runs data last (parseStringChars data start turns string) c fun _ c' _ =>
      Placed data c' ∧ c.jsonOffset ≤ c'.jsonOffset := by
  induction turns generalizing c string last with
  | zero => exact absurd hturns (Nat.not_lt_zero _)
  | succ turns ih =>
    rw [parseStringChars]
    refine Runs.bind ((readChar_runs h).mono fun a c₁ last₁ hread => ?_)
    rcases hread with ⟨hend, rfl, rfl⟩ | ⟨h₁, hoffset, _, _, _, b, hb, rfl⟩
    · rw [hend, List.drop_length] at hends
      cases hends
    have hlt := (List.getElem?_eq_some_iff.mp hb).1
    rw [drop_of_getElem? hb, ← hoffset] at hends
    refine Runs.ite (fun _ => Runs.pure ⟨h₁, by omega⟩) fun hquote => ?_
    have hquote' : b ≠ 0x22 := fun heq => hquote (by rw [heq]; rfl)
    refine Runs.ite (fun hescape => ?_) fun hescape => ?_
    · obtain rfl : b = 0x5c := charInt_injective (hescape.trans (by decide))
      refine Runs.bind ((readChar_runs h₁).mono fun a c₂ last₂ hread => ?_)
      rcases hread with ⟨_, rfl, rfl⟩ | ⟨h₂, hoffset₂, _, _, _, u, hu, rfl⟩
      · exact Runs.ite (fun _ => Runs.parseError) fun hu => absurd (by decide) hu
      refine Runs.ite (fun _ => Runs.parseError) fun hchar => ?_
      obtain rfl : u = 0x75 := charInt_injective ((not_not.mp hchar).trans (by decide))
      have hlt₂ := (List.getElem?_eq_some_iff.mp hu).1
      by_cases hhex : HexAhead data c₂ 4
      · obtain ⟨es, code, c₃, hrun, hes, h₃, hoffset₃⟩ := parseHexChars_eq 4 0 h₂ hhex
        have hrest : stringEnds (data.drop c₃.jsonOffset) = true := by
          rw [drop_of_getElem? hu, ← hoffset₂, stringEnds_escape] at hends
          have htail := hends ⟨rfl, hhex⟩
          rw [List.drop_drop] at htail
          rwa [hoffset₃]
        have hlen := hhex.1
        rw [List.length_drop] at hlen
        refine Runs.bind_eq hrun hes fun last₃ => Runs.ite (fun _ => ?_) fun _ => ?_
        · rw [putChar_eq (by omega)]
          exact (ih _ h₃ (by simp; omega) hrest (by omega)).mono fun _ c' _ hc' =>
            ⟨hc'.1, by omega⟩
        · exact (ih _ h₃ (by omega) hrest (by omega)).mono fun _ c' _ hc' => ⟨hc'.1, by omega⟩
      · exact Runs.bind ((parseHexChars_error 4 0 h₂ hhex).mono fun _ _ _ => False.elim)
    · have hescape' : b ≠ 0x5c := fun heq => hescape (by rw [heq]; rfl)
      rw [stringEnds_cons hquote' hescape'] at hends
      rw [putChar_eq (by omega)]
      exact (ih _ h₁ (by simp; omega) hends (by omega)).mono fun _ c' _ hc' => ⟨hc'.1, by omega⟩

/-- A string that does not end in the file is written on until it is past the buffer. -/
theorem parseStringChars_outruns (start turns : Nat) (string : List UInt8) (h : Placed data c)
    (hstart : start + string.length ≤ c.jsonOffset)
    (hends : stringEnds (data.drop c.jsonOffset) = false) :
    Outruns data (parseStringChars data start turns string) c := by
  induction turns generalizing c string with
  | zero => exact Outruns.stop (Or.inr rfl)
  | succ turns ih =>
    rw [parseStringChars]
    cases hb : data[c.jsonOffset]? with
    | none =>
      -- `read_char` stays where it is
      have hend : c.jsonOffset = data.length :=
        Nat.le_antisymm h.le (List.getElem?_eq_none_iff.mp hb)
      have hread : readChar data c = ([.read c.jsonOffset c.loc], .ok (-1, c)) := by
        simp [readChar, hb, Emit.bind_eq, Emit.bind]
      refine Outruns.bind hread (Clean.read h) ?_
      rw [if_neg (by decide), if_neg (by decide)]
      by_cases hroom : start + string.length < data.length
      · rw [putChar_eq hroom]
        exact ih _ h (by simp; omega) hends
      · rw [putChar, if_neg hroom]
        exact Outruns.stop (Or.inl rfl)
    | some b =>
      obtain ⟨es, c₁, hread, hes, h₁, hoffset⟩ := readChar_eq h hb
      have hlt := (List.getElem?_eq_some_iff.mp hb).1
      rw [drop_of_getElem? hb, ← hoffset] at hends
      refine Outruns.bind hread hes ?_
      have hquote : b ≠ 0x22 := by
        rintro rfl
        rw [stringEnds_quote] at hends
        cases hends
      rw [if_neg (fun heq => hquote (charInt_injective (heq.trans (by decide))))]
      by_cases hescape : b = 0x5c
      · subst hescape
        rw [if_pos (by decide)]
        cases hu : data[c₁.jsonOffset]? with
        | none =>
          rw [List.drop_eq_nil_iff.mpr (List.getElem?_eq_none_iff.mp hu)] at hends
          simp [stringEnds] at hends
        | some u =>
          obtain ⟨es₂, c₂, hread₂, hes₂, h₂, hoffset₂⟩ := readChar_eq h₁ hu
          rw [drop_of_getElem? hu, ← hoffset₂, ← Bool.not_eq_true, stringEnds_escape] at hends
          push Not at hends
          obtain ⟨⟨rfl, hhex⟩, hrest⟩ := hends
          obtain ⟨es₃, code, c₃, hrun, hes₃, h₃, hoffset₃⟩ := parseHexChars_eq 4 0 h₂ hhex
          rw [List.drop_drop, ← hoffset₃, ne_eq, Bool.not_eq_true] at hrest
          have hlen := hhex.1
          rw [List.length_drop] at hlen
          refine Outruns.bind hread₂ hes₂ ?_
          rw [if_neg (by decide)]
          refine Outruns.bind hrun hes₃ ?_
          split
          · rw [putChar_eq (by omega)]
            exact ih _ h₃ (by simp; omega) hrest
          · exact ih _ h₃ (by omega) hrest
      · rw [if_neg (fun heq => hescape (charInt_injective (heq.trans (by decide))))]
        rw [stringEnds_cons hquote hescape] at hends
        rw [putChar_eq (by omega)]
        exact ih _ h₁ (by simp; omega) hends

section Fuel

variable {fuel : Nat} [hfuel : Fact (data.length < fuel)]

/-! ## Parsers that move on -/

/-- `m` does not end before where it began. -/
class Moves (data : List UInt8) (m : Json α) : Prop where
  runs : ∀ {last c}, Placed data c →
    Runs data last m c fun _ c' _ => Placed data c' ∧ c.jsonOffset ≤ c'.jsonOffset

/-- `m` ends further on. -/
def Consumes (data : List UInt8) (m : Json α) : Prop :=
  ∀ ⦃last c⦄, Placed data c →
    Runs data last m c fun _ c' _ => Placed data c' ∧ c.jsonOffset < c'.jsonOffset

theorem Consumes.bind {m : Json α} {f : α → Json β} (h : Consumes data m)
    [hf : ∀ a, Moves data (f a)] : Consumes data (m >>= f) := fun _ _ hc =>
  Runs.bind ((h hc).mono fun a _ _ hc' => ((hf a).runs hc'.1).mono fun _ _ _ h' =>
    ⟨h'.1, hc'.2.trans_le h'.2⟩)

namespace Moves

instance pure (a : α) : Moves data (Pure.pure a : Json α) := ⟨fun hc => Runs.pure ⟨hc, le_rfl⟩⟩

instance bind {m : Json α} {f : α → Json β} [hm : Moves data m] [hf : ∀ a, Moves data (f a)] :
    Moves data (m >>= f) :=
  ⟨fun hc => Runs.bind ((hm.runs hc).mono fun a _ _ hc' =>
    ((hf a).runs hc'.1).mono fun _ _ _ h' => ⟨h'.1, hc'.2.trans h'.2⟩)⟩

instance ite {p : Prop} [Decidable p] {m m' : Json α} [hm : Moves data m] [hm' : Moves data m'] :
    Moves data (if p then m else m') :=
  ⟨fun hc => Runs.ite (fun _ => hm.runs hc) fun _ => hm'.runs hc⟩

instance parseError : Moves data (parseError : Json α) := ⟨fun _ => Runs.parseError⟩

instance onCommand (command : SpecCommand) : Moves data (onCommand command) :=
  ⟨fun hc => Runs.bind (Runs.get (Runs.emitCommand ⟨hc, le_rfl⟩))⟩

instance setSourceFilename (sourceFilename : List UInt8) :
    Moves data (Emit.modify fun c : Context => { c with sourceFilename }) :=
  ⟨fun hc => Runs.modify ⟨⟨hc.le, hc.loc, hc.prev⟩, le_rfl⟩⟩

instance skipWhitespace : Moves data (skipWhitespace data fuel) :=
  ⟨fun hc => skipWhitespace_runs fuel hc (lt_of_le_of_lt (Nat.sub_le _ _) hfuel.out)⟩

end Moves

theorem match_runs (s : String) (h : Placed data c) :
    Runs data last (match_ data fuel s) c fun a c' _ =>
      Placed data c' ∧ c.jsonOffset ≤ c'.jsonOffset ∧
        (a = true → IsToken s.toUTF8.toList → c.jsonOffset < c'.jsonOffset) := by
  refine Runs.bind ((Moves.skipWhitespace.runs h).mono fun _ start _ hstart => ?_)
  refine Runs.bind (Runs.get (Runs.bind ((matchChars_runs _ hstart.1).mono fun a c' _ hc => ?_)))
  refine Runs.ite (fun ha => Runs.pure ⟨hc.1, by omega, fun _ htoken => ?_⟩) fun _ => ?_
  · have hlen := hc.2.2.2 ha htoken.2
    have hpos := List.length_pos_of_ne_nil htoken.1
    omega
  · have hback : Placed data { c' with jsonOffset := start.jsonOffset, loc := start.loc } := by
      refine ⟨hstart.1.le, hstart.1.loc, fun hend hne => ?_⟩
      obtain rfl : c' = start := hc.2.2.1 hend
      exact hstart.1.prev hend hne
    refine Runs.bind (Runs.get (Runs.bind (Runs.moveTo hback.le hback.loc (Runs.pure ?_))))
    exact ⟨hback, hstart.2, fun hfalse => by cases hfalse⟩

instance match_moves (s : String) : Moves data (match_ data fuel s) :=
  ⟨fun hc => (match_runs s hc).mono fun _ _ _ h => ⟨h.1, h.2.1⟩⟩

instance expect_moves (s : String) : Moves data (expect data fuel s) := by
  unfold expect
  infer_instance

instance expectKey_moves (key : String) : Moves data (expectKey data fuel key) := by
  unfold expectKey
  infer_instance

theorem isToken_brace : IsToken "\x7b".toUTF8.toList := by decide +kernel

theorem expect_consumes {s : String} (h : IsToken s.toUTF8.toList) :
    Consumes data (expect data fuel s) := fun _ _ hc => by
  refine Runs.bind ((match_runs s hc).mono fun a c' _ hc' => ?_)
  exact Runs.ite (fun ha => Runs.pure ⟨hc'.1, hc'.2.2 ha h⟩) fun _ => Runs.parseError

/-! ## Numbers -/

/-- A number that ends is read up to the character behind it. -/
theorem parseUint32Digits_runs (turns result : Nat) (h : Placed data c)
    (hends : numberEnds result (data.drop c.jsonOffset) = true)
    (hturns : data.length - c.jsonOffset < turns) :
    Runs data last (parseUint32Digits data turns result) c fun _ c' _ =>
      Placed data c' ∧ c.jsonOffset ≤ c'.jsonOffset := by
  induction turns generalizing c result last with
  | zero => exact absurd hturns (Nat.not_lt_zero _)
  | succ turns ih =>
    rw [parseUint32Digits]
    refine Runs.bind ((readChar_runs h).mono fun a c' last' hread => ?_)
    rcases hread with ⟨hend, rfl, rfl⟩ | ⟨hplaced, hoffset, hprev, hloc, rfl, b, hb, rfl⟩
    · rw [hend, List.drop_length] at hends
      cases hends
    have hlt := (List.getElem?_eq_some_iff.mp hb).1
    rw [drop_of_getElem? hb, ← hoffset, numberEnds] at hends
    refine Runs.ite (fun hdigit => Runs.ite (fun _ => Runs.parseError) fun hgrows => ?_) fun _ =>
      Runs.bind ?_
    · rw [if_pos hdigit, Bool.or_eq_true, decide_eq_true_eq] at hends
      exact (ih _ hplaced (hends.resolve_left hgrows) (by omega)).mono fun _ c'' _ hc =>
        ⟨hc.1, by omega⟩
    · exact putbackChar_runs h hoffset hplaced.le hprev hloc fun c'' _ hc hback =>
        Runs.pure ⟨hc, by omega⟩

/-- At the end of the file `parse_uint32` puts back the last digit, or what is before it. -/
theorem parseUint32Digits_misplaces (turns result : Nat) (h : Placed data c)
    (hends : numberEnds result (data.drop c.jsonOffset) = false)
    (hturns : data.length - c.jsonOffset < turns) (hpos : c.jsonOffset ≠ 0) :
    ∃ es a c', parseUint32Digits data turns result c = (es, .ok (a, c')) ∧
      PlacedMarks data es ∧ StringsEnd data es ∧ (∀ last, ¬Restored last es) ∧
        Placed data c' ∧ c.jsonOffset ≤ c'.jsonOffset + 1 := by
  induction turns generalizing c result with
  | zero => exact absurd hturns (Nat.not_lt_zero _)
  | succ turns ih =>
    cases hb : data[c.jsonOffset]? with
    | none =>
      have hend : c.jsonOffset = data.length :=
        Nat.le_antisymm h.le (List.getElem?_eq_none_iff.mp hb)
      obtain ⟨hprev, hloc⟩ := h.prev hend hpos
      have hback := placed_putback h.le hpos hloc
      refine ⟨[.read c.jsonOffset c.loc, .putback (c.jsonOffset - 1) c.prevLoc], result, _, ?_, ?_,
        by simp [StringsEnd], fun last => ?_, hback, ?_⟩
      · have hread : readChar data c = ([.read c.jsonOffset c.loc], .ok (-1, c)) := by
          simp [readChar, hb, Emit.bind_eq, Emit.bind]
        rw [parseUint32Digits, Emit.bind_eq, Emit.bind_ok hread, if_neg (by decide), Emit.bind_eq,
          Emit.bind_ok (putbackChar_eq hprev)]
        rfl
      · intro mark hmark n loc hposition
        rcases List.mem_pair.mp hmark with rfl | rfl
        · cases hposition
          exact ⟨h.le, h.loc⟩
        · cases hposition
          exact ⟨hback.le, hback.loc⟩
      · simp only [Restored, Mark.Restores, Mark.lastRead, Option.some.injEq, Prod.mk.injEq]
        omega
      · simp only
        omega
    | some b =>
      have hlt := (List.getElem?_eq_some_iff.mp hb).1
      obtain ⟨es, c', hread, hes, hc', hoffset⟩ := readChar_eq h hb
      rw [drop_of_getElem? hb, ← hoffset, numberEnds] at hends
      split at hends
      · rename_i hdigit
        rw [Bool.or_eq_false_iff, decide_eq_false_iff_not] at hends
        obtain ⟨es', a, c'', hrun, hplaced, hstrings, hrestored, hc'', hle⟩ :=
          ih _ hc' hends.2 (by omega) (by omega)
        refine ⟨es ++ es', a, c'', ?_, placedMarks_append.mpr ⟨hes.placed, hplaced⟩,
          stringsEnd_append.mpr ⟨hes.strings, hstrings⟩, fun last hall => ?_, hc'', by omega⟩
        · rw [parseUint32Digits, Emit.bind_eq, Emit.bind_ok hread]
          simp only [if_pos hdigit, if_neg hends.1, hrun]
        · exact hrestored _ (restored_append.mp hall).2
      · cases hends

theorem parseUint32_runs (h : Placed data c) (hpos : c.jsonOffset ≠ 0) :
    Runs data last (parseUint32 data fuel) c fun _ c' _ =>
      Placed data c' ∧ c.jsonOffset ≤ c'.jsonOffset + 1 := by
  refine Runs.bind ((Moves.skipWhitespace.runs h).mono fun _ c₁ last₁ h₁ => ?_)
  refine Runs.bind (Runs.get ?_)
  have hturns : data.length - c₁.jsonOffset < fuel := lt_of_le_of_lt (Nat.sub_le _ _) hfuel.out
  cases hends : numberEnds 0 (data.drop c₁.jsonOffset) with
  | true =>
    refine Runs.bind (Runs.of_ok (Emit.emit_run _ c₁) (by simp [PlacedMarks, Mark.position]) ?_
      (by simp [StringsEnd]) ?_)
    · simpa [Restored, Mark.Restores, NumbersEnd] using hends
    · exact (parseUint32Digits_runs fuel 0 h₁.1 hends hturns).mono fun _ c₂ _ h₂ =>
        ⟨h₂.1, by omega⟩
  | false =>
    obtain ⟨es, a, c₂, hrun, hplaced, hstrings, hrestored, h₂, hle⟩ :=
      parseUint32Digits_misplaces fuel 0 h₁.1 hends hturns (by omega)
    have hruns : (Emit.emit (.number c₁.jsonOffset) >>= fun _ =>
        parseUint32Digits data fuel 0) c₁ = (.number c₁.jsonOffset :: es, .ok (a, c₂)) := by
      rw [Emit.bind_eq, Emit.bind_ok (Emit.emit_run _ _), hrun]
      rfl
    refine Runs.of_ok hruns ?_ ?_ ?_ ⟨h₂, by omega⟩
    · simpa [PlacedMarks, Mark.position] using hplaced
    · refine iff_of_false (fun hall => hrestored _ hall.2) fun hall => ?_
      rw [hall c₁.jsonOffset List.mem_cons_self] at hends
      cases hends
    · simpa [StringsEnd] using hstrings

instance parseLine_moves : Moves data (parseLine data fuel) := by
  have hkey : Consumes data (expectKey data fuel "line") :=
    Consumes.bind (expect_consumes (by decide +kernel))
  refine ⟨fun hc => Runs.bind ((hkey hc).mono fun _ c₁ _ h₁ => Runs.bind ?_)⟩
  refine (parseUint32_runs h₁.1 (by omega)).mono fun _ c₂ _ h₂ => Runs.modify ?_
  exact ⟨⟨h₂.1.le, h₂.1.loc, h₂.1.prev⟩, by simp only; omega⟩

instance parseString_moves : Moves data (parseString data fuel) := by
  refine ⟨fun hc => ?_⟩
  refine Runs.bind ((Moves.skipWhitespace.runs hc).mono fun _ c₁ _ h₁ => ?_)
  refine Runs.bind ((readChar_runs h₁.1).mono fun a c₂ _ hread => ?_)
  rcases hread with ⟨_, rfl, rfl⟩ | ⟨h₂, hoffset, _, _, _, b, hb, rfl⟩
  · exact Runs.ite (fun _ => Runs.parseError) fun hquote => absurd (by decide) hquote
  refine Runs.ite (fun _ => Runs.parseError) fun _ => Runs.bind (Runs.get ?_)
  cases hends : stringEnds (data.drop c₂.jsonOffset) with
  | true =>
    refine Runs.bind (Runs.of_ok (Emit.emit_run _ c₂) (by simp [PlacedMarks, Mark.position])
      (by simp [Restored, Mark.Restores, NumbersEnd]) ?_ ?_)
    · simpa [StringsEnd] using hends
    · refine (parseStringChars_runs c₂.jsonOffset fuel [] h₂ le_rfl hends ?_).mono
        fun _ c' _ hc' => ⟨hc'.1, by omega⟩
      exact lt_of_le_of_lt (Nat.sub_le _ _) hfuel.out
  | false =>
    have hloop := parseStringChars_outruns c₂.jsonOffset fuel [] h₂ le_rfl hends
    obtain ⟨reason, c', hstop, hreason⟩ := hloop.stopped
    have hrun : (Emit.emit (.string c₂.jsonOffset) >>= fun _ =>
        parseStringChars data c₂.jsonOffset fuel []) c₂ =
        (.string c₂.jsonOffset :: (parseStringChars data c₂.jsonOffset fuel [] c₂).1,
          .error (reason, c')) := by
      rw [Emit.bind_eq, Emit.bind_ok (Emit.emit_run _ _), hstop]
      rfl
    refine ⟨?_, ?_, fun a c'' ha => ?_, fun reason' c'' hr => Or.inr ⟨?_, fun hall => ?_⟩⟩
    · rw [hrun]
      simpa [PlacedMarks, Mark.position] using hloop.placed
    · rw [hrun]
      simpa [Restored, Mark.Restores, NumbersEnd] using hloop.restored _
    · rw [hrun] at ha
      cases ha
    · rw [hrun] at hr
      cases hr
      exact hreason
    · rw [hrun] at hall
      have hend := hall c₂.jsonOffset List.mem_cons_self
      rw [hends] at hend
      cases hend

/-! ## Values and commands -/

instance parseKeyStringValue_moves (key : String) :
    Moves data (parseKeyStringValue data fuel key) := by
  unfold parseKeyStringValue
  infer_instance

instance parseOptNameStringValue_moves : Moves data (parseOptNameStringValue data fuel) := by
  unfold parseOptNameStringValue
  infer_instance

instance typeOfStr_moves (typeStr : List UInt8) : Moves data (typeOfStr typeStr) := by
  unfold typeOfStr
  split <;> infer_instance

instance constOfStr_moves (type : ValueType) (valueStr : List UInt8) :
    Moves data (constOfStr type valueStr) := by
  unfold constOfStr
  dsimp only
  split <;> infer_instance

variable (data fuel) in
theorem parseTypeObject_consumes : Consumes data (parseTypeObject data fuel) :=
  Consumes.bind (expect_consumes isToken_brace)

variable (data fuel) in
theorem parseConst_consumes : Consumes data (parseConst data fuel) :=
  Consumes.bind (expect_consumes isToken_brace)

instance expectSeparator_moves (first : Bool) : Moves data (expectSeparator data fuel first) := by
  unfold expectSeparator
  infer_instance

/-- The loop over the elements of an array: every turn consumes a character. -/
theorem parseElements_runs {element : Json α} (helement : Consumes data element) (turns : Nat)
    (first : Bool) (h : Placed data c) (hturns : data.length - c.jsonOffset < turns) :
    Runs data last (parseElements data fuel element turns first) c fun _ c' _ =>
      Placed data c' ∧ c.jsonOffset ≤ c'.jsonOffset := by
  induction turns generalizing c last first with
  | zero => exact absurd hturns (Nat.not_lt_zero _)
  | succ turns ih =>
    rw [parseElements]
    refine Runs.bind ((match_runs "]" h).mono fun matched c₁ _ h₁ => ?_)
    refine Runs.ite (fun _ => Runs.pure ⟨h₁.1, h₁.2.1⟩) fun _ => ?_
    refine Runs.bind (((expectSeparator_moves first).runs h₁.1).mono fun _ c₂ _ h₂ => ?_)
    refine Runs.bind ((helement h₂.1).mono fun a c₃ _ h₃ => ?_)
    have hle := h₃.1.le
    refine Runs.bind ((ih false h₃.1 (by omega)).mono fun as c₄ _ h₄ => ?_)
    exact Runs.pure ⟨h₄.1, by omega⟩

variable (fuel) in
theorem parseElements_moves {element : Json α} (helement : Consumes data element) :
    Moves data (parseElements data fuel element fuel true) :=
  ⟨fun hc => parseElements_runs helement fuel true hc
    (lt_of_le_of_lt (Nat.sub_le _ _) hfuel.out)⟩

instance parseTypeVector_moves : Moves data (parseTypeVector data fuel) := by
  have helements := parseElements_moves fuel (parseTypeObject_consumes data fuel)
  unfold parseTypeVector
  infer_instance

instance parseConstVector_moves : Moves data (parseConstVector data fuel) := by
  have helements := parseElements_moves fuel (parseConst_consumes data fuel)
  unfold parseConstVector
  infer_instance

instance parseActionIsGet_moves : Moves data (parseActionIsGet data fuel) := by
  unfold parseActionIsGet
  infer_instance

instance parseActionModule_moves : Moves data (parseActionModule data fuel) := by
  unfold parseActionModule
  infer_instance

instance parseActionArgs_moves (isGet : Bool) : Moves data (parseActionArgs data fuel isGet) := by
  unfold parseActionArgs
  infer_instance

instance parseAction_moves : Moves data (parseAction data fuel) := by
  unfold parseAction
  infer_instance

instance parseCommandLine_moves : Moves data (parseCommandLine data fuel) := by
  unfold parseCommandLine
  infer_instance

variable (data fuel) in
/-- A parser for each type of command. -/
theorem commandParsers_moves : ∀ p ∈ commandParsers data fuel, Moves data p.2 := by
  simp only [commandParsers, List.forall_mem_cons]
  refine ⟨?_, ?_, ?_, ?_, ?_, ?_, ?_, ?_, ?_, ?_, by simp⟩
  · unfold parseModuleCommand
    infer_instance
  · unfold parseActionCommand
    infer_instance
  · unfold parseRegisterCommand
    infer_instance
  · unfold parseAssertModuleCommand
    infer_instance
  · unfold parseAssertModuleCommand
    infer_instance
  · unfold parseAssertModuleCommand
    infer_instance
  · unfold parseAssertModuleCommand
    infer_instance
  · unfold parseAssertReturnCommand
    infer_instance
  · unfold parseAssertReturnNanCommand
    infer_instance
  · unfold parseAssertTrapCommand
    infer_instance

theorem parseCommandOf_moves {parsers : List (String × Json Unit)}
    (h : ∀ p ∈ parsers, Moves data p.2) : Moves data (parseCommandOf data fuel parsers) := by
  induction parsers with
  | nil =>
    unfold parseCommandOf
    infer_instance
  | cons p parsers ih =>
    have hp : Moves data p.2 := h p List.mem_cons_self
    have hrest := ih fun q hq => h q (List.mem_cons_of_mem _ hq)
    obtain ⟨type, parse⟩ := p
    unfold parseCommandOf
    infer_instance

variable (data fuel) in
theorem parseCommand_consumes : Consumes data (parseCommand data fuel) := by
  have hof : Moves data (parseCommandOf data fuel (commandParsers data fuel)) :=
    parseCommandOf_moves (commandParsers_moves data fuel)
  exact Consumes.bind (expect_consumes isToken_brace)

instance parseCommands_moves : Moves data (parseCommands data fuel) := by
  have helements := parseElements_moves fuel (parseCommand_consumes data fuel)
  unfold parseCommands
  infer_instance

end Fuel

/-! ## The whole file -/

theorem placed_start : Placed data {} where
  le := Nat.zero_le _
  loc := rfl
  prev _ hne := absurd rfl hne

theorem readAndRunSpecJson_runs {fuel : Nat} (hfuel : data.length < fuel) :
    Runs data none (parseCommands data fuel) {} fun _ c' _ => Placed data c' :=
  haveI : Fact (data.length < fuel) := ⟨hfuel⟩
  (parseCommands_moves.runs placed_start).mono fun _ _ _ h => h.1

/-- The reader is total on a file: with a turn for each byte and one more every loop comes to its
end, and the run succeeds or reports an error; no move leaves the file or loses its line and column;
and every character that is put back is the one that was read last. -/
structure Total (data : List UInt8) : Prop where
  ends : ∀ fuel, data.length < fuel →
    (∃ c, (readAndRunSpecJson data fuel).2 = .ok ((), c)) ∨
      ∃ c, (readAndRunSpecJson data fuel).2 = .error (.error, c)
  placed : ∀ fuel, data.length < fuel → PlacedMarks data (readAndRunSpecJson data fuel).1
  restored : ∀ fuel, data.length < fuel → Restored none (readAndRunSpecJson data fuel).1

/-- The reader is total on the files that do not end in a number or a string. -/
theorem readAndRunSpecJson_total_iff (data : List UInt8) :
    Total data ↔ ∀ fuel, data.length < fuel →
      StringsEnd data (readAndRunSpecJson data fuel).1 ∧
        NumbersEnd data (readAndRunSpecJson data fuel).1 := by
  constructor
  · intro h fuel hfuel
    have hruns := readAndRunSpecJson_runs hfuel
    refine ⟨?_, hruns.restored.mp (h.restored fuel hfuel)⟩
    rcases h.ends fuel hfuel with ⟨c, hc⟩ | ⟨c, hc⟩
    · exact (hruns.ok () c hc).1
    · rcases hruns.error .error c hc with ⟨_, hends⟩ | ⟨hreason, _⟩
      · exact hends
      · rcases hreason with hreason | hreason <;> cases hreason
  · intro h
    refine ⟨fun fuel hfuel => ?_, fun fuel hfuel => (readAndRunSpecJson_runs hfuel).placed,
      fun fuel hfuel => (readAndRunSpecJson_runs hfuel).restored.mpr (h fuel hfuel).2⟩
    rcases hrun : (readAndRunSpecJson data fuel).2 with ⟨reason, c⟩ | ⟨_, c⟩
    · rcases (readAndRunSpecJson_runs hfuel).error reason c hrun with ⟨rfl, _⟩ | ⟨_, hends⟩
      · exact Or.inr ⟨c, rfl⟩
      · exact absurd (h fuel hfuel).1 hends
    · exact Or.inl ⟨c, rfl⟩

/-- The file ends in the name of its source, which is written on behind the buffer. -/
theorem readAndRunSpecJson_overruns :
    ¬Total "\x7b\"source_filename\": \"a".toUTF8.toList := by
  intro h
  have hrun : (match (readAndRunSpecJson "\x7b\"source_filename\": \"a".toUTF8.toList 23).2 with
      | .error (reason, _) => some reason
      | .ok _ => none) = some .overrun := by decide +kernel
  rcases h.ends 23 (by decide +kernel) with ⟨c, hc⟩ | ⟨c, hc⟩
  · rw [hc] at hrun
    cases hrun
  · rw [hc] at hrun
    cases hrun

end SpecJson

end Interpreter

end SexprWasm
