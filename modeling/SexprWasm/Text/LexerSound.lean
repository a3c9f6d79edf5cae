import SexprWasm.Text.Lexer
import Mathlib.Logic.Relation

/-!
# The buffer is a window on the source

`Window` says that the buffer holds the source from `buffer_file_offset`
on, and zeros where the source has ended. Scanner moves keep it, and so
does `fill` where `FillOk` holds: a buffer source is copied to the wrong
end of the live bytes, a grown buffer is filled from the block that was
given up, and a shift at the end of the source may make too little room
to notice the end. In such runs the machine comes to the lexemes of the
whole stream, whatever the source is made of.
-/

namespace SexprWasm

namespace Text

open Scanner

/-- The source, followed by zeros. -/
def AstLexer.stream (lexer : AstLexer) (i : Nat) : UInt8 := lexer.source.data.getD i 0

structure AstLexer.Window (lexer : AstLexer) : Prop where
  token_le : lexer.token ≤ lexer.cursor
  cursor_le : lexer.cursor ≤ lexer.limit
  limit_le : lexer.limit ≤ lexer.bufferSize
  read_le : lexer.source.readOffset ≤ lexer.source.data.length
  content : ∀ i < lexer.limit, lexer.buffer i = lexer.stream (lexer.bufferFileOffset + i)
  limit_eq : lexer.bufferFileOffset + lexer.limit =
    lexer.source.readOffset + if lexer.eof then yyMaxFill else 0
  atEof : lexer.eof = true → lexer.source.readOffset = lexer.source.data.length
  filled : lexer.eof = false → lexer.bufferSize ≤ lexer.limit + yyMaxFill

/-- The bytes of the source that were not read yet. -/
def AstLexer.left (lexer : AstLexer) : Nat :=
  lexer.source.data.length - lexer.source.readOffset

/-- A `FILL` does what it should: no live byte is in the way of the copy from a buffer source; a
block that grows has no live bytes or can still be read; and a shift is not the one that comes
to the end of the source without room to notice it, with less than `need` bytes left. -/
def FillOk (alloc : Allocator) (need : Nat) (lexer : AstLexer) : Prop :=
  (lexer.source.type = .file ∨ lexer.limit = lexer.token ∨ lexer.left = 0) ∧
    (lexer.token < need → alloc.keepsBlock = true ∨ lexer.limit = lexer.token) ∧
    (need ≤ lexer.token → lexer.token ≤ lexer.left ∨
      lexer.limit - lexer.token + lexer.left + yyMaxFill < lexer.bufferSize ∨
      lexer.cursor + need ≤ lexer.limit + lexer.left)

/-- `lexer'` is `lexer` with other bytes in the buffer: nothing has moved in the source and no
byte after the token is lost. -/
structure Refills (lexer lexer' : AstLexer) : Prop where
  data : lexer'.source.data = lexer.source.data
  type : lexer'.source.type = lexer.source.type
  line : lexer'.line = lexer.line
  lineFileOffset : lexer'.lineFileOffset = lexer.lineFileOffset
  token : lexer'.bufferFileOffset + lexer'.token = lexer.bufferFileOffset + lexer.token
  cursor : lexer'.bufferFileOffset + lexer'.cursor = lexer.bufferFileOffset + lexer.cursor
  marker : lexer'.bufferFileOffset + lexer'.marker = lexer.bufferFileOffset + lexer.marker
  limit : lexer.bufferFileOffset + lexer.limit ≤ lexer'.bufferFileOffset + lexer'.limit

theorem growBufferSize_spec (oldSize free need newSize : Nat) (h : 0 < newSize) :
    newSize ≤ growBufferSize oldSize free need newSize ∧
      need + yyMaxFill ≤ growBufferSize oldSize free need newSize - oldSize + free := by
  fun_induction growBufferSize oldSize free need newSize with
  | case1 newSize hgo ih =>
    obtain ⟨hle, hroom⟩ := ih (by omega)
    exact ⟨by omega, hroom⟩
  | case2 newSize hstop => omega

variable {alloc : Allocator} {need free : Nat} {lexer lexer' lexer'' : AstLexer}

theorem Refills.trans (h : Refills lexer lexer') (h' : Refills lexer' lexer'') :
    Refills lexer lexer'' where
  data := h'.data.trans h.data
  type := h'.type.trans h.type
  line := h'.line.trans h.line
  lineFileOffset := h'.lineFileOffset.trans h.lineFileOffset
  token := h'.token.trans h.token
  cursor := h'.cursor.trans h.cursor
  marker := h'.marker.trans h.marker
  limit := Nat.le_trans h.limit h'.limit

/-- What `makeRoom` makes: the live bytes at the start of the buffer, and room after them. -/
structure Roomy (need : Nat) (lexer lexer' : AstLexer) (free : Nat) : Prop where
  source : lexer'.source = lexer.source
  line : lexer'.line = lexer.line
  lineFileOffset : lexer'.lineFileOffset = lexer.lineFileOffset
  eof : lexer'.eof = lexer.eof
  bufferFileOffset : lexer'.bufferFileOffset = lexer.bufferFileOffset + lexer.token
  token : lexer'.token = 0
  cursor : lexer'.cursor = lexer.cursor - lexer.token
  marker : lexer'.marker = lexer.marker - lexer.token
  limit : lexer'.limit = lexer.limit - lexer.token
  content : ∀ i < lexer'.limit, lexer'.buffer i = lexer.buffer (lexer.token + i)
  room : lexer'.limit + free ≤ lexer'.bufferSize
  filled : lexer'.bufferSize ≤ lexer'.limit + free + yyMaxFill
  shifted : need ≤ lexer.token → free = lexer.token ∧ lexer'.bufferSize = lexer.bufferSize
  grown : lexer.token < need → need + yyMaxFill ≤ free

theorem makeRoom_spec (hw : lexer.Window) (heof : lexer.eof = false)
    (hkeep : lexer.token < need → alloc.keepsBlock = true ∨ lexer.limit = lexer.token) :
    ∃ lexer' free, lexer.makeRoom alloc need = some (lexer', free) ∧
      Roomy need lexer lexer' free := by
  obtain ⟨htoken, hcursor, hlimit, -, -, -, -, hfilled⟩ := hw
  have hfill := hfilled heof
  have hmove : ∀ into, ∀ i < lexer.limit - lexer.token,
      memmove into lexer.buffer lexer.token (lexer.limit - lexer.token) i =
        lexer.buffer (lexer.token + i) := fun into i hi => if_pos hi
  by_cases hgrow : lexer.token < need
  · have hread : ¬ (lexer.limit - lexer.token ≠ 0 ∧ (!alloc.keepsBlock) = true) := by
      rintro ⟨hlive, hfreed⟩
      rcases hkeep hgrow with hkeep | hkeep
      · simp [hkeep] at hfreed
      · omega
    have hnew : 0 < (if lexer.bufferSize ≠ 0 then lexer.bufferSize * 2
        else initialLexerBufferSize) := by
      split
      · omega
      · decide
    have hdouble : lexer.bufferSize ≤ (if lexer.bufferSize ≠ 0 then lexer.bufferSize * 2
        else initialLexerBufferSize) := by
      split <;> omega
    obtain ⟨hle, hroom⟩ := growBufferSize_spec lexer.bufferSize lexer.token need _ hnew
    rw [AstLexer.makeRoom, if_pos hgrow, if_neg hread]
    generalize growBufferSize _ _ _ _ = newSize at hle hroom
    exact ⟨_, _, rfl,
      { source := rfl, line := rfl, lineFileOffset := rfl, eof := rfl, bufferFileOffset := rfl
        token := Nat.sub_self _, cursor := rfl, marker := rfl, limit := rfl
        content := hmove _
        room := by dsimp only; omega
        filled := by dsimp only; omega
        shifted := fun hle => by omega
        grown := fun _ => by omega }⟩
  · rw [AstLexer.makeRoom, if_neg hgrow]
    exact ⟨_, _, rfl,
      { source := rfl, line := rfl, lineFileOffset := rfl, eof := rfl, bufferFileOffset := rfl
        token := Nat.sub_self _, cursor := rfl, marker := rfl, limit := rfl
        content := hmove _
        room := by dsimp only; omega
        filled := by dsimp only; omega
        shifted := fun _ => ⟨rfl, rfl⟩
        grown := fun hlt => absurd hlt hgrow }⟩

/-- What is read goes behind the live bytes. -/
theorem readSource_spec (free : Nat)
    (hplace : lexer.source.type = .file ∨ lexer.limit = 0 ∨ lexer.left = 0)
    (hcontent : ∀ i < lexer.limit, lexer.buffer i = lexer.stream (lexer.bufferFileOffset + i))
    (hlimit : lexer.bufferFileOffset + lexer.limit = lexer.source.readOffset)
    (hread : lexer.source.readOffset ≤ lexer.source.data.length) :
    (lexer.readSource free).limit = lexer.limit + min free lexer.left ∧
      (lexer.readSource free).source.readOffset =
        lexer.source.readOffset + min free lexer.left ∧
      ∀ i < (lexer.readSource free).limit,
        (lexer.readSource free).buffer i = lexer.stream (lexer.bufferFileOffset + i) := by
  have hlen : ((lexer.source.data.drop lexer.source.readOffset).take free).length =
      min free lexer.left := by
    rw [List.length_take, List.length_drop, AstLexer.left]
  have hbytes : ∀ k < min free lexer.left, ∀ d,
      ((lexer.source.data.drop lexer.source.readOffset).take free).getD k d =
        lexer.stream (lexer.source.readOffset + k) := by
    intro k hk d
    have hin : lexer.source.readOffset + k < lexer.source.data.length := by
      rw [AstLexer.left] at hk
      omega
    rw [AstLexer.stream, List.getD_eq_getElem?_getD, List.getElem?_take, if_pos (by omega),
      List.getElem?_drop, List.getElem?_eq_getElem hin, List.getD_eq_getElem?_getD,
      List.getElem?_eq_getElem hin]
    rfl
  refine ⟨by rw [AstLexer.readSource, hlen], by rw [AstLexer.readSource, hlen], fun i hi => ?_⟩
  have hi : i < lexer.limit + min free lexer.left := by
    simpa only [AstLexer.readSource, hlen] using hi
  have hput : ∀ offset, offset = lexer.limit ∨ min free lexer.left = 0 →
      write lexer.buffer offset ((lexer.source.data.drop lexer.source.readOffset).take free) i =
        lexer.stream (lexer.bufferFileOffset + i) := by
    intro offset hoffset
    rw [write]
    by_cases hnone : min free lexer.left = 0
    · have hnil : (lexer.source.data.drop lexer.source.readOffset).take free = [] :=
        List.length_eq_zero_iff.mp (hlen.trans hnone)
      rw [hnil, List.getD_nil, ite_self]
      exact hcontent i (by omega)
    · obtain rfl := hoffset.resolve_right hnone
      by_cases hold : lexer.limit ≤ i
      · rw [if_pos hold, hbytes _ (by omega)]
        congr 1
        omega
      · rw [if_neg hold]
        exact hcontent i (by omega)
  -- a buffer source is written to the start, which is the end where there are no live bytes
  rcases hplace with htype | hempty | hleft
  · rw [AstLexer.readSource, htype]
    exact hput _ (.inl rfl)
  · rw [AstLexer.readSource]
    cases lexer.source.type
    · exact hput _ (.inl rfl)
    · exact hput _ (.inl hempty.symm)
  · rw [AstLexer.readSource]
    exact hput _ (.inr (by omega))

/-- The end of the source is noticed and padded, or there is no room to notice it. -/
theorem padAtEof_spec (lexer : AstLexer) (heof : lexer.eof = false) (htoken : lexer.token ≤ lexer.cursor)
    (hcursor : lexer.cursor ≤ lexer.limit) (hlimit : lexer.limit ≤ lexer.bufferSize)
    (hread : lexer.source.readOffset ≤ lexer.source.data.length)
    (hcontent : ∀ i < lexer.limit, lexer.buffer i = lexer.stream (lexer.bufferFileOffset + i))
    (hlimit_eq : lexer.bufferFileOffset + lexer.limit = lexer.source.readOffset)
    (hend : lexer.limit + yyMaxFill < lexer.bufferSize →
      lexer.source.readOffset = lexer.source.data.length) :
    lexer.padAtEof.Window ∧ Refills lexer lexer.padAtEof ∧
      lexer.padAtEof.cursor = lexer.cursor ∧ lexer.limit ≤ lexer.padAtEof.limit ∧
      (lexer.limit + yyMaxFill < lexer.bufferSize → lexer.padAtEof.limit = lexer.limit + yyMaxFill) := by
  rw [AstLexer.padAtEof]
  split
  · rename_i hpad
    refine ⟨?_, ⟨rfl, rfl, rfl, rfl, rfl, rfl, rfl, by dsimp only; omega⟩, rfl,
      by dsimp only; omega, fun _ => rfl⟩
    exact
      { token_le := htoken
        cursor_le := by dsimp only; omega
        limit_le := by dsimp only; omega
        read_le := hread
        content := by
          intro i hi
          dsimp only at hi
          have hstream : (lexer.stream (lexer.bufferFileOffset + i)) =
              lexer.source.data.getD (lexer.bufferFileOffset + i) 0 := rfl
          by_cases hold : lexer.limit ≤ i
          · have hzero : (List.replicate yyMaxFill (0 : UInt8)).getD (i - lexer.limit)
                (lexer.buffer i) = 0 := by
              rw [List.getD_eq_getElem?_getD, List.getElem?_replicate, if_pos (by omega)]
              rfl
            have hpast : lexer.source.data.getD (lexer.bufferFileOffset + i) 0 = 0 := by
              rw [List.getD_eq_getElem?_getD, List.getElem?_eq_none (by have := hend hpad; omega)]
              rfl
            show write _ _ _ i = lexer.stream (lexer.bufferFileOffset + i)
            rw [write, if_pos hold, hzero, hstream, hpast]
          · show write _ _ _ i = lexer.stream (lexer.bufferFileOffset + i)
            rw [write, if_neg hold]
            exact hcontent i (by omega)
        limit_eq := by simp only [if_true]; omega
        atEof := fun _ => hend hpad
        filled := fun h => by cases h }
  · rename_i hpad
    refine ⟨?_, ⟨rfl, rfl, rfl, rfl, rfl, rfl, rfl, Nat.le_refl _⟩, rfl, Nat.le_refl _,
      fun h => absurd h hpad⟩
    exact
      { token_le := htoken
        cursor_le := hcursor
        limit_le := hlimit
        read_le := hread
        content := hcontent
        limit_eq := by simpa [heof] using hlimit_eq
        atEof := fun h => by simp [heof] at h
        filled := fun _ => by omega }

/-- `fill` keeps the window and the positions, loses no byte after the token, and leaves `need`
bytes after the cursor. -/
theorem fill_spec (hw : lexer.Window) (heof : lexer.eof = false) (hneed : need ≤ yyMaxFill)
    (hok : FillOk alloc need lexer) :
    ∃ lexer', fill alloc need lexer = .ok lexer' ∧ lexer'.Window ∧ Refills lexer lexer' ∧
      lexer'.cursor + need ≤ lexer'.limit := by
  obtain ⟨roomy, free, hroom, hr⟩ := makeRoom_spec hw heof hok.2.1
  have hfill : fill alloc need lexer = .ok (roomy.readSource free).padAtEof := by
    have hle : ¬ lexer.cursor < lexer.token := by
      have := hw.token_le
      omega
    rw [fill, heof, if_neg (by simp), if_neg hle, hroom]
  have hleft : roomy.left = lexer.left := by rw [AstLexer.left, AstLexer.left, hr.source]
  have hstream : ∀ i, roomy.stream i = lexer.stream i := fun i => by
    rw [AstLexer.stream, AstLexer.stream, hr.source]
  have hcontent : ∀ i < roomy.limit,
      roomy.buffer i = roomy.stream (roomy.bufferFileOffset + i) := by
    intro i hi
    have hlt : lexer.token + i < lexer.limit := by
      have := hr.limit
      omega
    rw [hr.content i hi, hw.content _ hlt, hstream, hr.bufferFileOffset, Nat.add_assoc]
  have hplace' : roomy.source.type = .file ∨ roomy.limit = 0 ∨ roomy.left = 0 := by
    rw [hr.source, hr.limit, hleft]
    rcases hok.1 with h | h | h
    · exact .inl h
    · exact .inr (.inl (Nat.sub_eq_zero_of_le (Nat.le_of_eq h)))
    · exact .inr (.inr h)
  have hlimit_eq : lexer.bufferFileOffset + lexer.limit = lexer.source.readOffset := by
    simpa [heof] using hw.limit_eq
  obtain ⟨htoken, hcursor, -, hread, -, -, -, -⟩ := hw
  have hsource := hr.source
  have hoffset := hr.bufferFileOffset
  have htoken' := hr.token
  have hcursor' := hr.cursor
  have hmarker' := hr.marker
  have hlimit' := hr.limit
  have hroomLe := hr.room
  have hleftEq : lexer.left = lexer.source.data.length - lexer.source.readOffset := rfl
  have hread' : roomy.source.readOffset ≤ roomy.source.data.length := by
    rw [hsource]
    exact hread
  have hreadOffset : roomy.source.readOffset = lexer.source.readOffset := by rw [hsource]
  have hdata : roomy.source.data = lexer.source.data := by rw [hsource]
  obtain ⟨hlim, hoff, hbytes⟩ := readSource_spec free hplace' hcontent (by omega) hread'
  rw [hleft] at hlim hoff
  have hend : (roomy.readSource free).limit + yyMaxFill < roomy.bufferSize →
      (roomy.readSource free).source.readOffset = roomy.source.data.length := by
    have hfilled := hr.filled
    rw [hdata]
    omega
  have hcount : min free lexer.left ≤ free := Nat.min_le_left ..
  have hcount' : min free lexer.left ≤ lexer.left := Nat.min_le_right ..
  have hcounted : min free lexer.left = free ∨ min free lexer.left = lexer.left := by
    omega
  generalize min free lexer.left = count at hlim hoff hcount hcount' hcounted
  obtain ⟨hw', hrefills, hcur, hle, hpad⟩ := padAtEof_spec (roomy.readSource free)
    (hr.eof.trans heof)
    (show roomy.token ≤ roomy.cursor by omega)
    (show roomy.cursor ≤ (roomy.readSource free).limit by omega)
    (show (roomy.readSource free).limit ≤ roomy.bufferSize by omega)
    (show (roomy.readSource free).source.readOffset ≤ roomy.source.data.length by
      rw [hdata]
      omega)
    hbytes
    (show roomy.bufferFileOffset + (roomy.readSource free).limit = _ by omega)
    hend
  have hfirst : Refills lexer (roomy.readSource free) :=
    { data := hdata
      type := show roomy.source.type = _ by rw [hsource]
      line := hr.line
      lineFileOffset := hr.lineFileOffset
      token := show roomy.bufferFileOffset + roomy.token = _ by omega
      cursor := show roomy.bufferFileOffset + roomy.cursor = _ by omega
      marker := show (roomy.bufferFileOffset : Int) + roomy.marker = _ by omega
      limit := show _ ≤ roomy.bufferFileOffset + (roomy.readSource free).limit by omega }
  have hcur' : (roomy.readSource free).padAtEof.cursor = lexer.cursor - lexer.token :=
    hcur.trans hcursor'
  refine ⟨_, hfill, hw', hfirst.trans hrefills, ?_⟩
  rcases Nat.lt_or_ge ((roomy.readSource free).limit + yyMaxFill) roomy.bufferSize with
    hroomLeft | hfull
  · have hpadded : (roomy.readSource free).padAtEof.limit =
        (roomy.readSource free).limit + yyMaxFill := hpad hroomLeft
    omega
  · clear hpad hend
    rcases Nat.lt_or_ge lexer.token need with hgrow | hstay
    · have hgrown := hr.grown hgrow
      omega
    · obtain ⟨hfree, hsize⟩ := hr.shifted hstay
      have hshift := hok.2.2 hstay
      omega

/-! ## Runs -/

/-- The machine moves its pointers, the token never back, or calls `FILL` where `FillOk` holds. -/
inductive LexerStep (alloc : Allocator) : AstLexer → AstLexer → Prop
  | move (lexer : AstLexer) (token cursor : Nat) (marker : Int) (line lineFileOffset : Nat)
      (htoken : lexer.token ≤ token) (hcursor : token ≤ cursor) (hlimit : cursor ≤ lexer.limit) :
      LexerStep alloc lexer { lexer with token, cursor, marker, line, lineFileOffset }
  | fill (lexer lexer' : AstLexer) (need : Nat) (hneed : need ≤ yyMaxFill)
      (hok : FillOk alloc need lexer) (hfill : Text.fill alloc need lexer = .ok lexer') :
      LexerStep alloc lexer lexer'

theorem window_new (type : AstLexerSourceType) (data : List UInt8) :
    (newAstLexer type data).Window where
  token_le := Nat.le_refl _
  cursor_le := Nat.le_refl _
  limit_le := Nat.le_refl _
  read_le := Nat.zero_le _
  content := fun i hi => absurd hi (Nat.not_lt_zero i)
  limit_eq := rfl
  atEof := fun h => by cases h
  filled := fun _ => Nat.zero_le _

theorem fill_eof (heof : lexer.eof = true) : fill alloc need lexer = .error := by
  rw [fill, if_pos heof]

theorem window_step (hw : lexer.Window) (hstep : LexerStep alloc lexer lexer') :
    lexer'.Window ∧ lexer'.source.data = lexer.source.data := by
  cases hstep with
  | move token cursor marker line lineFileOffset htoken hcursor hlimit =>
    exact ⟨{ hw with token_le := hcursor, cursor_le := hlimit }, rfl⟩
  | fill _ need hneed hok hfill =>
    cases heof : lexer.eof with
    | true =>
      rw [fill_eof heof] at hfill
      cases hfill
    | false =>
      obtain ⟨filled, hrun, hw', hrefills, -⟩ := fill_spec hw heof hneed hok
      rw [hfill] at hrun
      cases hrun
      exact ⟨hw', hrefills.data⟩

theorem window_run {type : AstLexerSourceType} {data : List UInt8}
    (hrun : Relation.ReflTransGen (LexerStep alloc) (newAstLexer type data) lexer) :
    lexer.Window ∧ lexer.source.data = data := by
  induction hrun with
  | refl => exact ⟨window_new type data, rfl⟩
  | tail _ hstep ih =>
    obtain ⟨hw, hdata⟩ := window_step ih.1 hstep
    exact ⟨hw, hdata.trans ih.2⟩

/-! ## Lexemes -/

section machine

variable {σ τ : Type} {code : σ → Scanner.Instr σ τ} {data : List UInt8}

/-- The bytes the machine scans: the source, and zeros that end it. -/
def sourceByte (data : List UInt8) (i : Nat) : UInt8 := data.getD i 0

/-- The machine in the buffer is where the machine on the stream is. -/
structure InStream (data : List UInt8) (h : Head σ) (s : Lexing σ) : Prop where
  state : s.state = h.state
  window : s.lexer.Window
  data : s.lexer.source.data = data
  token : s.lexer.bufferFileOffset + s.lexer.token = h.token
  cursor : s.lexer.bufferFileOffset + s.lexer.cursor = h.cursor
  marker : s.lexer.bufferFileOffset + s.lexer.marker = h.marker
  asked : h.asked ≤ s.lexer.bufferFileOffset + s.lexer.limit
  line : s.lexer.line = h.line
  lineStart : s.lexer.lineFileOffset = h.lineStart

/-- If the machine calls `FILL` now, `FillOk` holds. -/
def FillsOk (code : σ → Scanner.Instr σ τ) (alloc : Allocator) (s : Lexing σ) : Prop :=
  ∀ n next, code s.state = .need n next → (s.lexer.limit : Int) - s.lexer.cursor < n →
    s.lexer.eof = false → FillOk alloc n s.lexer

theorem lexeme_eq {h : Head σ} {s : Lexing σ} (hin : InStream data h s) (kind : Option τ) :
    s.lexer.lexeme kind = h.lexeme (sourceByte data) kind := by
  have hcursor := hin.cursor
  have htoken := hin.token
  have hlimit := hin.window.cursor_le
  have htext : slice s.lexer.buffer s.lexer.token s.lexer.cursor =
      slice (sourceByte data) h.token h.cursor := by
    refine slice_congr (by omega) fun k hk => ?_
    rw [hin.window.content _ (by omega), AstLexer.stream, hin.data, sourceByte]
    congr 1
    omega
  rw [AstLexer.lexeme, Head.lexeme, htext, hin.line, hin.lineStart]
  congr 1 <;> omega

theorem end_le (hw : lexer.Window) (hdata : lexer.source.data = data) :
    lexer.bufferFileOffset + lexer.limit ≤ data.length + yyMaxFill := by
  have hle := hw.read_le
  have heq := hw.limit_eq
  rw [hdata] at hle
  cases heof : lexer.eof
  · simp only [heof, Bool.false_eq_true, if_false] at heq
    omega
  · simp only [heof, if_true] at heq
    omega

/-- A step in the buffer is the step on the stream. -/
theorem lexStep_matches (hmax : ∀ s n next, code s = .need n next → n ≤ yyMaxFill)
    (h : Head σ) (s : Lexing σ) (hin : InStream data h s) (hok : FillsOk code alloc s) :
    Matches (InStream data) (step code (sourceByte data) (data.length + yyMaxFill) h)
      (lexStep code alloc s) := by
  obtain ⟨state, lexer⟩ := s
  have hend := end_le hin.window hin.data
  have heq : ∀ kind : Option τ, lexer.lexeme kind = h.lexeme (sourceByte data) kind :=
    fun kind => lexeme_eq hin kind
  obtain ⟨rfl, -, hdata, htoken, hcursor, hmarker, hasked, hline, hlineStart⟩ := id hin
  dsimp only at hend htoken hcursor hmarker hasked hline hlineStart hdata
  have hw : lexer.Window := hin.window
  have htokenLe := hw.token_le
  have hcursorLe := hw.cursor_le
  rw [step, lexStep]
  cases hcode : code h.state with
  | start next =>
    dsimp only [hcode]
    exact ⟨_, rfl, { hin with
      state := rfl
      window := { hw with token_le := Nat.le_refl _ }
      token := hcursor }⟩
  | peek next =>
    dsimp only [hcode]
    by_cases hlt : h.cursor < h.asked
    · rw [if_pos hlt]
      have hbyte : lexer.buffer lexer.cursor = sourceByte data h.cursor := by
        rw [hw.content _ (by omega), AstLexer.stream, hdata, hcursor, sourceByte]
      exact ⟨_, rfl, { hin with state := by dsimp only; rw [hbyte] }⟩
    · rw [if_neg hlt]
      trivial
  | advance next =>
    dsimp only [hcode]
    by_cases hlt : h.cursor < h.asked
    · rw [if_pos hlt]
      exact ⟨_, rfl, { hin with
        state := rfl
        window := { hw with
          token_le := by dsimp only; omega
          cursor_le := by dsimp only; omega }
        cursor := by dsimp only; omega }⟩
    · rw [if_neg hlt]
      trivial
  | mark next =>
    dsimp only [hcode]
    exact ⟨_, rfl, { hin with
      state := rfl
      window := { hw with }
      marker := by dsimp only; omega }⟩
  | back next =>
    dsimp only [hcode]
    by_cases hback : h.token ≤ h.marker ∧ h.marker ≤ h.asked
    · rw [if_pos hback, if_neg (by omega)]
      exact ⟨_, rfl, { hin with
        state := rfl
        window := { hw with
          token_le := by dsimp only; omega
          cursor_le := by dsimp only; omega }
        cursor := by dsimp only; omega }⟩
    · rw [if_neg hback]
      trivial
  | newline next =>
    dsimp only [hcode]
    exact ⟨_, rfl, { hin with
      state := rfl
      window := { hw with }
      line := by dsimp only; omega
      lineStart := by dsimp only; omega }⟩
  | emit kind next =>
    dsimp only [hcode]
    exact ⟨⟨next, lexer⟩, by rw [heq (some kind)], { hin with state := rfl }⟩
  | need n next =>
    dsimp only [hcode]
    by_cases hshort : (lexer.limit : Int) - lexer.cursor < n
    · rw [if_pos hshort]
      cases heof : lexer.eof with
      | true =>
        -- the zeros after the source are all there is
        have hlast := hw.limit_eq
        have hread := hw.atEof heof
        rw [heof, if_pos rfl, hread, hdata] at hlast
        rw [fill_eof heof, if_neg (by omega), heq none]
        rfl
      | false =>
        obtain ⟨lexer', hfill, hw', hrefills, hroom⟩ :=
          fill_spec hw heof (hmax _ _ _ hcode) (hok n next hcode hshort heof)
        have hend' := end_le hw' (hrefills.data.trans hdata)
        have hcursor' := hrefills.cursor
        have hlimit' := hrefills.limit
        rw [hfill, if_pos (by omega)]
        exact ⟨_, rfl,
          { state := rfl
            window := hw'
            data := hrefills.data.trans hdata
            token := hrefills.token.trans htoken
            cursor := hcursor'.trans hcursor
            marker := hrefills.marker.trans hmarker
            asked := by dsimp only; omega
            line := hrefills.line.trans hline
            lineStart := hrefills.lineFileOffset.trans hlineStart }⟩
    · rw [if_neg hshort, if_pos (by omega)]
      exact ⟨_, rfl, { hin with
        state := rfl
        asked := by dsimp only; omega }⟩

theorem inStream_new {type : AstLexerSourceType} (start : σ) :
    InStream data { state := start } ⟨start, newAstLexer type data⟩ where
  state := rfl
  window := window_new type data
  data := rfl
  token := rfl
  cursor := rfl
  marker := rfl
  asked := Nat.zero_le _
  line := rfl
  lineStart := rfl

end machine

def stackAllocator : Allocator where
  fresh _ := 0
  keepsBlock := true

/-- The first `FILL` takes as much of the source as there is room for. -/
theorem fill_new (alloc : Allocator) (type : AstLexerSourceType)
    (hlong : initialLexerBufferSize ≤ data.length) :
    ∃ buffer, fill alloc yyMaxFill (newAstLexer type data) = .ok
      { source := { type, data, readOffset := initialLexerBufferSize }
        bufferSize := initialLexerBufferSize
        limit := initialLexerBufferSize
        buffer := write buffer 0 (data.take initialLexerBufferSize) } := by
  have hgrow : growBufferSize 0 0 yyMaxFill initialLexerBufferSize = initialLexerBufferSize := by
    rw [growBufferSize, dif_neg (by decide)]
  have hlen : (data.take initialLexerBufferSize).length = initialLexerBufferSize := by
    rw [List.length_take, Nat.min_eq_left hlong]
  have hfull : ¬ initialLexerBufferSize + yyMaxFill < initialLexerBufferSize := by omega
  refine ⟨memmove alloc.fresh (fun _ => 0) 0 0, ?_⟩
  rw [fill, if_neg (show ¬ (newAstLexer type data).eof = true from Bool.false_ne_true),
    if_neg (show ¬ (newAstLexer type data).cursor < (newAstLexer type data).token from
      Nat.lt_irrefl 0)]
  cases type
  all_goals
    simp [AstLexer.makeRoom, newAstLexer, AstLexer.readSource, AstLexer.padAtEof, hgrow, hlen, hfull,
      show 0 < yyMaxFill by decide]

/-- A buffer source that is read into a shifted buffer comes over the token. -/
theorem fill_shift (alloc : Allocator) (need : Nat) (lexer : AstLexer)
    (heof : lexer.eof = false) (hle : lexer.token ≤ lexer.cursor) (hneed : need ≤ lexer.token) (htype : lexer.source.type = .buffer) (byte : UInt8)
    (hbyte : lexer.source.data.drop lexer.source.readOffset = [byte]) (htoken : 0 < lexer.token) :
    ∃ lexer', fill alloc need lexer = .ok lexer' ∧
      lexer'.bufferFileOffset = lexer.bufferFileOffset + lexer.token ∧ lexer'.token = 0 ∧
      (lexer.token < lexer.limit → lexer'.buffer 0 = byte) := by
  have htake : [byte].take lexer.token = [byte] := List.take_of_length_le htoken
  rw [fill, heof, if_neg Bool.false_ne_true, if_neg (by omega), AstLexer.makeRoom,
    if_neg (by omega)]
  refine ⟨_, rfl, ?_⟩
  rw [AstLexer.padAtEof, AstLexer.readSource]
  simp only [htype, hbyte, htake]
  split
  · refine ⟨rfl, Nat.sub_self _, fun hlive => ?_⟩
    dsimp only
    rw [write, if_neg (by rw [List.length_singleton]; omega)]
    rfl
  · exact ⟨rfl, Nat.sub_self _, fun _ => rfl⟩

/-- A text that is a byte longer than the first buffer. -/
def crossing : List UInt8 := List.replicate initialLexerBufferSize 97 ++ [98]

/-- A token that reaches over the end of the first buffer loses its first byte when a buffer source
is refilled. -/
theorem fill_losesToken :
    ∃ lexer lexer', fill stackAllocator yyMaxFill (newAstLexer .buffer crossing) = .ok lexer ∧
      fill stackAllocator 1 { lexer with
        token := initialLexerBufferSize - 1
        cursor := initialLexerBufferSize } = .ok lexer' ∧
      lexer.limit = initialLexerBufferSize ∧
      lexer.buffer (initialLexerBufferSize - 1) = 97 ∧
      lexer'.bufferFileOffset + lexer'.token = initialLexerBufferSize - 1 ∧
      lexer'.buffer lexer'.token = 98 := by
  have hlen : (List.replicate initialLexerBufferSize (97 : UInt8)).length = initialLexerBufferSize :=
    List.length_replicate
  have htake : crossing.take initialLexerBufferSize = List.replicate initialLexerBufferSize 97 :=
    List.take_left' hlen
  have hdrop : crossing.drop initialLexerBufferSize = [98] := List.drop_left' hlen
  have hlong : initialLexerBufferSize ≤ crossing.length := by
    rw [crossing, List.length_append, hlen]
    exact Nat.le_add_right _ _
  obtain ⟨buffer, hfirst⟩ := fill_new stackAllocator .buffer hlong
  have hpos : 1 < initialLexerBufferSize := by decide
  obtain ⟨lexer', hsecond, hoffset, htoken, hbuffer⟩ := fill_shift stackAllocator 1
    {
      source := { type := .buffer, data := crossing, readOffset := initialLexerBufferSize }
      bufferSize := initialLexerBufferSize
      limit := initialLexerBufferSize
      buffer := write buffer 0 (crossing.take initialLexerBufferSize)
      token := initialLexerBufferSize - 1
      cursor := initialLexerBufferSize } rfl (by dsimp only; omega) (by dsimp only; omega) rfl 98 hdrop
    (by dsimp only; omega)
  refine ⟨_, lexer', hfirst, hsecond, rfl, ?_, ?_, ?_⟩
  · dsimp only
    rw [write, if_pos (Nat.zero_le _), htake, Nat.sub_zero, List.getD_eq_getElem?_getD,
      List.getElem?_replicate, if_pos (Nat.sub_lt (by omega) Nat.one_pos), Option.getD_some]
  · rw [hoffset, htoken, Nat.add_zero]
    exact Nat.zero_add _
  · rw [htoken]
    exact hbuffer (Nat.sub_lt (by omega) Nat.one_pos)

/-- In a run whose `FILL`s are all `FillOk` the buffer is a window on the source; a `FILL` that
succeeds loses no byte from the token on and leaves the bytes asked for; and the machine comes to
the lexemes of the source, whether that is a file or a buffer, if it asks for the bytes it looks
at. -/
theorem lexer_refines (alloc : Allocator) (type : AstLexerSourceType) (data : List UInt8) :
    (∀ lexer, Relation.ReflTransGen (LexerStep alloc) (newAstLexer type data) lexer →
      lexer.Window ∧ lexer.source.data = data ∧
      ∀ need ≤ yyMaxFill, lexer.eof = false → FillOk alloc need lexer →
        ∃ lexer', fill alloc need lexer = .ok lexer' ∧ Refills lexer lexer' ∧
          (∀ i < lexer.limit - lexer.token,
            lexer'.buffer (lexer'.token + i) = lexer.buffer (lexer.token + i)) ∧
          lexer'.cursor + need ≤ lexer'.limit) ∧
    ∀ (σ τ : Type) (code : σ → Scanner.Instr σ τ) (start : σ) (k : Nat) (out : List (Lexeme τ)),
      (∀ s n next, code s = .need n next → n ≤ yyMaxFill) →
      run (step code (sourceByte data) (data.length + yyMaxFill)) k { state := start } = some out →
      Always (lexStep code alloc) (FillsOk code alloc) k ⟨start, newAstLexer type data⟩ →
      run (lexStep code alloc) k ⟨start, newAstLexer type data⟩ = some out := by
  constructor
  · intro lexer hrun
    obtain ⟨hw, hdata⟩ := window_run hrun
    refine ⟨hw, hdata, fun need hneed heof hok => ?_⟩
    obtain ⟨lexer', hfill, hw', hrefills, hroom⟩ := fill_spec hw heof hneed hok
    refine ⟨lexer', hfill, hrefills, fun i hi => ?_, hroom⟩
    have htoken := hrefills.token
    have hlimit := hrefills.limit
    rw [hw.content _ (by omega), hw'.content _ (by omega), AstLexer.stream, AstLexer.stream,
      hrefills.data, ← Nat.add_assoc, ← Nat.add_assoc, htoken]
  · intro σ τ code start k out hmax hstream hok
    exact run_eq (lexStep_matches hmax) (inStream_new start) hok hstream

/-- Every byte is a lexeme. -/
def everyByte : Fin 4 → Scanner.Instr (Fin 4) Unit
  | 0 => .start 1
  | 1 => .need 1 2
  | 2 => .advance 3
  | 3 => .emit () 0

theorem lexer_refines_everyByte :
    (newAstLexer .file [40]).Window ∧
      run (lexStep everyByte stackAllocator) 4 ⟨0, newAstLexer .file [40]⟩ =
        some [⟨some (), 1, 1, 2, [40]⟩] := by
  have hneed : ∀ s n next, everyByte s = .need n next → n ≤ yyMaxFill := by
    intro s n next h
    rcases s with ⟨_ | _ | _ | _ | s, hs⟩
    all_goals first | omega | cases h
    decide
  -- the one `FILL` is the first, into a buffer without live bytes
  have hfills : Always (lexStep everyByte stackAllocator) (FillsOk everyByte stackAllocator) 4
      ⟨0, newAstLexer .file [40]⟩ := by
    refine ⟨fun n next h => (by cases h), fun s₁ out₁ h₁ => ?_⟩
    cases h₁
    refine ⟨?_, fun s₂ out₂ h₂ => ?_⟩
    · intro n next h _ _
      cases h
      exact ⟨.inl rfl, fun _ => .inl rfl, fun h => by cases h⟩
    have hs₂ : s₂.state = 2 := by
      simp only [lexStep, everyByte] at h₂
      split at h₂
      · split at h₂ <;> cases h₂
        rfl
      · cases h₂
        rfl
    obtain ⟨_, lexer₂⟩ := s₂
    cases hs₂
    refine ⟨fun n next h => (by cases h), fun s₃ out₃ h₃ => ?_⟩
    cases h₃
    exact ⟨fun n next h => (by cases h), fun _ _ _ => trivial⟩
  exact ⟨((lexer_refines stackAllocator .file [40]).1 _ .refl).1,
    (lexer_refines stackAllocator .file [40]).2 _ _ everyByte 0 4 _ hneed (by decide) hfills⟩

end Text

end SexprWasm
