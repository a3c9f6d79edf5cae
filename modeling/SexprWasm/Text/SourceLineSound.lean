import Mathlib.Logic.Relation
import SexprWasm.Lib.Lines
import SexprWasm.Text.SourceLine

/-!
# What the source line shows

The lexer is at a `Position`: it passes bytes that are no newline, and
counts a line where it passes one. The line of a location is found in a
buffer and in a file, but in a file its end is sought in the first
chunk only. `view` is what comes of a line and its columns, so the
two sources agree where the window ends before the end that either finds.
-/

namespace SexprWasm

namespace Text

open Lines

/-! ## Lines of the source -/

/-- Where the lexer is. -/
structure Position where
  offset : Nat := 0
  line : Nat := 1
  lineStart : Nat := 0

/-- What a rule of the lexer passes: bytes that are no newline, or one that is. -/
inductive Passes (source : List UInt8) : Position → Position → Prop
  | bytes (p : Position) (n : Nat) (h : ∀ i < n, source[p.offset + i]? ≠ some newline) :
      Passes source p { p with offset := p.offset + n }
  | newline (p : Position) (h : source[p.offset]? = some newline) :
      Passes source p ⟨p.offset + 1, p.line + 1, p.offset + 1⟩

namespace Position

/-- `COLUMN(lexer->token)`. -/
def firstColumn (p : Position) : Nat := p.offset - p.lineStart + 1

/-- `COLUMN(lexer->cursor)`, behind the next `n` bytes. -/
def lastColumn (p : Position) (n : Nat) : Nat := p.offset + n - p.lineStart + 1

/-- `YY_USER_ACTION` for the next `n` bytes. -/
def location (p : Position) (n : Nat) : Location where
  line := p.line
  firstColumn := p.firstColumn
  lastColumn := p.lastColumn n

theorem firstColumn_pos (p : Position) : 1 ≤ p.firstColumn := Nat.le_add_left ..

theorem firstColumn_le (p : Position) (n : Nat) : p.firstColumn ≤ p.lastColumn n := by
  rw [firstColumn, lastColumn]
  omega

end Position

/-- The lexer keeps line and line start of the place it has come to in the source. -/
structure AstLexer.Reads (lexer : AstLexer) (source : List UInt8) : Prop where
  data : lexer.source.data = source
  position : ∃ p, Relation.ReflTransGen (Passes source) {} p ∧ lexer.line = p.line ∧
    lexer.lineFileOffset = p.lineStart

/-- The position is in its line. -/
structure Position.InLine (source : List UInt8) (p : Position) : Prop where
  start : LineStart newline source p.line p.lineStart
  le : p.lineStart ≤ p.offset
  none : ∀ i, p.lineStart ≤ i → i < p.offset → source[i]? ≠ some Text.newline

theorem Position.InLine.passes {source : List UInt8} {p p' : Position} (h : p.InLine source)
    (hp : Passes source p p') : p'.InLine source := by
  obtain ⟨hstart, hle, hnone⟩ := h
  cases hp with
  | bytes n hbytes =>
    refine ⟨hstart, Nat.le_add_right_of_le hle, fun i hi hlt => ?_⟩
    dsimp only at hi hlt
    by_cases hbefore : i < p.offset
    · exact hnone i hi hbefore
    · have hpassed := hbytes (i - p.offset) (by omega)
      rwa [Nat.add_sub_cancel' (Nat.le_of_not_lt hbefore)] at hpassed
  | newline hbyte =>
    refine ⟨hstart.next hle hnone hbyte, Nat.le_refl _, fun i hi hlt => ?_⟩
    exact absurd hlt (Nat.not_lt.mpr hi)

theorem inLine_of_run {source : List UInt8} {p : Position}
    (hrun : Relation.ReflTransGen (Passes source) {} p) : p.InLine source := by
  induction hrun with
  | refl =>
    refine ⟨.first source, Nat.le_refl 0, fun i _ hlt => ?_⟩
    exact absurd hlt (Nat.not_lt_zero i)
  | tail _ hstep ih => exact ih.passes hstep

/-- The line that begins with these bytes, without the end of the line. -/
def lineBytes (bytes : List UInt8) : List UInt8 :=
  let line := bytes.takeWhile (· ≠ newline)
  if line.length < bytes.length ∧ line.getLast? = some carriageReturn then line.dropLast else line

theorem lineBytes_eq_take (bytes : List UInt8) :
    lineBytes bytes = bytes.take (lineBytes bytes).length := by
  have hprefix : lineBytes bytes <+: bytes := by
    rw [lineBytes]
    split
    · exact (List.dropLast_prefix _).trans (List.takeWhile_prefix _)
    · exact List.takeWhile_prefix _
  exact List.prefix_iff_eq_take.mp hprefix

theorem length_lineBytes_le (bytes : List UInt8) : (lineBytes bytes).length ≤ bytes.length := by
  rw [lineBytes_eq_take, List.length_take]
  exact Nat.min_le_right ..

/-- A beginning of the text does not make a line longer, but for the carriage return at its end. -/
theorem length_lineBytes_take_le (bytes : List UInt8) (n : Nat) :
    (lineBytes (bytes.take n)).length ≤ (lineBytes bytes).length + 1 := by
  have hle : ((bytes.take n).takeWhile (· ≠ newline)).length ≤
      (bytes.takeWhile (· ≠ newline)).length := by
    rw [← List.take_takeWhile]
    exact (List.take_prefix ..).length_le
  have htake : (lineBytes (bytes.take n)).length ≤
      ((bytes.take n).takeWhile (· ≠ newline)).length := by
    rw [lineBytes]
    split
    · exact (List.dropLast_prefix _).length_le
    · exact Nat.le_refl _
  have hwhole : (bytes.takeWhile (· ≠ newline)).length ≤ (lineBytes bytes).length + 1 := by
    rw [lineBytes]
    split
    · rw [List.length_dropLast]
      omega
    · exact Nat.le_succ _
  omega

/-! ## The scan -/

/-- The scan for a line start finds the one that is there. -/
theorem scanLoop_start {bytes : List UInt8} {line k : Nat} (hstart : LineStart newline bytes line k)
    (hline : 2 ≤ line) (before offset : Nat) (isPreviousCarriage : Bool) :
    scanLoop .start (before + line) bytes (before + 1) offset isPreviousCarriage =
      (before + line, some (offset + k)) := by
  induction hstart generalizing before offset isPreviousCarriage with
  | first bytes => omega
  | @sep bytes line k rest ih =>
    rw [scanLoop, if_pos rfl]
    split
    case isTrue heq =>
      obtain rfl : line = 1 := by omega
      rw [rest.offset_of_one]
    case isFalse hne =>
      have hfound := ih (by have := rest.one_le; omega) (before + 1) (offset + 1)
        (newline = carriageReturn)
      rw [Nat.add_right_comm before 1] at hfound
      rw [← Nat.add_assoc, hfound, Nat.add_right_comm offset 1, Nat.add_assoc offset]
  | skip hc hline rest ih =>
    rw [scanLoop, if_neg hc, ih hline, Nat.add_right_comm offset 1, Nat.add_assoc offset]

/-- The scan for a line start may go on in the next chunk. -/
theorem scanLoop_start_append (findLine : Nat) (chunk rest : List UInt8) (line offset : Nat)
    (isPreviousCarriage : Bool) :
    scanLoop .start findLine (chunk ++ rest) line offset isPreviousCarriage =
      match scanLoop .start findLine chunk line offset isPreviousCarriage with
      | (line', some found) => (line', some found)
      | (line', none) => scanLoop .start findLine rest line' (offset + chunk.length) false := by
  induction chunk generalizing line offset isPreviousCarriage with
  | nil => cases rest <;> rfl
  | cons c chunk ih =>
    rw [List.cons_append, scanLoop, scanLoop, List.length_cons, Nat.add_comm chunk.length,
      ← Nat.add_assoc]
    by_cases hc : c = newline
    · by_cases hfound : line + 1 = findLine
      · simp [hc, hfound]
      · simpa [hc, hfound] using ih (line + 1) (offset + 1) (newline = carriageReturn)
    · simpa [hc] using ih line (offset + 1) (c = carriageReturn)

/-- A file is scanned for a line start as if it were in one buffer. -/
theorem scanFile_start (file : List UInt8) (line offset findLine : Nat) :
    scanFile file line offset .start findLine =
      match scanLoop .start findLine file line offset false with
      | (_, some found) => .ok (sizeT (cInt found))
      | (_, none) => .error .error := by
  induction hlength : file.length using Nat.strong_induction_on generalizing file line offset with
  | h length ih =>
    rw [scanFile]
    split
    case isTrue hnil =>
      subst hnil
      rfl
    case isFalse hne =>
      have hpos := List.length_pos_iff.mpr hne
      have happend := scanLoop_start_append findLine (file.take scanBufferSize)
        (file.drop scanBufferSize) line offset false
      rw [List.take_append_drop] at happend
      rw [happend]
      rcases hscan : scanLoop .start findLine (file.take scanBufferSize) line offset false with
        ⟨line', found | found⟩ <;> simp only [scanForwardForLineOffsetInBuffer, hscan]
      · refine ih _ ?_ _ _ _ rfl
        rw [List.length_drop, scanBufferSize]
        omega

/-- The scan for the end of a line stops before the newline, and before a carriage return that
stands there. -/
theorem scanLoop_end (bytes : List UInt8) (line offset : Nat) (isPreviousCarriage : Bool) :
    scanLoop .end_ line bytes line offset isPreviousCarriage =
      if (bytes.takeWhile (· ≠ newline)).length < bytes.length then
        (line + 1, some (offset + (bytes.takeWhile (· ≠ newline)).length -
          ((bytes.takeWhile (· ≠ newline)).getLast?.elim isPreviousCarriage
            (· = carriageReturn)).toNat))
      else (line, none) := by
  induction bytes generalizing offset isPreviousCarriage with
  | nil => rfl
  | cons c bytes ih =>
    rw [scanLoop]
    by_cases hc : c = newline
    · simp [hc]
    · rw [if_neg hc, ih]
      have hlast : (c :: bytes.takeWhile (· ≠ newline)).getLast?.elim isPreviousCarriage
            (fun c => decide (c = carriageReturn)) =
          (bytes.takeWhile (· ≠ newline)).getLast?.elim (decide (c = carriageReturn))
            (fun c => decide (c = carriageReturn)) := by
        rw [List.getLast?_cons]
        cases (bytes.takeWhile (· ≠ newline)).getLast? <;> rfl
      rw [List.takeWhile_cons_of_pos (by simpa using hc), hlast]
      simp only [List.length_cons, Nat.add_lt_add_iff_right]
      congr 4
      omega

theorem scan_end (bytes : List UInt8) (line offset : Nat) :
    ∃ out, scanForwardForLineOffsetInBuffer bytes line offset .end_ line =
      (true, out, sizeT (cInt ((offset + (lineBytes bytes).length : Nat) : Int))) := by
  rw [scanForwardForLineOffsetInBuffer, scanLoop_end, lineBytes]
  have hle := (List.takeWhile_prefix (l := bytes) (· ≠ newline)).length_le
  generalize bytes.takeWhile (· ≠ newline) = before at hle
  dsimp only
  by_cases hlt : before.length < bytes.length
  · rw [if_pos hlt]
    refine ⟨line + 1, ?_⟩
    rcases hlast : before.getLast? with _ | c
    · simp
    · by_cases hc : c = carriageReturn
      · have hpos : 0 < before.length := by
          refine List.length_pos_iff.mpr fun hnil => ?_
          simp [hnil] at hlast
        simp [hc, hlt, Nat.add_sub_assoc hpos]
      · simp [hc]
  · rw [if_neg hlt, if_neg fun h => hlt h.1]
    exact ⟨line, by rw [Nat.le_antisymm hle (Nat.le_of_not_lt hlt)]; rfl⟩

theorem sizeT_natCast {n : Nat} (h : n < maxU64) : sizeT n = n := by
  rw [sizeT, ← Int.natCast_mod, Int.toNat_natCast, Nat.mod_eq_of_lt h]

theorem sizeT_cInt {n : Nat} (h : n < 2 ^ 31) : sizeT (cInt n) = n := by
  rw [cInt_of_lt (by omega) (by omega), sizeT_natCast (by simp only [maxU64]; omega)]

/-! ## The offsets of a line -/

/-- The line that a scan for its end makes of the bytes from its start on. -/
def foundLine (type : AstLexerSourceType) (bytes : List UInt8) : List UInt8 :=
  match type with
  | .buffer => lineBytes bytes
  | .file => lineBytes (bytes.take scanBufferSize)

theorem foundLine_eq_take (type : AstLexerSourceType) (bytes : List UInt8) :
    foundLine type bytes = bytes.take (foundLine type bytes).length := by
  cases type with
  | buffer => exact lineBytes_eq_take bytes
  | file =>
    have hseen : lineBytes (bytes.take scanBufferSize) <+: bytes.take scanBufferSize :=
      List.prefix_iff_eq_take.mpr (lineBytes_eq_take _)
    exact List.prefix_iff_eq_take.mp (hseen.trans (List.take_prefix ..))

theorem length_foundLine_le (type : AstLexerSourceType) (bytes : List UInt8) :
    (foundLine type bytes).length ≤ bytes.length := by
  rw [foundLine_eq_take, List.length_take]
  exact Nat.min_le_right ..

section offsets

variable {lexer : AstLexer} {source : List UInt8} {line k : Nat}

theorem scanForwardForLineOffset_end (hdata : lexer.source.data = source)
    (hk : k ≤ source.length)
    (hend : k + (foundLine lexer.source.type (source.drop k)).length < 2 ^ 31) :
    scanForwardForLineOffset lexer line k .end_ line =
      .ok (k + (foundLine lexer.source.type (source.drop k)).length) := by
  rw [scanForwardForLineOffset, if_neg (Nat.lt_irrefl line)]
  cases htype : lexer.source.type with
  | buffer =>
    rw [htype] at hend
    obtain ⟨out, hscan⟩ := scan_end (source.drop k) line k
    dsimp only
    rw [hdata, if_neg (Nat.not_lt.mpr hk), hscan]
    exact congrArg Except.ok (sizeT_cInt hend)
  | file =>
    rw [htype] at hend
    have hseek : fseek k = .ok () := if_pos (by omega)
    show scanForwardForLineOffsetInFile lexer line k .end_ line = _
    rw [scanForwardForLineOffsetInFile, hseek, hdata]
    show scanFile (source.drop k) line k .end_ line = _
    rw [scanFile]
    split
    case isTrue hnil => rw [foundLine, hnil]; rfl
    case isFalse hne =>
      obtain ⟨out, hscan⟩ := scan_end ((source.drop k).take scanBufferSize) line k
      dsimp only
      rw [hscan]
      exact congrArg Except.ok (sizeT_cInt hend)

theorem scanForwardForLineOffset_start {line' k' : Nat} (hdata : lexer.source.data = source)
    (hstart : LineStart newline source line k) (hstart' : LineStart newline source line' k')
    (hlt : line < line') (hend : k' < 2 ^ 31) :
    scanForwardForLineOffset lexer line k .start line' = .ok k' := by
  obtain ⟨hle, hrest⟩ := hstart.drop hstart' hlt.le
  have hone := hstart.one_le
  have hfound := scanLoop_start hrest (by omega) (line - 1) k false
  rw [show line - 1 + (line' - line + 1) = line' by omega, Nat.sub_add_cancel hone,
    Nat.add_sub_cancel' hle] at hfound
  rw [scanForwardForLineOffset, if_neg (by omega)]
  cases htype : lexer.source.type with
  | buffer =>
    dsimp only
    rw [hdata, if_neg (Nat.not_lt.mpr hstart.le_length), scanForwardForLineOffsetInBuffer, hfound]
    exact congrArg Except.ok (sizeT_cInt hend)
  | file =>
    have hseek : fseek k = .ok () := if_pos (by omega)
    show scanForwardForLineOffsetInFile lexer line k .start line' = _
    rw [scanForwardForLineOffsetInFile, hseek, hdata]
    show scanFile (source.drop k) line k .start line' = _
    rw [scanFile_start, hfound]
    exact congrArg Except.ok (sizeT_cInt hend)

theorem getLineStartOffset_eq (hreads : lexer.Reads source)
    (hstart : LineStart newline source line k) (hend : k < 2 ^ 31) :
    getLineStartOffset lexer line = .ok k := by
  obtain ⟨hdata, current, hrun, hline, hoffset⟩ := hreads
  have hcurrent := (inLine_of_run hrun).start
  rw [getLineStartOffset, hline, hoffset]
  split
  case isTrue heq =>
    subst heq
    rw [hcurrent.offset_eq hstart]
  case isFalse hne =>
    split
    case isTrue hone =>
      subst hone
      rw [hstart.offset_of_one]
    case isFalse hnotOne =>
      split
      case isTrue hlt => exact scanForwardForLineOffset_start hdata hcurrent hstart hlt hend
      case isFalse hge =>
        have hone := hstart.one_le
        exact scanForwardForLineOffset_start hdata (.first source) hstart (by omega) hend

theorem getOffsetsFromLine_eq (hreads : lexer.Reads source)
    (hstart : LineStart newline source line k)
    (hend : k + (foundLine lexer.source.type (source.drop k)).length < 2 ^ 31) :
    getOffsetsFromLine lexer line =
      .ok (k, k + (foundLine lexer.source.type (source.drop k)).length) := by
  rw [getOffsetsFromLine, getLineStartOffset_eq hreads hstart (by omega)]
  show (do
    let lineEnd ← scanForwardForLineOffset lexer line k .end_ line
    return (k, lineEnd)) = _
  rw [scanForwardForLineOffset_end hreads.data hstart.le_length hend]
  rfl

end offsets

/-! ## The window -/

/-- The column to center on. -/
def center (firstColumn lastColumn max : Nat) : Nat :=
  if max < lastColumn - firstColumn then firstColumn - 1 else (firstColumn + lastColumn) / 2 - 1

/-- Where the window starts, if the line is long enough. -/
def windowStart (firstColumn lastColumn max : Nat) : Nat :=
  center firstColumn lastColumn max - max / 2

section clamp

variable {k length firstColumn lastColumn max : Nat}

theorem intResult_natCast {n : Int} (hle : 0 ≤ n) (hlt : n < 2 ^ 31) : intResult n = .ok n :=
  if_pos ⟨by omega, hlt⟩

theorem centerOn_eq (hfirst : 1 ≤ firstColumn) (hle : firstColumn ≤ lastColumn)
    (hlast : lastColumn < 2 ^ 31)
    (hsum : max < lastColumn - firstColumn ∨ firstColumn + lastColumn < 2 ^ 31) :
    centerOn firstColumn lastColumn max = .ok (center firstColumn lastColumn max) := by
  have hrange : sizeT ((lastColumn : Int) - firstColumn) = lastColumn - firstColumn := by
    rw [← Int.natCast_sub hle, sizeT_natCast (by simp only [maxU64]; omega)]
  rw [centerOn, intResult_natCast (by omega) (by omega)]
  show (if max < sizeT ((lastColumn : Int) - firstColumn) then _ else _) = _
  rw [hrange, center]
  split
  case isTrue hwide =>
    rw [intResult_natCast (by omega) (by omega), ← Int.natCast_one, ← Int.natCast_sub hfirst]
    exact congrArg Except.ok (sizeT_natCast (by simp only [maxU64]; omega))
  case isFalse hfits =>
    have hhalf : ((firstColumn : Int) + lastColumn).tdiv 2 - 1 =
        ((firstColumn + lastColumn) / 2 - 1 : Nat) := by
      rw [Int.tdiv_eq_ediv_of_nonneg (by omega)]
      omega
    rw [intResult_natCast (by omega) (by omega)]
    show (do
      let half ← intResult (((firstColumn : Int) + lastColumn).tdiv 2 - 1)
      return sizeT half) = _
    rw [hhalf, intResult_natCast (by omega) (by omega)]
    exact congrArg Except.ok (sizeT_natCast (by simp only [maxU64]; omega))

/-- Where the columns are added up, the sum is an `int`. -/
theorem centerOn_overflow (hle : firstColumn ≤ lastColumn) (hlast : lastColumn < 2 ^ 31)
    (hfits : lastColumn - firstColumn ≤ max) (hsum : 2 ^ 31 ≤ firstColumn + lastColumn) :
    centerOn firstColumn lastColumn max = .error .crash := by
  have hrange : sizeT ((lastColumn : Int) - firstColumn) = lastColumn - firstColumn := by
    rw [← Int.natCast_sub hle, sizeT_natCast (by simp only [maxU64]; omega)]
  rw [centerOn, intResult_natCast (by omega) (by omega)]
  show (if max < sizeT ((lastColumn : Int) - firstColumn) then _ else _) = _
  rw [hrange, if_neg (by omega), intResult, if_neg (by omega)]
  rfl

/-- The window is clamped to the line. -/
theorem clamp_eq (hend : k + length < 2 ^ 31) (hfirst : 1 ≤ firstColumn)
    (hle : firstColumn ≤ lastColumn) (hlast : lastColumn < 2 ^ 31)
    (hsum : length ≤ max ∨ max < lastColumn - firstColumn ∨ firstColumn + lastColumn < 2 ^ 31) :
    clampSourceLineOffsetsToLocation k (k + length : Nat) firstColumn lastColumn max =
      if length ≤ max then .ok (k, k + length)
      else
        .ok (k + min (windowStart firstColumn lastColumn max) (length - max),
          k + min (windowStart firstColumn lastColumn max) (length - max) + max) := by
  have hlength : sizeT (((k + length : Nat) : Int) - k) = length := by
    rw [← Int.natCast_sub (Nat.le_add_right ..), Nat.add_sub_cancel_left,
      sizeT_natCast (by simp only [maxU64]; omega)]
  rw [clampSourceLineOffsetsToLocation, hlength]
  by_cases hfits : length ≤ max
  · rw [if_neg (by omega), if_pos hfits]
  · have hlastStart : sizeT (((k + length : Nat) : Int) - max) = k + length - max := by
      rw [← Int.natCast_sub (by omega), sizeT_natCast (by simp only [maxU64]; omega)]
    have hcenter : center firstColumn lastColumn max < 2 ^ 31 := by
      rw [center]
      split <;> omega
    rw [if_pos (by omega), if_neg hfits, centerOn_eq hfirst hle hlast (by omega)]
    show Except.ok _ = _
    rw [hlastStart, windowStart]
    generalize center firstColumn lastColumn max = middle at hcenter
    have hmiddle : (if max / 2 < middle then sizeT ((k : Int) + (middle - max / 2 : Int)) else k) =
        k + (middle - max / 2) := by
      split
      case isTrue hgt =>
        rw [show (k : Int) + (middle - max / 2 : Int) = (k + (middle - max / 2) : Nat) by omega,
          sizeT_natCast (by simp only [maxU64]; omega)]
      case isFalse hle => omega
    rw [hmiddle]
    have hstart : (if k + length - max < k + (middle - max / 2) then k + length - max
        else k + (middle - max / 2)) = k + min (middle - max / 2) (length - max) := by
      split <;> omega
    have hstop : sizeT (((k + min (middle - max / 2) (length - max) : Nat) : Int) + max) =
        k + min (middle - max / 2) (length - max) + max := by
      rw [← Int.natCast_add, sizeT_natCast (by simp only [maxU64]; omega)]
    rw [hstart, hstop]

theorem clamp_overflow (hend : k + length < 2 ^ 31) (hle : firstColumn ≤ lastColumn)
    (hlast : lastColumn < 2 ^ 31) (hlong : max < length)
    (hfits : lastColumn - firstColumn ≤ max) (hsum : 2 ^ 31 ≤ firstColumn + lastColumn) :
    clampSourceLineOffsetsToLocation k (k + length : Nat) firstColumn lastColumn max =
      .error .crash := by
  have hlength : sizeT (((k + length : Nat) : Int) - k) = length := by
    rw [← Int.natCast_sub (Nat.le_add_right ..), Nat.add_sub_cancel_left,
      sizeT_natCast (by simp only [maxU64]; omega)]
  rw [clampSourceLineOffsetsToLocation, hlength, if_pos hlong,
    centerOn_overflow hle hlast hfits hsum]
  rfl

end clamp

/-! ## The text -/

/-- The buffer of the caller with `text` in it. -/
def SourceLine.holding (text : List UInt8) (columnOffset : Nat) (line : List UInt8) :
    SourceLine where
  line := text ++ 0 :: line.drop (text.length + 1)
  lineLength := text.length
  columnOffset := columnOffset

section text

variable {lexer : AstLexer} {source line : List UInt8} {readStart readLength : Nat}

theorem readLine_eq (hdata : lexer.source.data = source) (hstart : readStart < 2 ^ 63)
    (hfits : readStart + readLength ≤ source.length) :
    readLine lexer readStart readLength = .ok ((source.drop readStart).take readLength) := by
  rw [readLine, hdata]
  cases lexer.source.type with
  | buffer => exact if_pos hfits
  | file =>
    have hlength : ((source.drop readStart).take readLength).length = readLength := by
      rw [List.length_take, List.length_drop]
      omega
    dsimp only
    rw [fseek, if_pos hstart, hlength]
    exact if_neg (Nat.lt_irrefl readLength)

theorem memcpy_append (offset : Nat) (front part back bytes : List UInt8)
    (hoffset : offset = front.length) (hlength : bytes.length = part.length) :
    memcpy (front ++ (part ++ back)) offset bytes = .ok (front ++ (bytes ++ back)) := by
  rw [memcpy, if_pos (by simp only [List.length_append]; omega),
    Buffer.writeAt_append hoffset hlength]

/-- A line that is not cut off. -/
theorem copySourceLine_whole {k length max : Nat} (hdata : lexer.source.data = source)
    (hfits : k + length ≤ source.length) (hend : k + length < 2 ^ 31) (hle : length ≤ max)
    (hline : line.length = max + 1) :
    copySourceLine lexer k (k + length) k (k + length) line =
      .ok (.holding ((source.drop k).take length) 0 line) := by
  have hlength : ((source.drop k).take length).length = length := by
    rw [List.length_take, List.length_drop]
    omega
  have hsize : sizeT (((k + length : Nat) : Int) - k) = length := by
    rw [← Int.natCast_sub (Nat.le_add_right ..), Nat.add_sub_cancel_left,
      sizeT_natCast (by simp only [maxU64]; omega)]
  obtain ⟨part, z, back, rfl, hpart⟩ : ∃ part z back, line = part ++ z :: back ∧
      part.length = length := by
    refine ⟨line.take length, line.get ⟨length, by omega⟩, line.drop (length + 1), ?_, ?_⟩
    · rw [List.get_eq_getElem, List.getElem_cons_drop, List.take_append_drop]
    · rw [List.length_take]
      omega
  have hbytes := readLine_eq hdata (by omega) hfits
  have hcopy : memcpy (part ++ z :: back) 0 ((source.drop k).take length) =
      .ok ((source.drop k).take length ++ z :: back) :=
    memcpy_append 0 [] part (z :: back) _ rfl (hlength.trans hpart.symm)
  have hnul : memcpy ((source.drop k).take length ++ z :: back) length [0] =
      .ok ((source.drop k).take length ++ 0 :: back) :=
    memcpy_append length _ [z] back [0] hlength.symm rfl
  have hback : (part ++ z :: back).drop (length + 1) = back := by
    rw [← hpart, ← List.drop_drop, List.drop_left, List.drop_one, List.tail_cons]
  simp only [copySourceLine, bne_self_eq_false, writeEllipsis, Bool.false_eq_true, if_false, hsize,
    bind, Except.bind, hbytes,
    hcopy, hnul, SourceLine.holding, hlength, hback, Int.sub_self, pure, Except.pure]
  rfl

/-- The writes into a buffer of three bytes, what is between, three bytes and the last one, where
the source has `head`, `mid` and `tail`. -/
theorem memcpy_window (cutStart cutEnd : Bool) {a b c head mid tail : List UInt8} (z : UInt8)
    (ha : a.length = 3) (hc : c.length = 3) (hhead : head.length = 3)
    (hmid : mid.length = b.length) (htail : tail.length = 3) :
    ∃ line₁ line₂ line₃, writeEllipsis cutStart (a ++ (b ++ (c ++ [z]))) 0 = .ok line₁ ∧
      writeEllipsis cutEnd line₁ (b.length + 3) = .ok line₂ ∧
      memcpy line₂ (if cutStart then 3 else 0)
        ((if cutStart then [] else head) ++ (mid ++ if cutEnd then [] else tail)) = .ok line₃ ∧
      memcpy line₃ (b.length + 6) [0] = .ok ((if cutStart then ellipsis else head) ++
        (mid ++ ((if cutEnd then ellipsis else tail) ++ [0]))) := by
  have hstart : writeEllipsis cutStart (a ++ (b ++ (c ++ [z]))) 0 =
      .ok ((if cutStart then ellipsis else a) ++ (b ++ (c ++ [z]))) := by
    rw [writeEllipsis]
    split
    · exact memcpy_append 0 [] a _ ellipsis rfl ha.symm
    · rfl
  have hend : ∀ front : List UInt8, front.length = 3 →
      writeEllipsis cutEnd (front ++ (b ++ (c ++ [z]))) (b.length + 3) =
        .ok (front ++ (b ++ ((if cutEnd then ellipsis else c) ++ [z]))) := by
    intro front hfront
    rw [writeEllipsis]
    split
    · have hoffset : b.length + 3 = (front ++ b).length := by
        rw [List.length_append, hfront, Nat.add_comm]
      have hcopy := memcpy_append (b.length + 3) (front ++ b) c [z] ellipsis hoffset hc.symm
      simpa only [List.append_assoc] using hcopy
    · rfl
  have hcopy : memcpy ((if cutStart then ellipsis else a) ++
        (b ++ ((if cutEnd then ellipsis else c) ++ [z]))) (if cutStart then 3 else 0)
        ((if cutStart then [] else head) ++ (mid ++ if cutEnd then [] else tail)) =
      .ok ((if cutStart then ellipsis else head) ++
        (mid ++ ((if cutEnd then ellipsis else tail) ++ [z]))) := by
    cases cutStart <;> cases cutEnd <;>
      simp only [Bool.false_eq_true, if_true, if_false, List.nil_append, List.append_nil]
    · have h := memcpy_append 0 [] (a ++ (b ++ c)) [z] (head ++ (mid ++ tail)) rfl
        (by simp [hmid, ha, hc, hhead, htail])
      simpa only [List.append_assoc, List.nil_append] using h
    · have h := memcpy_append 0 [] (a ++ b) (ellipsis ++ [z]) (head ++ mid) rfl
        (by simp [hmid, ha, hhead])
      simpa only [List.append_assoc, List.nil_append] using h
    · have h := memcpy_append 3 ellipsis (b ++ c) [z] (mid ++ tail) rfl
        (by simp [hmid, hc, htail])
      simpa only [List.append_assoc] using h
    · exact memcpy_append 3 ellipsis b _ mid rfl hmid
  have hnul : ∀ front back : List UInt8, front.length = 3 → back.length = 3 →
      memcpy (front ++ (mid ++ (back ++ [z]))) (b.length + 6) [0] =
        .ok (front ++ (mid ++ (back ++ [0]))) := by
    intro front back hfront hback
    have hoffset : b.length + 6 = (front ++ (mid ++ back)).length := by
      simp only [List.length_append]
      omega
    have h := memcpy_append (b.length + 6) (front ++ (mid ++ back)) [z] [] [0] hoffset rfl
    simpa only [List.append_assoc, List.append_nil] using h
  exact ⟨_, _, _, hstart, hend _ (by split <;> simp [ha]), hcopy,
    hnul _ _ (by split <;> simp [hhead]) (by split <;> simp [htail])⟩

/-- The bytes of the source that the ellipses leave. -/
theorem readLine_window (readStart m : Nat) (cutStart cutEnd : Bool)
    (hdata : lexer.source.data = source) (hstart : readStart + (m + 6) < 2 ^ 31)
    (hfits : readStart + (m + 6) ≤ source.length) :
    readLine lexer (if cutStart then readStart + 3 else readStart)
        (m + 6 - (if cutStart then 3 else 0) - (if cutEnd then 3 else 0)) =
      .ok ((if cutStart then [] else (source.drop readStart).take 3) ++
        (((source.drop (readStart + 3)).take m) ++
          if cutEnd then [] else (source.drop (readStart + 3 + m)).take 3)) := by
  have htail : (source.drop (readStart + 3)).take (m + 3) =
      (source.drop (readStart + 3)).take m ++ (source.drop (readStart + 3 + m)).take 3 := by
    rw [List.take_add, List.drop_drop]
  have hhead : ∀ n, (source.drop readStart).take (3 + n) =
      (source.drop readStart).take 3 ++ (source.drop (readStart + 3)).take n := by
    intro n
    rw [List.take_add, List.drop_drop]
  rw [readLine_eq hdata (by split <;> omega) (by split <;> split <;> omega)]
  refine congrArg Except.ok ?_
  cases cutStart <;> cases cutEnd <;>
    simp only [Bool.false_eq_true, if_true, if_false, List.nil_append, List.append_nil,
      Nat.sub_zero]
  · rw [← htail, ← hhead, show 3 + (m + 3) = m + 6 by omega]
  · rw [← hhead, show 3 + m = m + 6 - 3 by omega]
  · rw [← htail]
    rfl
  · rfl

theorem exists_parts {m : Nat} (hline : line.length = m + 7) :
    ∃ a b c z, line = a ++ (b ++ (c ++ [z])) ∧ a.length = 3 ∧ b.length = m ∧ c.length = 3 := by
  obtain ⟨z, hz⟩ : ∃ z, line.drop (3 + m + 3) = [z] := by
    rw [← List.length_eq_one_iff, List.length_drop]
    omega
  refine ⟨line.take 3, (line.drop 3).take m, (line.drop (3 + m)).take 3, z, ?_, ?_, ?_, ?_⟩
  · have hlast : (line.drop (3 + m)).take 3 ++ line.drop (3 + m + 3) = line.drop (3 + m) := by
      rw [show line.drop (3 + m + 3) = (line.drop (3 + m)).drop 3 by rw [List.drop_drop],
        List.take_append_drop]
    have hmid : (line.drop 3).take m ++ line.drop (3 + m) = line.drop 3 := by
      rw [← List.drop_drop, List.take_append_drop]
    rw [← hz, hlast, hmid, List.take_append_drop]
  · rw [List.length_take]
    omega
  · rw [List.length_take, List.length_drop]
    omega
  · rw [List.length_take, List.length_drop]
    omega

/-- A line that is cut off. -/
theorem copySourceLine_window {k length start max : Nat} (hdata : lexer.source.data = source)
    (hfits : k + length ≤ source.length) (hend : k + length < 2 ^ 31) (hmax : 6 ≤ max)
    (hstart : start + max ≤ length) (hline : line.length = max + 1) :
    copySourceLine lexer k (k + length) (k + start) (k + start + max) line =
      .ok (.holding (window ellipsis ((source.drop k).take length) start max) start line) := by
  obtain ⟨m, rfl⟩ : ∃ m, max = m + 6 := ⟨max - 6, by omega⟩
  obtain ⟨a, b, c, z, rfl, ha, rfl, hc⟩ := exists_parts hline
  have hpiece : ∀ i n, i + n ≤ length →
      (((source.drop k).take length).drop i).take n = (source.drop (k + i)).take n ∧
        ((source.drop (k + i)).take n).length = n := by
    intro i n hin
    rw [List.drop_take, List.take_take, List.drop_drop, Nat.min_eq_left (by omega),
      List.length_take, List.length_drop]
    exact ⟨rfl, by omega⟩
  obtain ⟨hhead, hheadLength⟩ := hpiece start 3 (by omega)
  obtain ⟨hmid, hmidLength⟩ := hpiece (start + 3) b.length (by omega)
  obtain ⟨htail, htailLength⟩ := hpiece (start + 3 + b.length) 3 (by omega)
  rw [← Nat.add_assoc k] at hmid hmidLength
  rw [← Nat.add_assoc k, ← Nat.add_assoc k] at htail htailLength
  have hlength : ((source.drop k).take length).length = length := by
    rw [List.length_take, List.length_drop]
    omega
  have hcutStart : (k != k + start) = decide (0 < start) := by
    rw [bne, beq_eq_decide, ← decide_not]
    exact decide_eq_decide.mpr (by omega)
  have hcutEnd : (k + length != k + start + (b.length + 6)) =
      decide (start + (b.length + 6) < length) := by
    rw [bne, beq_eq_decide, ← decide_not]
    exact decide_eq_decide.mpr (by omega)
  obtain ⟨line₁, line₂, line₃, hwrite₁, hwrite₂, hwrite₃, hwrite₄⟩ :=
    memcpy_window (decide (0 < start)) (decide (start + (b.length + 6) < length)) z ha hc
      hheadLength hmidLength htailLength
  have hread := readLine_window (k + start) b.length (decide (0 < start))
    (decide (start + (b.length + 6) < length)) hdata (by omega) (by omega)
  have hsize : sizeT (((k + start + (b.length + 6) : Nat) : Int) - (k + start : Nat)) =
      b.length + 6 := by
    rw [← Int.natCast_sub (Nat.le_add_right ..), Nat.add_sub_cancel_left,
      sizeT_natCast (by simp only [maxU64]; omega)]
  have hsub : ∀ n : Nat, 3 ≤ n → n < 2 ^ 31 → sizeT ((n : Int) - 3) = n - 3 := by
    intro n hn hlt
    rw [show (n : Int) - 3 = (n - 3 : Nat) by omega, sizeT_natCast (by simp only [maxU64]; omega)]
  have hadd : sizeT (((k + start : Nat) : Int) + 3) = k + start + 3 := by
    rw [show ((k + start : Nat) : Int) + 3 = (k + start + 3 : Nat) by omega,
      sizeT_natCast (by simp only [maxU64]; omega)]
  have hoffset : cInt (((k + start : Nat) : Int) - k) = start := by
    rw [show ((k + start : Nat) : Int) - k = (start : Nat) by omega,
      cInt_of_lt (by omega) (by omega)]
  have hreadLength : (if decide (start + (b.length + 6) < length) = true then
        sizeT ((if decide (0 < start) = true then b.length + 3 else b.length + 6 : Nat) - 3)
      else if decide (0 < start) = true then b.length + 3 else b.length + 6) =
      b.length + 6 - (if decide (0 < start) = true then 3 else 0) -
        (if decide (start + (b.length + 6) < length) = true then 3 else 0) := by
    split <;> split
    · exact hsub _ (by omega) (by omega)
    · exact hsub _ (by omega) (by omega)
    · rfl
    · rfl
  have hwindow : window ellipsis ((source.drop k).take length) start (b.length + 6) =
      (if decide (0 < start) = true then ellipsis else (source.drop (k + start)).take 3) ++
        ((source.drop (k + start + 3)).take b.length ++
          (if decide (start + (b.length + 6) < length) = true then ellipsis
            else (source.drop (k + start + 3 + b.length)).take 3)) := by
    rw [window, hlength, length_ellipsis, hhead, show b.length + 6 - 2 * 3 = b.length by omega,
      hmid, show start + (b.length + 6) - 3 = start + 3 + b.length by omega, htail]
    simp only [decide_eq_true_eq]
  simp only [copySourceLine, hcutStart, hcutEnd, hsize, hadd, bind, Except.bind, hwrite₁,
    hsub (b.length + 6) (by omega) (by omega), Nat.reduceSubDiff, hwrite₂]
  rw [hreadLength, hread]
  dsimp only
  rw [hwrite₃]
  dsimp only
  rw [hwrite₄, hoffset, SourceLine.holding, length_window (by rw [length_ellipsis]; omega)
    (by rw [hlength]; exact hstart), List.drop_eq_nil_of_le (Nat.le_of_eq hline), hwindow,
    List.append_assoc, List.append_assoc]
  rfl

end text

/-! ## The source line -/

section sourceLine

variable {source line : List UInt8} {p : Position} {max : Nat}

theorem getSourceLine_eq {lexer : AstLexer} (line : List UInt8) (max : Nat)
    (hreads : lexer.Reads source) (hp : p.InLine source) (n : Nat)
    (hend : p.lineStart + (foundLine lexer.source.type (source.drop p.lineStart)).length < 2 ^ 31)
    (hlast : p.lastColumn n < 2 ^ 31) (hmax : 6 ≤ max) (hline : line.length = max + 1)
    (hsum : (foundLine lexer.source.type (source.drop p.lineStart)).length ≤ max ∨
      max < p.lastColumn n - p.firstColumn ∨ p.firstColumn + p.lastColumn n < 2 ^ 31) :
    getSourceLine lexer (p.location n) max line =
      .ok (.holding (view ellipsis (foundLine lexer.source.type (source.drop p.lineStart))
          (windowStart p.firstColumn (p.lastColumn n) max) max).1
        (view ellipsis (foundLine lexer.source.type (source.drop p.lineStart))
          (windowStart p.firstColumn (p.lastColumn n) max) max).2 line) := by
  have hoffsets := getOffsetsFromLine_eq hreads hp.start hend
  have hle := length_foundLine_le lexer.source.type (source.drop p.lineStart)
  have htake := foundLine_eq_take lexer.source.type (source.drop p.lineStart)
  have hlineStart := hp.start.le_length
  rw [List.length_drop] at hle
  generalize foundLine lexer.source.type (source.drop p.lineStart) = found at *
  rw [getSourceLine, Position.location, hoffsets]
  show (do
    let r ← clampSourceLineOffsetsToLocation p.lineStart (p.lineStart + found.length : Nat)
      p.firstColumn (p.lastColumn n) max
    copySourceLine lexer p.lineStart (p.lineStart + found.length) r.1 r.2 line) = _
  rw [clamp_eq hend p.firstColumn_pos (p.firstColumn_le n) hlast hsum, view]
  by_cases hfits : found.length ≤ max
  · rw [if_pos hfits, if_pos hfits]
    refine (copySourceLine_whole hreads.data (by omega) hend hfits hline).trans ?_
    rw [← htake]
  · rw [if_neg hfits, if_neg hfits]
    refine (copySourceLine_window hreads.data (by omega) hend hmax (by omega) hline).trans ?_
    rw [← htake]

theorem getSourceLine_overflow {lexer : AstLexer} (line : List UInt8) (max : Nat)
    (hreads : lexer.Reads source) (hp : p.InLine source) (n : Nat)
    (hend : p.lineStart + (foundLine lexer.source.type (source.drop p.lineStart)).length < 2 ^ 31)
    (hlast : p.lastColumn n < 2 ^ 31)
    (hlong : max < (foundLine lexer.source.type (source.drop p.lineStart)).length)
    (hfits : p.lastColumn n - p.firstColumn ≤ max)
    (hsum : 2 ^ 31 ≤ p.firstColumn + p.lastColumn n) :
    getSourceLine lexer (p.location n) max line = .error .crash := by
  have hoffsets := getOffsetsFromLine_eq hreads hp.start hend
  rw [getSourceLine, Position.location, hoffsets]
  show (do
    let r ← clampSourceLineOffsetsToLocation p.lineStart
      (p.lineStart + (foundLine lexer.source.type (source.drop p.lineStart)).length : Nat)
      p.firstColumn (p.lastColumn n) max
    copySourceLine lexer p.lineStart _ r.1 r.2 line) = _
  rw [clamp_overflow hend (p.firstColumn_le n) hlast hlong hfits hsum]
  rfl

/-- What an error message should show of a line: all of it, or `max` bytes in the line with
ellipses where they cut it, among them all of the columns of the location if there is room. -/
structure Shows (line : List UInt8) (firstColumn lastColumn max : Nat) (text : List UInt8)
    (columnOffset : Nat) : Prop where
  whole : line.length ≤ max → text = line ∧ columnOffset = 0
  cut : max < line.length → columnOffset + max ≤ line.length ∧ text.length = max ∧
    text = window ellipsis line columnOffset max
  columns : max < line.length → lastColumn - firstColumn ≤ max →
    ∀ column, firstColumn ≤ column → column < lastColumn → column ≤ line.length →
      columnOffset < column ∧ column ≤ columnOffset + max

/-- The columns fit in a window around their center. -/
theorem windowStart_columns {firstColumn lastColumn column : Nat} (hfirst : 1 ≤ firstColumn)
    (hfits : lastColumn - firstColumn ≤ max) (hle : firstColumn ≤ column)
    (hlt : column < lastColumn) :
    windowStart firstColumn lastColumn max < column ∧
      column ≤ windowStart firstColumn lastColumn max + max := by
  rw [windowStart, center, if_neg (by omega)]
  omega

theorem view_shows (found : List UInt8) {firstColumn lastColumn : Nat} (hmax : 6 ≤ max)
    (hfirst : 1 ≤ firstColumn) :
    Shows found firstColumn lastColumn max
      (view ellipsis found (windowStart firstColumn lastColumn max) max).1
      (view ellipsis found (windowStart firstColumn lastColumn max) max).2 where
  whole hle := by
    rw [view, if_pos hle]
    exact ⟨rfl, rfl⟩
  cut hlong := by
    refine ⟨?_, ?_, ?_⟩
    · rw [view_snd hlong]
      omega
    · rw [view_fst_length (by rw [length_ellipsis]; omega)]
      omega
    · rw [view, if_neg (by omega)]
  columns hlong hfits := by
    intro column hle hlt hin
    obtain ⟨hafter, hbefore⟩ := windowStart_columns hfirst hfits hle hlt
    rw [view_snd hlong]
    omega

/-- The two sources show one and the same text of the line of the next `n` bytes. -/
def ShownAlike (file buffer : AstLexer) (source : List UInt8) (p : Position) (n max : Nat)
    (line : List UInt8) : Prop :=
  ∃ text columnOffset,
    Shows (lineBytes (source.drop p.lineStart)) p.firstColumn (p.lastColumn n) max text
        columnOffset ∧
      getSourceLine file (p.location n) max line = .ok (.holding text columnOffset line) ∧
      getSourceLine buffer (p.location n) max line = .ok (.holding text columnOffset line)

/-- If the line is too long to be shown, its columns are not added up or their sum is an `int`. -/
def ColumnsFit (source : List UInt8) (p : Position) (n max : Nat) : Prop :=
  ((lineBytes (source.drop p.lineStart)).length ≤ max ∧
      (lineBytes ((source.drop p.lineStart).take scanBufferSize)).length ≤ max) ∨
    max < p.lastColumn n - p.firstColumn ∨ p.firstColumn + p.lastColumn n < 2 ^ 31

/-- The line ends in the first chunk, or the window ends before its end and that of the chunk, or
with the first of them and with dots. -/
def EndsAlike (source : List UInt8) (p : Position) (n max : Nat) : Prop :=
  let bytes := source.drop p.lineStart
  let stop := min (lineBytes bytes).length (lineBytes (bytes.take scanBufferSize)).length
  let windowEnd := windowStart p.firstColumn (p.lastColumn n) max + max
  (lineBytes (bytes.take scanBufferSize)).length = (lineBytes bytes).length ∨ windowEnd < stop ∨
    windowEnd = stop ∧ (bytes.drop (stop - 3)).take 3 = ellipsis

theorem holding_inj {text text' : List UInt8} {columnOffset columnOffset' : Nat}
    (h : SourceLine.holding text columnOffset line = .holding text' columnOffset' line) :
    text = text' ∧ columnOffset = columnOffset' := by
  simp only [SourceLine.holding, SourceLine.mk.injEq, Int.natCast_inj] at h
  obtain ⟨hline, hlength, hoffset⟩ := h
  exact ⟨(List.append_inj hline hlength).1, hoffset⟩

/-- The views of the two lines are the same. -/
theorem view_eq_iff (n : Nat) (hmax : 6 ≤ max) :
    view ellipsis (lineBytes ((source.drop p.lineStart).take scanBufferSize))
        (windowStart p.firstColumn (p.lastColumn n) max) max =
      view ellipsis (lineBytes (source.drop p.lineStart))
        (windowStart p.firstColumn (p.lastColumn n) max) max ↔ EndsAlike source p n max := by
  have hfile := foundLine_eq_take .file (source.drop p.lineStart)
  have hfileLength := length_foundLine_le .file (source.drop p.lineStart)
  have hbuffer := lineBytes_eq_take (source.drop p.lineStart)
  have hbufferLength := length_lineBytes_le (source.drop p.lineStart)
  have hdots : 2 * ellipsis.length ≤ max := hmax
  rw [EndsAlike]
  simp only [foundLine] at hfile hfileLength
  generalize source.drop p.lineStart = bytes at *
  generalize lineBytes (bytes.take scanBufferSize) = seen at *
  generalize lineBytes bytes = whole at *
  rcases Nat.lt_trichotomy seen.length whole.length with hlt | heq | hgt
  · have hiff := view_take_eq_iff (windowStart p.firstColumn (p.lastColumn n) max) hdots hlt
      hbufferLength
    rw [hfile, hbuffer, hiff, ← hfile, ← hbuffer, or_iff_right hlt.ne, Nat.min_eq_right hlt.le]
    rfl
  · have hsame : seen = whole := by rw [hfile, hbuffer, heq]
    exact iff_of_true (by rw [hsame]) (.inl heq)
  · have hiff := view_take_eq_iff (windowStart p.firstColumn (p.lastColumn n) max) hdots hgt
      hfileLength
    rw [eq_comm, hfile, hbuffer, hiff, ← hfile, ← hbuffer, or_iff_right hgt.ne',
      Nat.min_eq_left hgt.le]
    rfl

section

variable {file buffer : AstLexer} (hfile : file.Reads source) (hfileType : file.source.type = .file)
  (hbuffer : buffer.Reads source) (hbufferType : buffer.source.type = .buffer)
  (hp : p.InLine source) {n : Nat} (hmax : 6 ≤ max) (hline : line.length = max + 1)
  (hend : p.lineStart + (lineBytes (source.drop p.lineStart)).length + 1 < 2 ^ 31)
  (hlast : p.lastColumn n < 2 ^ 31)

include hfile hfileType hbuffer hbufferType hp hend hlast

theorem ShownAlike.columnsFit (h : ShownAlike file buffer source p n max line) :
    ColumnsFit source p n max := by
  obtain ⟨text, columnOffset, -, hshownFile, hshownBuffer⟩ := h
  have htake := length_lineBytes_take_le (source.drop p.lineStart) scanBufferSize
  have hfileCrash := getSourceLine_overflow line max hfile hp n
  have hbufferCrash := getSourceLine_overflow line max hbuffer hp n
  rw [hfileType, foundLine] at hfileCrash
  rw [hbufferType, foundLine] at hbufferCrash
  by_contra hfit
  rw [ColumnsFit] at hfit
  by_cases hlong : max < (lineBytes (source.drop p.lineStart)).length
  · rw [hbufferCrash (by omega) hlast hlong (by omega) (by omega)] at hshownBuffer
    cases hshownBuffer
  · rw [hfileCrash (by omega) hlast (by omega) (by omega) (by omega)] at hshownFile
    cases hshownFile

include hmax hline

/-- Where the columns fit, either source shows what it finds. -/
theorem getSourceLine_views (hfit : ColumnsFit source p n max) :
    let start := windowStart p.firstColumn (p.lastColumn n) max
    let seen := view ellipsis (lineBytes ((source.drop p.lineStart).take scanBufferSize)) start max
    let whole := view ellipsis (lineBytes (source.drop p.lineStart)) start max
    getSourceLine file (p.location n) max line = .ok (.holding seen.1 seen.2 line) ∧
      getSourceLine buffer (p.location n) max line = .ok (.holding whole.1 whole.2 line) := by
  have htake := length_lineBytes_take_le (source.drop p.lineStart) scanBufferSize
  have hfileEq := getSourceLine_eq line max hfile hp n
  have hbufferEq := getSourceLine_eq line max hbuffer hp n
  rw [hfileType, foundLine] at hfileEq
  rw [hbufferType, foundLine] at hbufferEq
  rw [ColumnsFit] at hfit
  exact ⟨hfileEq (by omega) hlast hmax hline (by omega),
    hbufferEq (by omega) hlast hmax hline (by omega)⟩

theorem ShownAlike.endsAlike (h : ShownAlike file buffer source p n max line) :
    EndsAlike source p n max := by
  have hfit := h.columnsFit hfile hfileType hbuffer hbufferType hp hend hlast
  obtain ⟨hseen, hwhole⟩ :=
    getSourceLine_views hfile hfileType hbuffer hbufferType hp hmax hline hend hlast hfit
  obtain ⟨text, columnOffset, -, hshownFile, hshownBuffer⟩ := h
  rw [hseen] at hshownFile
  rw [hwhole] at hshownBuffer
  obtain ⟨htextFile, hoffsetFile⟩ := holding_inj (Except.ok.inj hshownFile)
  obtain ⟨htextBuffer, hoffsetBuffer⟩ := holding_inj (Except.ok.inj hshownBuffer)
  exact (view_eq_iff n hmax).mp
    (Prod.ext (htextFile.trans htextBuffer.symm) (hoffsetFile.trans hoffsetBuffer.symm))

end

/-- The two sources show the line alike just when the columns fit an `int` and what is shown does
not reach an end of the line that only one of them finds. -/
theorem getSourceLine_alike_iff {file buffer : AstLexer} (hfile : file.Reads source)
    (hfileType : file.source.type = .file) (hbuffer : buffer.Reads source)
    (hbufferType : buffer.source.type = .buffer)
    (hrun : Relation.ReflTransGen (Passes source) {} p) (n : Nat) (hmax : 6 ≤ max)
    (hline : line.length = max + 1)
    (hend : p.lineStart + (lineBytes (source.drop p.lineStart)).length + 1 < 2 ^ 31)
    (hlast : p.lastColumn n < 2 ^ 31) :
    ShownAlike file buffer source p n max line ↔
      ColumnsFit source p n max ∧ EndsAlike source p n max := by
  have hp := inLine_of_run hrun
  constructor
  · intro h
    exact ⟨h.columnsFit hfile hfileType hbuffer hbufferType hp hend hlast,
      h.endsAlike hfile hfileType hbuffer hbufferType hp hmax hline hend hlast⟩
  · rintro ⟨hfit, halike⟩
    obtain ⟨hseen, hwhole⟩ :=
      getSourceLine_views hfile hfileType hbuffer hbufferType hp hmax hline hend hlast hfit
    have hview := (view_eq_iff n hmax).mpr halike
    exact ⟨_, _, view_shows _ hmax p.firstColumn_pos, hview ▸ hseen, hwhole⟩

end sourceLine

/-! ## One line of each kind -/

theorem reads_new (type : AstLexerSourceType) (source : List UInt8) :
    (newAstLexer type source).Reads source :=
  ⟨rfl, {}, .refl, rfl, rfl⟩

/-- `"(\n)"`, with the second line shown from the first position of the lexer. -/
theorem getSourceLine_alike_second :
    ShownAlike (newAstLexer .file [0x28, 0x0a, 0x29]) (newAstLexer .buffer [0x28, 0x0a, 0x29])
      [0x28, 0x0a, 0x29] ⟨2, 2, 2⟩ 1 6 (List.replicate 7 0) := by
  have hrun : Relation.ReflTransGen (Passes [0x28, 0x0a, 0x29]) {} ⟨2, 2, 2⟩ :=
    .tail (.single (.bytes {} 1 (by decide))) (.newline ⟨1, 1, 0⟩ rfl)
  exact (getSourceLine_alike_iff (reads_new _ _) rfl (reads_new _ _) rfl hrun 1 (Nat.le_refl 6) rfl
    (by decide) (by decide)).mpr ⟨.inl (by decide), .inl (by decide)⟩

/-- A line of more than a chunk. -/
def longLine : List UInt8 := List.replicate (scanBufferSize + 1) 0x61

theorem lineBytes_replicate (n : Nat) :
    lineBytes (List.replicate n 0x61) = List.replicate n 0x61 := by
  have hline : (List.replicate n (0x61 : UInt8)).takeWhile (· ≠ newline) =
      List.replicate n 0x61 := by
    rw [List.takeWhile_replicate, if_pos (by decide)]
  rw [lineBytes, hline, if_neg fun h => Nat.lt_irrefl _ h.1]

/-- The file source ends the line with the chunk. -/
theorem longLine_not_alike :
    (newAstLexer .file longLine).Reads longLine ∧ (newAstLexer .buffer longLine).Reads longLine ∧
      ¬ ShownAlike (newAstLexer .file longLine) (newAstLexer .buffer longLine) longLine {} 1
        (scanBufferSize + 1) (List.replicate (scanBufferSize + 2) 0) := by
  refine ⟨reads_new _ _, reads_new _ _, fun h => ?_⟩
  have hbytes : longLine.drop ({} : Position).lineStart = longLine := rfl
  have hwhole : (lineBytes longLine).length = scanBufferSize + 1 := by
    rw [longLine, lineBytes_replicate, List.length_replicate]
  have hseen : (lineBytes (longLine.take scanBufferSize)).length = scanBufferSize := by
    rw [longLine, List.take_replicate, lineBytes_replicate, List.length_replicate]
    rfl
  have halike := h.endsAlike (reads_new _ _) rfl (reads_new _ _) rfl (inLine_of_run .refl)
    (by decide) List.length_replicate (by rw [hbytes, hwhole]; decide) (by decide)
  rw [EndsAlike, hbytes] at halike
  rw [hwhole, hseen] at halike
  simp only [scanBufferSize] at halike
  omega

end Text

end SexprWasm
