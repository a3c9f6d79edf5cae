import SexprWasm.Common
import SexprWasm.Lib.Buffer
import SexprWasm.Text.Lexer

/-!
# The source line of an error message

`wasm_ast_lexer_get_source_line` of `ast-lexer.c` and what it calls. A
line is found by counting newlines from the last line start the lexer
knows, in the whole buffer or in chunks of a file, and cut down to the
columns of the location. Offsets are `size_t`, but the scan keeps the
one it found in an `int`; so are lines and columns.
-/

namespace SexprWasm

namespace Text

/-- `WASM_ERROR`, or an assertion that fails, a signed overflow or an access out of bounds. -/
inductive LineFailure
  | error | crash
  deriving DecidableEq, Repr

/-- Conversion to `size_t`. -/
def sizeT (n : Int) : Nat := (n % maxU64).toNat

/-- A sum or difference of two `int`s. -/
def intResult (n : Int) : Except LineFailure Int :=
  if -2 ^ 31 ≤ n ∧ n < 2 ^ 31 then .ok n else .error .crash

def newline : UInt8 := 0x0a
def carriageReturn : UInt8 := 0x0d

/-- `"..."`. -/
def ellipsis : List UInt8 := [0x2e, 0x2e, 0x2e]

@[simp] theorem length_ellipsis : ellipsis.length = 3 := rfl

/-- `WasmLocation`, without the file name. -/
structure Location where
  line : Nat
  firstColumn : Int
  lastColumn : Int
  deriving DecidableEq, Repr

/-! ## Line offsets -/

/-- `WasmLineOffsetPosition`. -/
inductive LineOffsetPosition
  | start | end_
  deriving DecidableEq, Repr

/-- The loop of `scan_forward_for_line_offset_in_buffer` at `offset` in the source: the line it
stops in, and the offset it was looking for unless the bytes end first. -/
def scanLoop (findPosition : LineOffsetPosition) (findLine : Nat) :
    List UInt8 → Nat → Nat → Bool → Nat × Option Nat
  | [], line, _, _ => (line, none)
  | c :: bytes, line, offset, isPreviousCarriage =>
    if c = newline then
      match findPosition with
      | .start =>
        if line + 1 = findLine then (line + 1, some (offset + 1))
        else scanLoop .start findLine bytes (line + 1) (offset + 1) (c = carriageReturn)
      | .end_ =>
        if line = findLine then (line + 1, some (offset - isPreviousCarriage.toNat))
        else scanLoop .end_ findLine bytes (line + 1) (offset + 1) (c = carriageReturn)
    else scanLoop findPosition findLine bytes line (offset + 1) (c = carriageReturn)

/-- `scan_forward_for_line_offset_in_buffer`: whether it is `WASM_OK`, `*out_line` and
`*out_line_offset`. -/
def scanForwardForLineOffsetInBuffer (buffer : List UInt8) (bufferLine bufferFileOffset : Nat)
    (findPosition : LineOffsetPosition) (findLine : Nat) : Bool × Nat × Nat :=
  match scanLoop findPosition findLine buffer bufferLine bufferFileOffset false with
  | (line, some lineOffset) => (true, line, sizeT (cInt lineOffset))
  | (line, none) =>
    match findPosition with
    | .start => (false, line, 0)
    | .end_ => (true, line, sizeT (cInt (bufferFileOffset + buffer.length)))

/-- `sizeof(buffer)` of `scan_forward_for_line_offset_in_file`. -/
def scanBufferSize : Nat := 8 * 1024

/-- The loop of `scan_forward_for_line_offset_in_file` over what `fread` still has. -/
def scanFile (file : List UInt8) (line bufferFileOffset : Nat)
    (findPosition : LineOffsetPosition) (findLine : Nat) : Except LineFailure Nat :=
  if _h : file = [] then
    match findPosition with
    | .start => .error .error
    | .end_ => .ok bufferFileOffset
  else
    let buffer := file.take scanBufferSize
    match scanForwardForLineOffsetInBuffer buffer line bufferFileOffset findPosition findLine with
    | (true, _, lineOffset) => .ok lineOffset
    | (false, line, _) =>
      scanFile (file.drop scanBufferSize) line (bufferFileOffset + buffer.length) findPosition
        findLine
termination_by file.length
decreasing_by
  have hpos := List.length_pos_iff.mpr _h
  rw [List.length_drop, scanBufferSize]
  omega

/-- `fseek` to an offset from the start, which it takes as a `long`. -/
def fseek (offset : Nat) : Except LineFailure Unit :=
  if offset < 2 ^ 63 then .ok () else .error .error

/-- `scan_forward_for_line_offset_in_file`. -/
def scanForwardForLineOffsetInFile (lexer : AstLexer) (line lineStartOffset : Nat)
    (findPosition : LineOffsetPosition) (findLine : Nat) : Except LineFailure Nat := do
  fseek lineStartOffset
  scanFile (lexer.source.data.drop lineStartOffset) line lineStartOffset findPosition findLine

/-- `scan_forward_for_line_offset`. -/
def scanForwardForLineOffset (lexer : AstLexer) (line lineStartOffset : Nat)
    (findPosition : LineOffsetPosition) (findLine : Nat) : Except LineFailure Nat :=
  if findLine < line then .error .crash
  else
    match lexer.source.type with
    | .buffer =>
      if lexer.source.data.length < lineStartOffset then .error .crash
      else
        match scanForwardForLineOffsetInBuffer (lexer.source.data.drop lineStartOffset) line
          lineStartOffset findPosition findLine with
        | (true, _, lineOffset) => .ok lineOffset
        | (false, _, _) => .error .error
    | .file => scanForwardForLineOffsetInFile lexer line lineStartOffset findPosition findLine

/-- `get_line_start_offset`. -/
def getLineStartOffset (lexer : AstLexer) (line : Nat) : Except LineFailure Nat :=
  let firstLine := 1
  let firstOffset := 0
  let currentLine := lexer.line
  let currentOffset := lexer.lineFileOffset
  if line = currentLine then .ok currentOffset
  else if line = firstLine then .ok firstOffset
  else if currentLine < line then
    scanForwardForLineOffset lexer currentLine currentOffset .start line
  else scanForwardForLineOffset lexer firstLine firstOffset .start line

/-- `get_offsets_from_line`. -/
def getOffsetsFromLine (lexer : AstLexer) (line : Nat) : Except LineFailure (Nat × Nat) := do
  let lineStart ← getLineStartOffset lexer line
  let lineEnd ← scanForwardForLineOffset lexer line lineStart .end_ line
  return (lineStart, lineEnd)

/-! ## The line -/

/-- `center_on` of `clamp_source_line_offsets_to_location`. -/
def centerOn (firstColumn lastColumn : Int) (maxLineLength : Nat) : Except LineFailure Nat := do
  let columnRange := sizeT (← intResult (lastColumn - firstColumn))
  if maxLineLength < columnRange then
    return sizeT (← intResult (firstColumn - 1))
  else
    return sizeT (← intResult ((← intResult (firstColumn + lastColumn)).tdiv 2 - 1))

/-- `clamp_source_line_offsets_to_location`. -/
def clampSourceLineOffsetsToLocation (lineStart lineEnd : Nat) (firstColumn lastColumn : Int)
    (maxLineLength : Nat) : Except LineFailure (Nat × Nat) :=
  let lineLength := sizeT (lineEnd - lineStart)
  if maxLineLength < lineLength then do
    let center ← centerOn firstColumn lastColumn maxLineLength
    let lineStart :=
      if maxLineLength / 2 < center then sizeT (lineStart + (center - maxLineLength / 2))
      else lineStart
    let lineStart :=
      if sizeT (lineEnd - maxLineLength) < lineStart then sizeT (lineEnd - maxLineLength)
      else lineStart
    return (lineStart, sizeT (lineStart + maxLineLength))
  else .ok (lineStart, lineEnd)

/-- `memcpy(line + offset, bytes, ..)`. -/
def memcpy (line : List UInt8) (offset : Nat) (bytes : List UInt8) :
    Except LineFailure (List UInt8) :=
  if offset + bytes.length ≤ line.length then
    .ok (Buffer.writeAt 0 line offset bytes)
  else .error .crash

/-- The bytes of the source that are copied into the line: `memcpy` or `fread`. -/
def readLine (lexer : AstLexer) (readStart readLength : Nat) :
    Except LineFailure (List UInt8) :=
  let bytes := (lexer.source.data.drop readStart).take readLength
  match lexer.source.type with
  | .buffer =>
    if readStart + readLength ≤ lexer.source.data.length then .ok bytes else .error .crash
  | .file => do
    fseek readStart
    if bytes.length < readLength then .error .error else .ok bytes

/-- The buffer of the caller, `*out_line_length` and `*out_column_offset`. -/
structure SourceLine where
  line : List UInt8
  lineLength : Nat
  columnOffset : Int
  deriving DecidableEq

/-- `if (has_ellipsis) memcpy(line + offset, "...", 3)`. -/
def writeEllipsis (hasEllipsis : Bool) (line : List UInt8) (offset : Nat) :
    Except LineFailure (List UInt8) :=
  if hasEllipsis then memcpy line offset ellipsis else .ok line

/-- The part of `wasm_ast_lexer_get_source_line` that fills the buffer, with the line from
`lineStart` to `lineEnd` and the part of it from `newLineStart` to `newLineEnd`. -/
def copySourceLine (lexer : AstLexer) (lineStart lineEnd newLineStart newLineEnd : Nat)
    (line : List UInt8) : Except LineFailure SourceLine := do
  let hasStartEllipsis := lineStart != newLineStart
  let hasEndEllipsis := lineEnd != newLineEnd
  let lineLength := sizeT (newLineEnd - newLineStart)
  let line ← writeEllipsis hasStartEllipsis line 0
  let line ← writeEllipsis hasEndEllipsis line (sizeT (lineLength - 3))
  let writeStart := if hasStartEllipsis then 3 else 0
  let readStart := if hasStartEllipsis then sizeT (newLineStart + 3) else newLineStart
  let readLength := if hasStartEllipsis then sizeT (lineLength - 3) else lineLength
  let readLength := if hasEndEllipsis then sizeT (readLength - 3) else readLength
  let bytes ← readLine lexer readStart readLength
  let line ← memcpy line writeStart bytes
  let line ← memcpy line lineLength [0]
  return ⟨line, lineLength, cInt (newLineStart - lineStart)⟩

/-- `wasm_ast_lexer_get_source_line`. -/
def getSourceLine (lexer : AstLexer) (loc : Location) (lineMaxLength : Nat)
    (line : List UInt8) : Except LineFailure SourceLine := do
  let (lineStart, lineEnd) ← getOffsetsFromLine lexer loc.line
  let (newLineStart, newLineEnd) ←
    clampSourceLineOffsetsToLocation lineStart lineEnd loc.firstColumn loc.lastColumn
      lineMaxLength
  copySourceLine lexer lineStart lineEnd newLineStart newLineEnd line

end Text

end SexprWasm
