import SexprWasm.Lib.Scanner

/-!
# The buffer of the lexer

`fill` of `ast-lexer.c` and the machine that `re2c` makes of the rules:
it works on the five pointers into the buffer and calls `FILL` where the
buffer holds less than it needs. Pointers are offsets from `buffer`,
which is a whole memory of which `buffer_size` bytes are allocated.
The tables of the machine are a parameter, `Scanner.Instr` says what
they can do.
-/

namespace SexprWasm

namespace Text

open Scanner

/-- `YYMAXFILL`, the most bytes that any state needs. -/
def yyMaxFill : Nat := 20

/-- `INITIAL_LEXER_BUFFER_SIZE`. -/
def initialLexerBufferSize : Nat := 64 * 1024

/-- `WasmAstLexerSourceType`. -/
inductive AstLexerSourceType
  | file | buffer
  deriving DecidableEq, Repr

/-- `WasmAstLexerSource`: the bytes of the file or of the buffer, and how many were read. -/
structure AstLexerSource where
  type : AstLexerSourceType
  data : List UInt8
  readOffset : Nat := 0

/-- `WasmAllocator`: what a new block holds, and whether a block can still be read after
`wasm_realloc` moved it. The stack allocator keeps it, the libc allocator frees it. -/
structure Allocator where
  fresh : Nat → UInt8
  keepsBlock : Bool

/-- `WasmAstLexer`; `commentNesting` is with the state of the machine. -/
structure AstLexer where
  source : AstLexerSource
  line : Nat := 1
  bufferFileOffset : Nat := 0
  lineFileOffset : Nat := 0
  eof : Bool := false
  buffer : Nat → UInt8 := fun _ => 0
  bufferSize : Nat := 0
  marker : Int := 0
  token : Nat := 0
  cursor : Nat := 0
  limit : Nat := 0

/-- `wasm_new_ast_file_lexer` and `wasm_new_ast_buffer_lexer`. -/
def newAstLexer (type : AstLexerSourceType) (data : List UInt8) : AstLexer where
  source := { type, data }

/-- `memmove(to, from + offset, n)` where `to` is the start of a block that holds `into`. -/
def memmove (into src : Nat → UInt8) (offset n : Nat) : Nat → UInt8 :=
  fun i => if i < n then src (offset + i) else into i

/-- The block with `bytes` written at `offset`. -/
def write (into : Nat → UInt8) (offset : Nat) (bytes : List UInt8) : Nat → UInt8 :=
  fun i => if offset ≤ i then bytes.getD (i - offset) (into i) else into i

/-- `while (...) new_buffer_size *= 2`. -/
def growBufferSize (oldSize free need newSize : Nat) : Nat :=
  if h : 0 < newSize ∧ newSize - oldSize + free < need + yyMaxFill then
    growBufferSize oldSize free need (newSize * 2)
  else newSize
termination_by need + yyMaxFill + oldSize - newSize
decreasing_by omega

namespace AstLexer

/-- The part of `fill` that makes room: a larger buffer if the token is not `need` bytes in, else
the same one shifted down. The result is the room for new bytes; `none` if the old buffer is read
after it was freed. -/
def makeRoom (alloc : Allocator) (need : Nat) (lexer : AstLexer) : Option (AstLexer × Nat) :=
  let free := lexer.token
  let live := lexer.limit - lexer.token
  let shifted := { lexer with
    token := lexer.token - free
    marker := lexer.marker - free
    cursor := lexer.cursor - free
    limit := lexer.limit - free
    bufferFileOffset := lexer.bufferFileOffset + free }
  if free < need then
    let newSize := growBufferSize lexer.bufferSize free need
      (if lexer.bufferSize ≠ 0 then lexer.bufferSize * 2 else initialLexerBufferSize)
    let newBuffer := fun i => if i < lexer.bufferSize then lexer.buffer i else alloc.fresh i
    if live ≠ 0 ∧ !alloc.keepsBlock then none
    else some ({ shifted with
      buffer := memmove newBuffer lexer.buffer lexer.token live
      bufferSize := newSize }, free + (newSize - lexer.bufferSize))
  else some ({ shifted with buffer := memmove lexer.buffer lexer.buffer lexer.token live }, free)

/-- The part of `fill` that reads at most `free` bytes: a file is read to `limit`, a buffer is
copied to the start of the buffer of the lexer. -/
def readSource (free : Nat) (lexer : AstLexer) : AstLexer :=
  let bytes := (lexer.source.data.drop lexer.source.readOffset).take free
  let offset :=
    match lexer.source.type with
    | .file => lexer.limit
    | .buffer => 0
  { lexer with
    buffer := write lexer.buffer offset bytes
    limit := lexer.limit + bytes.length
    source := { lexer.source with readOffset := lexer.source.readOffset + bytes.length } }

/-- The part of `fill` that ends the input with zeros if the buffer was not filled. -/
def padAtEof (lexer : AstLexer) : AstLexer :=
  if lexer.limit + yyMaxFill < lexer.bufferSize then
    { lexer with
      eof := true
      buffer := write lexer.buffer lexer.limit (List.replicate yyMaxFill 0)
      limit := lexer.limit + yyMaxFill }
  else lexer

end AstLexer

/-- What `fill` comes to: `error` is `WASM_ERROR`, `crash` an assertion that fails or memory read
after it was freed. -/
inductive FillResult where
  | ok (lexer : AstLexer)
  | error
  | crash

/-- `fill`. -/
def fill (alloc : Allocator) (need : Nat) (lexer : AstLexer) : FillResult :=
  if lexer.eof then .error
  else if lexer.cursor < lexer.token then .crash
  else
    match lexer.makeRoom alloc need with
    | none => .crash
    | some (lexer, free) => .ok (lexer.readSource free).padAtEof

section machine

variable {σ τ : Type}

/-- A lexer in a state of the machine. -/
structure Lexing (σ : Type) where
  state : σ
  lexer : AstLexer

/-- `YY_USER_ACTION` and the text of a token. -/
def AstLexer.lexeme (kind : Option τ) (lexer : AstLexer) : Lexeme τ where
  kind
  line := lexer.line
  firstColumn := (lexer.token + lexer.bufferFileOffset : Nat) - lexer.lineFileOffset + 1
  lastColumn := (lexer.cursor + lexer.bufferFileOffset : Nat) - lexer.lineFileOffset + 1
  text := slice lexer.buffer lexer.token lexer.cursor

/-- One step of the machine on the buffer. A `FILL` that fails returns the end of the input. -/
def lexStep (code : σ → Scanner.Instr σ τ) (alloc : Allocator) (s : Lexing σ) :
    Result (Lexing σ) (Lexeme τ) :=
  let lexer := s.lexer
  match code s.state with
  | .start state => .next ⟨state, { lexer with token := lexer.cursor }⟩ none
  | .need n state =>
    if (lexer.limit : Int) - lexer.cursor < n then
      match fill alloc n lexer with
      | .ok lexer => .next ⟨state, lexer⟩ none
      | .error => .halt (lexer.lexeme none)
      | .crash => .stuck
    else .next ⟨state, lexer⟩ none
  | .peek next => .next ⟨next (lexer.buffer lexer.cursor), lexer⟩ none
  | .advance state => .next ⟨state, { lexer with cursor := lexer.cursor + 1 }⟩ none
  | .mark state => .next ⟨state, { lexer with marker := lexer.cursor }⟩ none
  | .back state =>
    if lexer.marker < 0 then .stuck
    else .next ⟨state, { lexer with cursor := lexer.marker.toNat }⟩ none
  | .newline state =>
    .next ⟨state, { lexer with
      line := lexer.line + 1
      lineFileOffset := lexer.cursor + lexer.bufferFileOffset }⟩ none
  | .emit kind state => .next ⟨state, lexer⟩ (some (lexer.lexeme (some kind)))

end machine

end Text

end SexprWasm
