import SexprWasm.Interpreter.SpecRun
import SexprWasm.Literal.Integer
import SexprWasm.Lib.Emit

/-!
# Reading a spec script

The JSON reader of `wasm-interp.c`: the characters of the file with one
character put back, the tokens, and a function for each kind of command.
`data` is the file. A parser emits where it is at each read and after
each move, where each number and each string begins, and the commands it
hands to `on_module_command` and its siblings, whose results the parser
does not look at.

The loops take `fuel`, the number of turns they may make. Beside the
error that the parser reports a run may stop because it has no fuel
left, because the assertion of `putback_char` fails, or because
`parse_string` writes past the end of the file's buffer. A string is
unescaped in the buffer itself, behind the place that is read; nothing
is read there again, so `data` stays as it is.
-/

namespace SexprWasm

namespace Interpreter

namespace SpecJson

open Literal

/-- `WasmLocation` without the file's name. -/
structure Location where
  line : Int := 1
  firstColumn : Int := 1
  deriving DecidableEq, Repr

/-- The part of `Context` that is about the file. -/
structure Context where
  jsonOffset : Nat := 0
  loc : Location := {}
  prevLoc : Location := ⟨0, 0⟩
  hasPrevLoc : Bool := false
  commandLineNumber : Nat := 0
  sourceFilename : List UInt8 := []
  deriving DecidableEq, Repr

/-- What `parse_command` has read when it calls one of the `on_..._command` functions. -/
inductive SpecCommand where
  | module (filename name : Name)
  | action (action : Action)
  | register (name as : Name)
  | assertMalformed (filename text : List UInt8)
  | assertInvalid (filename text : List UInt8)
  | assertUnlinkable (filename text : List UInt8)
  | assertUninstantiable (filename text : List UInt8)
  | assertReturn (action : Action) (expected : List TypedValue)
  | assertReturnNan (action : Action)
  | assertTrap (action : Action) (text : List UInt8)
  deriving DecidableEq, Repr

inductive Mark where
  /-- `read_char` is called. -/
  | read (jsonOffset : Nat) (loc : Location)
  | moved (jsonOffset : Nat) (loc : Location)
  /-- `putback_char` has moved back. -/
  | putback (jsonOffset : Nat) (loc : Location)
  | number (start : Nat)
  | string (start : Nat)
  | command (line : Nat) (command : SpecCommand)
  deriving DecidableEq, Repr

inductive Stop where
  | error
  | assertion
  | overrun
  | fuel
  deriving DecidableEq, Repr

abbrev Json (α : Type) : Type := Emit Mark (Stop × Context) Context α

def stop {α : Type} (reason : Stop) : Json α := fun c => ([], .error (reason, c))

/-- `print_parse_error` and `return WASM_ERROR`. -/
def parseError {α : Type} : Json α := stop .error

/-- The state is `c` from here on. -/
def moveTo (c : Context) : Json Unit := fun _ => ([.moved c.jsonOffset c.loc], .ok ((), c))

/-- The location behind a character. -/
def Location.next (loc : Location) (c : Int) : Location :=
  if c = 0x0a then { line := cInt (loc.line + 1), firstColumn := 1 }
  else { loc with firstColumn := cInt (loc.firstColumn + 1) }

/-- A `char` as an `int`. -/
def charInt (b : UInt8) : Int := toSigned 8 b.toNat

section Reader

variable (data : List UInt8)

/-! ## Characters -/

def putbackChar : Json Unit := fun c =>
  if c.hasPrevLoc then
    ([.putback (c.jsonOffset - 1) c.prevLoc],
      .ok ((), { c with jsonOffset := c.jsonOffset - 1, loc := c.prevLoc, hasPrevLoc := false }))
  else
    stop .assertion c

def readChar : Json Int := do
  let c ← Emit.get
  Emit.emit (.read c.jsonOffset c.loc)
  match data[c.jsonOffset]? with
  | none => pure (-1)
  | some b =>
    moveTo { c with
      jsonOffset := c.jsonOffset + 1, loc := c.loc.next (charInt b), prevLoc := c.loc,
      hasPrevLoc := true }
    pure (charInt b)

def skipWhitespace : Nat → Json Unit
  | 0 => stop .fuel
  | fuel + 1 => do
    let c ← readChar data
    if c = -1 then
      pure ()
    else if c = 0x20 ∨ c = 0x09 ∨ c = 0x0a ∨ c = 0x0d then
      skipWhitespace fuel
    else
      putbackChar

/-- `while (*s && *s == read_char(ctx)) s++;`: is `*s` 0 after the loop? -/
def matchChars : List UInt8 → Json Bool
  | [] => pure true
  | b :: s => do
    let c ← readChar data
    if charInt b = c then matchChars s else pure false

variable (fuel : Nat)

def match_ (s : String) : Json Bool := do
  skipWhitespace data fuel
  let start ← Emit.get
  let matched ← matchChars data s.toUTF8.toList
  if matched then
    pure true
  else do
    let c ← Emit.get
    moveTo { c with jsonOffset := start.jsonOffset, loc := start.loc }
    pure false

def expect (s : String) : Json Unit := do
  let matched ← match_ data fuel s
  if matched then pure () else parseError

def expectKey (key : String) : Json Unit := do
  expect data fuel ("\"" ++ key ++ "\"")
  expect data fuel ":"

/-! ## Numbers and strings -/

/-- The loop of `parse_uint32`. -/
def parseUint32Digits : Nat → Nat → Json Nat
  | 0, _ => stop .fuel
  | fuel + 1, result => do
    let c ← readChar data
    if 0x30 ≤ c ∧ c ≤ 0x39 then
      let lastResult := result
      let result := u32 (result * 10 + (c - 0x30).toNat)
      if result < lastResult then parseError else parseUint32Digits fuel result
    else do
      putbackChar
      pure result

def parseUint32 : Json Nat := do
  skipWhitespace data fuel
  let ctx ← Emit.get
  Emit.emit (.number ctx.jsonOffset)
  parseUint32Digits data fuel 0

/-- `cval`, if the character is a hexadecimal digit. -/
def hexCharValue (c : Int) : Option Nat :=
  if 0x30 ≤ c ∧ c ≤ 0x39 then some (c - 0x30).toNat
  else if 0x61 ≤ c ∧ c ≤ 0x66 then some (c - 0x61 + 10).toNat
  else if 0x41 ≤ c ∧ c ≤ 0x46 then some (c - 0x41 + 10).toNat
  else none

/-- The four digits of an escape; `code` is a `uint16_t`. -/
def parseHexChars : Nat → Nat → Json Nat
  | 0, code => pure code
  | n + 1, code => do
    let c ← readChar data
    match hexCharValue c with
    | none => parseError
    | some cval => parseHexChars n ((code * 16 + cval) % 2 ^ 16)

/-- `*p++ = c`, where `p` is behind what the string that began at `start` has so far. -/
def putChar (start : Nat) (string : List UInt8) (c : Int) : Json (List UInt8) :=
  if start + string.length < data.length then pure (string ++ [UInt8.ofNat (c % 0x100).toNat])
  else stop .overrun

/-- The loop of `parse_string`. -/
def parseStringChars (start : Nat) : Nat → List UInt8 → Json (List UInt8)
  | 0, _ => stop .fuel
  | fuel + 1, string => do
    let c ← readChar data
    if c = 0x22 then
      pure string
    else if c = 0x5c then do
      let c ← readChar data
      if c ≠ 0x75 then
        parseError
      else do
        let code ← parseHexChars data 4 0
        if code < 256 then do
          let string ← putChar data start string code
          parseStringChars start fuel string
        else
          -- an error is printed, but the function goes on
          parseStringChars start fuel string
    else do
      let string ← putChar data start string c
      parseStringChars start fuel string

def parseString : Json (List UInt8) := do
  skipWhitespace data fuel
  let c ← readChar data
  if c ≠ 0x22 then
    parseError
  else do
    let ctx ← Emit.get
    Emit.emit (.string ctx.jsonOffset)
    parseStringChars data ctx.jsonOffset fuel []

/-! ## Values -/

def parseKeyStringValue (key : String) : Json (List UInt8) := do
  expectKey data fuel key
  parseString data fuel

def parseOptNameStringValue : Json (List UInt8) := do
  let matched ← match_ data fuel "\"name\""
  if matched then do
    expect data fuel ":"
    let string ← parseString data fuel
    expect data fuel ","
    pure string
  else
    pure []

def parseLine : Json Unit := do
  expectKey data fuel "line"
  let line ← parseUint32 data fuel
  Emit.modify fun c => { c with commandLineNumber := line }

/-- The chain of `wasm_string_slice_eq_cstr` on the name of a type. -/
def typeOfName (typeStr : List UInt8) : Option ValueType :=
  if typeStr = "i32".toUTF8.toList then some .i32
  else if typeStr = "f32".toUTF8.toList then some .f32
  else if typeStr = "i64".toUTF8.toList then some .i64
  else if typeStr = "f64".toUTF8.toList then some .f64
  else none

/-- The type that a string names. -/
def typeOfStr (typeStr : List UInt8) : Json ValueType :=
  match typeOfName typeStr with
  | some type => pure type
  | none => parseError

def parseTypeObject : Json ValueType := do
  expect data fuel "\x7b"
  let typeStr ← parseKeyStringValue data fuel "type"
  expect data fuel "\x7d"
  typeOfStr typeStr

/-- The value of a type that a string stands for: floats are written as their bits. -/
def constOfStr (type : ValueType) (valueStr : List UInt8) : Json TypedValue :=
  let parse := match type with
    | .i32 | .f32 => parseInt32
    | .i64 | .f64 => parseInt64
  match parse valueStr .unsignedOnly with
  | some value => pure { type := type.toType, value }
  | none => parseError

def parseConst : Json TypedValue := do
  expect data fuel "\x7b"
  let typeStr ← parseKeyStringValue data fuel "type"
  expect data fuel ","
  let valueStr ← parseKeyStringValue data fuel "value"
  expect data fuel "\x7d"
  let type ← typeOfStr typeStr
  constOfStr type valueStr

/-- The comma before an element that is not the first. -/
def expectSeparator (first : Bool) : Json Unit :=
  if first then pure () else expect data fuel ","

/-- The loops over the elements of an array: `while (!match(ctx, "]"))`. -/
def parseElements {α : Type} (parseElement : Json α) : Nat → Bool → Json (List α)
  | 0, _ => stop .fuel
  | turns + 1, first => do
    let matched ← match_ data fuel "]"
    if matched then
      pure []
    else do
      expectSeparator data fuel first
      let a ← parseElement
      let as ← parseElements parseElement turns false
      pure (a :: as)

def parseTypeVector : Json (List ValueType) := do
  expect data fuel "["
  parseElements data fuel (parseTypeObject data fuel) fuel true

def parseConstVector : Json (List TypedValue) := do
  expect data fuel "["
  parseElements data fuel (parseConst data fuel) fuel true

/-- The type of an action. -/
def parseActionIsGet : Json Bool := do
  let matched ← match_ data fuel "\"invoke\""
  if matched then
    pure false
  else do
    expect data fuel "\"get\""
    pure true

/-- The module of an action, if it names one. -/
def parseActionModule : Json Name := do
  let matched ← match_ data fuel "\"module\""
  if matched then do
    expect data fuel ":"
    let moduleName ← parseString data fuel
    expect data fuel ","
    pure moduleName
  else
    pure []

def parseActionArgs (isGet : Bool) : Json (List TypedValue) :=
  if isGet then
    pure []
  else do
    expect data fuel ","
    expectKey data fuel "args"
    parseConstVector data fuel

def parseAction : Json Action := do
  expectKey data fuel "action"
  expect data fuel "\x7b"
  expectKey data fuel "type"
  let isGet ← parseActionIsGet data fuel
  expect data fuel ","
  let moduleName ← parseActionModule data fuel
  let fieldName ← parseKeyStringValue data fuel "field"
  let args ← parseActionArgs data fuel isGet
  expect data fuel "\x7d"
  pure { moduleName, fieldName, args, isGet }

/-! ## Commands -/

/-- `EXPECT(","); CHECK_RESULT(parse_line(ctx)); EXPECT(",");`, how every command starts. -/
def parseCommandLine : Json Unit := do
  expect data fuel ","
  parseLine data fuel
  expect data fuel ","

/-- The call of an `on_..._command` function. -/
def onCommand (command : SpecCommand) : Json Unit := do
  let c ← Emit.get
  Emit.emit (.command c.commandLineNumber command)

def parseModuleCommand : Json Unit := do
  parseCommandLine data fuel
  let name ← parseOptNameStringValue data fuel
  let filename ← parseKeyStringValue data fuel "filename"
  onCommand (.module filename name)

def parseActionCommand : Json Unit := do
  parseCommandLine data fuel
  let action ← parseAction data fuel
  onCommand (.action action)

def parseRegisterCommand : Json Unit := do
  parseCommandLine data fuel
  let name ← parseOptNameStringValue data fuel
  let as ← parseKeyStringValue data fuel "as"
  onCommand (.register name as)

/-- The four commands with the name of a file and the text of the error that is expected. -/
def parseAssertModuleCommand (command : List UInt8 → List UInt8 → SpecCommand) : Json Unit := do
  parseCommandLine data fuel
  let filename ← parseKeyStringValue data fuel "filename"
  expect data fuel ","
  let text ← parseKeyStringValue data fuel "text"
  onCommand (command filename text)

def parseAssertReturnCommand : Json Unit := do
  parseCommandLine data fuel
  let action ← parseAction data fuel
  expect data fuel ","
  expectKey data fuel "expected"
  let expected ← parseConstVector data fuel
  onCommand (.assertReturn action expected)

def parseAssertReturnNanCommand : Json Unit := do
  parseCommandLine data fuel
  let action ← parseAction data fuel
  expect data fuel ","
  expectKey data fuel "expected"
  let _ ← parseTypeVector data fuel
  onCommand (.assertReturnNan action)

def parseAssertTrapCommand : Json Unit := do
  parseCommandLine data fuel
  let action ← parseAction data fuel
  expect data fuel ","
  let text ← parseKeyStringValue data fuel "text"
  onCommand (.assertTrap action text)

/-- The types of commands in the order in which `parse_command` looks for them. -/
def commandParsers : List (String × Json Unit) :=
  [("\"module\"", parseModuleCommand data fuel),
    ("\"action\"", parseActionCommand data fuel),
    ("\"register\"", parseRegisterCommand data fuel),
    ("\"assert_malformed\"", parseAssertModuleCommand data fuel .assertMalformed),
    ("\"assert_invalid\"", parseAssertModuleCommand data fuel .assertInvalid),
    ("\"assert_unlinkable\"", parseAssertModuleCommand data fuel .assertUnlinkable),
    ("\"assert_uninstantiable\"", parseAssertModuleCommand data fuel .assertUninstantiable),
    ("\"assert_return\"", parseAssertReturnCommand data fuel),
    ("\"assert_return_nan\"", parseAssertReturnNanCommand data fuel),
    ("\"assert_trap\"", parseAssertTrapCommand data fuel)]

/-- The `if … else if …` of `parse_command`. -/
def parseCommandOf : List (String × Json Unit) → Json Unit
  | [] => parseError
  | (type, parse) :: parsers => do
    let matched ← match_ data fuel type
    if matched then parse else parseCommandOf parsers

def parseCommand : Json Unit := do
  expect data fuel "\x7b"
  expectKey data fuel "type"
  parseCommandOf data fuel (commandParsers data fuel)
  expect data fuel "\x7d"

def parseCommands : Json Unit := do
  expect data fuel "\x7b"
  let sourceFilename ← parseKeyStringValue data fuel "source_filename"
  Emit.modify fun c => { c with sourceFilename }
  expect data fuel ","
  expectKey data fuel "commands"
  expect data fuel "["
  let _ ← parseElements data fuel (parseCommand data fuel) fuel true
  expect data fuel "\x7d"

/-- The part of `read_and_run_spec_json` behind `wasm_read_file`. -/
def readAndRunSpecJson : List Mark × Except (Stop × Context) (Unit × Context) :=
  parseCommands data fuel {}

end Reader

end SpecJson

end Interpreter

end SexprWasm
