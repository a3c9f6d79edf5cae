import SexprWasm.Text.Lexer
import SexprWasm.Literal.Integer

/-!
# Quoted data

`write_quoted_data` of `ast-writer.c`, the lexer's rule for texts, and
`copy_string_contents` and `dup_text_list` of `ast-parser.y`. The rule is
here twice: `IsText` is the definition of `text` in `ast-lexer.c`, and
`textCode` the states of the machine that `re2c` makes of the rules, as
far as a text goes through them; an `Exit` is where the machine leaves
them for states that are left out.
-/

namespace SexprWasm

namespace Text

/-! ## Writing -/

/-- `s_is_char_escaped`. -/
def charEscapedTable : List Nat := [
  1, 1, 1, 1, 1, 1, 1, 1, 1, 1, 1, 1, 1, 1, 1, 1, 1, 1, 1, 1, 1, 1, 1, 1,
  1, 1, 1, 1, 1, 1, 1, 1, 0, 0, 1, 0, 0, 0, 0, 0, 0, 0, 0, 0, 0, 0, 0, 0,
  0, 0, 0, 0, 0, 0, 0, 0, 0, 0, 0, 0, 0, 0, 0, 0, 0, 0, 0, 0, 0, 0, 0, 0,
  0, 0, 0, 0, 0, 0, 0, 0, 0, 0, 0, 0, 0, 0, 0, 0, 0, 0, 0, 0, 1, 0, 0, 0,
  0, 0, 0, 0, 0, 0, 0, 0, 0, 0, 0, 0, 0, 0, 0, 0, 0, 0, 0, 0, 0, 0, 0, 0,
  0, 0, 0, 0, 0, 0, 0, 1, 1, 1, 1, 1, 1, 1, 1, 1, 1, 1, 1, 1, 1, 1, 1, 1,
  1, 1, 1, 1, 1, 1, 1, 1, 1, 1, 1, 1, 1, 1, 1, 1, 1, 1, 1, 1, 1, 1, 1, 1,
  1, 1, 1, 1, 1, 1, 1, 1, 1, 1, 1, 1, 1, 1, 1, 1, 1, 1, 1, 1, 1, 1, 1, 1,
  1, 1, 1, 1, 1, 1, 1, 1, 1, 1, 1, 1, 1, 1, 1, 1, 1, 1, 1, 1, 1, 1, 1, 1,
  1, 1, 1, 1, 1, 1, 1, 1, 1, 1, 1, 1, 1, 1, 1, 1, 1, 1, 1, 1, 1, 1, 1, 1,
  1, 1, 1, 1, 1, 1, 1, 1, 1, 1, 1, 1, 1, 1, 1, 1]

def isCharEscaped (c : UInt8) : Bool := charEscapedTable.getD c.toNat 0 ≠ 0

/-- `s_hexdigits`. -/
def hexdigits : List UInt8 :=
  [0x30, 0x31, 0x32, 0x33, 0x34, 0x35, 0x36, 0x37, 0x38, 0x39, 0x61, 0x62, 0x63, 0x64, 0x65, 0x66]

/-- The body of the loop in `write_quoted_data`. -/
def writeQuotedByte (c : UInt8) : List UInt8 :=
  if isCharEscaped c then
    [0x5c, hexdigits.getD (c.toNat >>> 4) 0, hexdigits.getD (c.toNat &&& 0xf) 0]
  else [c]

/-- `write_quoted_data`, from the opening quote on. -/
def writeQuotedData (data : List UInt8) : List UInt8 :=
  [0x22] ++ data.flatMap writeQuotedByte ++ [0x22]

/-! ## Reading -/

/-- The cases of the switch in `copy_string_contents`. -/
def escapedByte (c : UInt8) : Option UInt8 :=
  if c = 0x6e then some 0x0a
  else if c = 0x74 then some 0x09
  else if c = 0x5c then some 0x5c
  else if c = 0x27 then some 0x27
  else if c = 0x22 then some 0x22
  else none

/-- `(hi << 4) | lo` in its default case; `none` if the assertion there fails. -/
def hexByte (c d : UInt8) : Option UInt8 := do
  let hi ← Literal.parseHexdigit c
  let lo ← Literal.parseHexdigit d
  some (UInt8.ofNat (hi <<< 4 ||| lo))

/-- The loop of `copy_string_contents`: `n` is `end - src`, the bytes start at `src` and go on
beyond `end`; a read beyond the bytes is `none`. -/
def copyContents : Nat → List UInt8 → Option (List UInt8)
  | 0, _ => some []
  | _ + 1, [] => none
  | n + 1, c :: src =>
    if c = 0x5c then
      match src with
      | [] => none
      | e :: src =>
        match escapedByte e with
        | some c => (copyContents (n - 1) src).map (c :: ·)
        | none =>
          match src with
          | [] => none
          | d :: src =>
            match hexByte e d with
            | some c => (copyContents (n - 2) src).map (c :: ·)
            | none => none
    else (copyContents n src).map (c :: ·)
termination_by structural _ src => src

/-- `copy_string_contents`. -/
def copyStringContents (text : List UInt8) : Option (List UInt8) :=
  copyContents (text.length - 2) (text.drop 1)

/-- The loop of `dup_text_list` that adds up `total_size`. -/
def totalSize (textList : List (List UInt8)) : Nat :=
  textList.foldl (fun totalSize text =>
    totalSize + if text.length - 1 > 1 then text.length - 1 - 1 else 0) 0

/-- The loop of `dup_text_list` that copies. -/
def copyTexts : List (List UInt8) → Option (List UInt8)
  | [] => some []
  | text :: textList => do
    let data ← copyStringContents text
    let rest ← copyTexts textList
    some (data ++ rest)

/-- `dup_text_list`: the bytes that are allocated, and the data. -/
def dupTextList (textList : List (List UInt8)) : Option (Nat × List UInt8) :=
  (copyTexts textList).map (totalSize textList, ·)

/-! ## The rule for texts -/

/-- `[^"\\\x00-\x1f\x7f]`. -/
def isPlain (c : UInt8) : Bool := c ≠ 0x22 && c ≠ 0x5c && 0x1f < c && c ≠ 0x7f

/-- `escape`. -/
def isEscape (c : UInt8) : Bool :=
  c = 0x6e || c = 0x74 || c = 0x5c || c = 0x27 || c = 0x22

/-- `hexdigit`. -/
def isHexdigit (c : UInt8) : Bool := (Literal.hexdigit c).isSome

/-- `character*`. -/
inductive Characters : List UInt8 → Prop
  | nil : Characters []
  | plain {c : UInt8} {cs : List UInt8} (hc : isPlain c) (hcs : Characters cs) :
      Characters (c :: cs)
  | escape {e : UInt8} {cs : List UInt8} (he : isEscape e) (hcs : Characters cs) :
      Characters (0x5c :: e :: cs)
  | hex {hi lo : UInt8} {cs : List UInt8} (hhi : isHexdigit hi) (hlo : isHexdigit lo)
      (hcs : Characters cs) : Characters (0x5c :: hi :: lo :: cs)

/-- `text`. -/
def IsText (text : List UInt8) : Prop :=
  ∃ cs, Characters cs ∧ text = 0x22 :: (cs ++ [0x22])

/-! ## The machine -/

/-- Where the machine leaves the states of a text. -/
inductive Exit where
  | byte (c : UInt8)
  | badText
  deriving DecidableEq

/-- The states at which a text is scanned, under the names of their labels; the first three are
at the start of the rules, and a state with several instructions is several states. -/
inductive TextState where
  | token | fill | first
  | yy52 | yy52Marker | yy52Read
  | yy82 | yy82Fill | yy82Read
  | yy84
  | yy85 | yy85Return
  | yy87 | yy87Fill | yy87Read
  | yy148 | yy148Fill | yy148Read
  | exit (e : Exit)
  deriving DecidableEq

namespace TextState

/-- The tests at `yy83`; `yybm[c] & 64` is set for the plain characters. -/
def yy83 (c : UInt8) : TextState :=
  if isPlain c then yy82
  else if c ≤ 0x1f then yy84
  else if c ≤ 0x22 then yy85
  else if c ≤ 0x5c then yy87
  else yy84

/-- The tests at `yy52`. -/
def yy52Test (c : UInt8) : TextState :=
  if c ≤ 0x1f then exit .badText
  else if c ≠ 0x7f then yy83 c
  else exit .badText

/-- The tests at `yy87`, after a backslash. -/
def yy87Test (c : UInt8) : TextState :=
  if c ≤ 0x46 then
    if c ≤ 0x27 then
      if c = 0x22 then yy82
      else if c ≤ 0x26 then yy84
      else yy82
    else if c ≤ 0x2f then yy84
    else if c ≤ 0x39 then yy148
    else if c ≤ 0x40 then yy84
    else yy148
  else if c ≤ 0x66 then
    if c = 0x5c then yy82
    else if c ≤ 0x60 then yy84
    else yy148
  else if c ≤ 0x6e then
    if c ≤ 0x6d then yy84
    else yy82
  else if c = 0x74 then yy82
  else yy84

/-- The tests at `yy148`, after a backslash and a digit. -/
def yy148Test (c : UInt8) : TextState :=
  if c ≤ 0x40 then
    if c ≤ 0x2f then yy84
    else if c ≤ 0x39 then yy82
    else yy84
  else if c ≤ 0x46 then yy82
  else if c ≤ 0x60 then yy84
  else if c ≤ 0x66 then yy82
  else yy84

end TextState

open Scanner in
/-- The instructions of the states; `outside` are those of the states that are left out. -/
def textCode {τ : Type} (text : τ) (outside : Exit → Scanner.Instr TextState τ) :
    TextState → Scanner.Instr TextState τ
  | .token => .start .fill
  | .fill => .need 20 .first
  | .first => .peek fun c => if c = 0x22 then .yy52 else .exit (.byte c)
  | .yy52 => .advance .yy52Marker
  | .yy52Marker => .mark .yy52Read
  | .yy52Read => .peek TextState.yy52Test
  | .yy82 => .advance .yy82Fill
  | .yy82Fill => .need 1 .yy82Read
  | .yy82Read => .peek TextState.yy83
  | .yy84 => .back (.exit .badText)
  | .yy85 => .advance .yy85Return
  | .yy85Return => .emit text .token
  | .yy87 => .advance .yy87Fill
  | .yy87Fill => .need 1 .yy87Read
  | .yy87Read => .peek TextState.yy87Test
  | .yy148 => .advance .yy148Fill
  | .yy148Fill => .need 1 .yy148Read
  | .yy148Read => .peek TextState.yy148Test
  | .exit e => outside e

end Text

end SexprWasm
