import SexprWasm.Text.QuotedData
import SexprWasm.Text.LexerSound
import SexprWasm.Literal.IntegerSound

/-!
# Quoted data is read back

A written byte is a plain character or a backslash and two digits, which
the rule for texts and `copyContents` take apart in the same way, so that
what follows does not matter (`characters_write`, `copyContents_write`).
The machine scans the characters of a text one by one up to the closing
quote (`emits_characters`).
-/

namespace SexprWasm

namespace Text

open Scanner

/-! ## Bytes -/

theorem forall_byte {P : UInt8 → Prop} (h : ∀ n < 256, P (UInt8.ofNat n)) (c : UInt8) : P c := by
  have hc := h c.toNat c.toNat_lt
  rwa [UInt8.ofNat_toNat] at hc

/-- The hexadecimal digits of the grammar. -/
def hexdigitChars : List UInt8 := hexdigits ++ [0x41, 0x42, 0x43, 0x44, 0x45, 0x46]

/-- What the tables of the writer and the classes of the grammar say of one byte. -/
theorem tables_byte (c : UInt8) :
    (isCharEscaped c = false → isPlain c = true) ∧ (isHexdigit c = true → c ∈ hexdigitChars) ∧
      isHexdigit (hexdigits.getD (c.toNat >>> 4) 0) = true ∧
      isHexdigit (hexdigits.getD (c.toNat &&& 0xf) 0) = true ∧
      hexByte (hexdigits.getD (c.toNat >>> 4) 0) (hexdigits.getD (c.toNat &&& 0xf) 0) = some c :=
  forall_byte (P := fun c =>
    (isCharEscaped c = false → isPlain c = true) ∧ (isHexdigit c = true → c ∈ hexdigitChars) ∧
      isHexdigit (hexdigits.getD (c.toNat >>> 4) 0) = true ∧
      isHexdigit (hexdigits.getD (c.toNat &&& 0xf) 0) = true ∧
      hexByte (hexdigits.getD (c.toNat >>> 4) 0) (hexdigits.getD (c.toNat &&& 0xf) 0) = some c)
    (by decide +kernel) c

theorem isPlain_of_not_escaped {c : UInt8} (h : isCharEscaped c = false) : isPlain c = true :=
  (tables_byte c).1 h

/-- The two digits of a byte are read back as that byte. -/
theorem hexdigits_byte (c : UInt8) :
    ∃ hi lo, hexdigits.getD (c.toNat >>> 4) 0 = hi ∧ hexdigits.getD (c.toNat &&& 0xf) 0 = lo ∧
      isHexdigit hi = true ∧ isHexdigit lo = true ∧ hexByte hi lo = some c :=
  ⟨_, _, rfl, rfl, (tables_byte c).2.2⟩

theorem mem_hexdigitChars {c : UInt8} (h : isHexdigit c = true) : c ∈ hexdigitChars :=
  (tables_byte c).2.1 h

theorem escape_cases {c : UInt8} (h : isEscape c = true) :
    c = 0x6e ∨ c = 0x74 ∨ c = 0x5c ∨ c = 0x27 ∨ c = 0x22 := by
  simpa [isEscape, or_assoc] using h

theorem escapedByte_of_hexdigit {c : UInt8} (h : isHexdigit c = true) : escapedByte c = none := by
  have hchars : hexdigitChars.all (fun c => escapedByte c = none) = true := by rfl
  exact of_decide_eq_true (List.all_eq_true.mp hchars c (mem_hexdigitChars h))

theorem isSome_escapedByte {c : UInt8} (h : isEscape c = true) : (escapedByte c).isSome = true := by
  rcases escape_cases h with rfl | rfl | rfl | rfl | rfl <;> rfl

theorem isSome_hexByte {hi lo : UInt8} (hhi : isHexdigit hi = true) (hlo : isHexdigit lo = true) :
    (hexByte hi lo).isSome = true := by
  obtain ⟨v, hv⟩ := Option.isSome_iff_exists.mp hhi
  obtain ⟨w, hw⟩ := Option.isSome_iff_exists.mp hlo
  simp [hexByte, (Literal.hexdigit_eq_some.mp hv).1, (Literal.hexdigit_eq_some.mp hw).1]

/-! ## The characters of a text -/

theorem characters_append {cs cs' : List UInt8} (h : Characters cs) (h' : Characters cs') :
    Characters (cs ++ cs') := by
  induction h with
  | nil => exact h'
  | plain hc _ ih => exact .plain hc ih
  | escape he _ ih => exact .escape he ih
  | hex hhi hlo _ ih => exact .hex hhi hlo ih

theorem characters_writeQuotedByte (c : UInt8) : Characters (writeQuotedByte c) := by
  unfold writeQuotedByte
  split_ifs with h
  · obtain ⟨hi, lo, heq, heq', hhi, hlo, -⟩ := hexdigits_byte c
    rw [heq, heq']
    exact .hex hhi hlo .nil
  · exact .plain (isPlain_of_not_escaped (Bool.eq_false_iff.mpr h)) .nil

theorem characters_write (data : List UInt8) : Characters (data.flatMap writeQuotedByte) := by
  induction data with
  | nil => exact .nil
  | cons c data ih => exact characters_append (characters_writeQuotedByte c) ih

theorem isText_writeQuotedData (data : List UInt8) : IsText (writeQuotedData data) :=
  ⟨_, characters_write data, by simp [writeQuotedData]⟩

/-! ## Copying -/

section copy

variable {n : Nat} {src : List UInt8}

theorem copyContents_plain {c : UInt8} (h : c ≠ 0x5c) :
    copyContents (n + 1) (c :: src) = (copyContents n src).map (c :: ·) := by
  rw [copyContents.eq_def]
  simp [h]

theorem copyContents_escape {e c : UInt8} (h : escapedByte e = some c) :
    copyContents (n + 2) (0x5c :: e :: src) = (copyContents n src).map (c :: ·) := by
  rw [copyContents.eq_def]
  simp [h]

theorem copyContents_hex {hi lo c : UInt8} (hhi : escapedByte hi = none)
    (h : hexByte hi lo = some c) :
    copyContents (n + 3) (0x5c :: hi :: lo :: src) = (copyContents n src).map (c :: ·) := by
  rw [copyContents.eq_def]
  simp [hhi, h]

end copy

/-- The contents of a text are copied up to the closing quote, and are no longer than it. -/
theorem copyContents_characters {cs : List UInt8} (h : Characters cs) (rest : List UInt8) :
    ∃ data, copyContents cs.length (cs ++ rest) = some data ∧ data.length ≤ cs.length := by
  induction h with
  | nil => exact ⟨[], by simp [copyContents], le_rfl⟩
  | @plain c cs hc _ ih =>
    obtain ⟨data, hdata, hle⟩ := ih
    have hne : c ≠ 0x5c := by
      rintro rfl
      simp [isPlain] at hc
    refine ⟨c :: data, ?_, Nat.succ_le_succ hle⟩
    rw [List.length_cons, List.cons_append, copyContents_plain hne, hdata, Option.map_some]
  | escape he _ ih =>
    obtain ⟨data, hdata, hle⟩ := ih
    obtain ⟨c, hc⟩ := Option.isSome_iff_exists.mp (isSome_escapedByte he)
    refine ⟨c :: data, ?_, ?_⟩
    · simp only [List.length_cons, List.cons_append]
      rw [copyContents_escape hc, hdata, Option.map_some]
    · simp only [List.length_cons]
      omega
  | hex hhi hlo _ ih =>
    obtain ⟨data, hdata, hle⟩ := ih
    obtain ⟨c, hc⟩ := Option.isSome_iff_exists.mp (isSome_hexByte hhi hlo)
    refine ⟨c :: data, ?_, ?_⟩
    · simp only [List.length_cons, List.cons_append]
      rw [copyContents_hex (escapedByte_of_hexdigit hhi) hc, hdata, Option.map_some]
    · simp only [List.length_cons]
      omega

theorem copyContents_write (data rest : List UInt8) :
    copyContents (data.flatMap writeQuotedByte).length (data.flatMap writeQuotedByte ++ rest) =
      some data := by
  induction data with
  | nil => exact copyContents.eq_1 _
  | cons c data ih =>
    rw [List.flatMap_cons, writeQuotedByte]
    split_ifs with h
    · obtain ⟨hi, lo, heq, heq', hhi, -, hc⟩ := hexdigits_byte c
      rw [heq, heq', List.length_append, Nat.add_comm]
      simp only [List.cons_append, List.nil_append, List.length_cons, List.length_nil]
      rw [copyContents_hex (escapedByte_of_hexdigit hhi) hc, ih, Option.map_some]
    · have hplain := isPlain_of_not_escaped (Bool.eq_false_iff.mpr h)
      have hne : c ≠ 0x5c := by
        rintro rfl
        simp [isPlain] at hplain
      rw [List.length_append, Nat.add_comm]
      simp only [List.cons_append, List.nil_append, List.length_cons, List.length_nil]
      rw [copyContents_plain hne, ih, Option.map_some]

theorem copyStringContents_text (cs : List UInt8) :
    copyStringContents (0x22 :: (cs ++ [0x22])) = copyContents cs.length (cs ++ [0x22]) := by
  rw [copyStringContents, List.drop_one, List.tail_cons]
  simp

theorem copyStringContents_write (data : List UInt8) :
    copyStringContents (writeQuotedData data) = some data := by
  rw [writeQuotedData, List.append_assoc, List.singleton_append, copyStringContents_text]
  exact copyContents_write data _

/-! ## Lists of texts -/

theorem copyStringContents_isText {text : List UInt8} (h : IsText text) :
    ∃ data, copyStringContents text = some data ∧ data.length ≤ text.length - 2 := by
  obtain ⟨cs, hcs, rfl⟩ := h
  obtain ⟨data, hdata, hle⟩ := copyContents_characters hcs [0x22]
  exact ⟨data, (copyStringContents_text cs).trans hdata, by simpa using hle⟩

theorem totalSize_cons (text : List UInt8) (textList : List (List UInt8)) :
    totalSize (text :: textList) = text.length - 2 + totalSize textList := by
  have hfold : ∀ (texts : List (List UInt8)) (n : Nat),
      texts.foldl (fun totalSize text =>
        totalSize + if text.length - 1 > 1 then text.length - 1 - 1 else 0) n =
        n + totalSize texts := by
    intro texts
    induction texts with
    | nil => exact fun n => rfl
    | cons text texts ih =>
      intro n
      rw [totalSize, List.foldl_cons, List.foldl_cons, ih, ih]
      omega
  rw [totalSize, List.foldl_cons, hfold]
  split_ifs <;> omega

theorem copyTexts_append {texts texts' : List (List UInt8)} {data data' : List UInt8}
    (h : copyTexts texts = some data) (h' : copyTexts texts' = some data') :
    copyTexts (texts ++ texts') = some (data ++ data') := by
  induction texts generalizing data with
  | nil =>
    cases h
    exact h'
  | cons text texts ih =>
    simp only [copyTexts, Option.bind_eq_bind, Option.bind_eq_some_iff, Option.some.injEq] at h
    obtain ⟨d, hd, rest, hrest, rfl⟩ := h
    rw [List.cons_append, copyTexts, hd, ih hrest, List.append_assoc]
    rfl

/-- Texts are copied into the bytes that were allocated for them. -/
theorem copyTexts_isText {texts : List (List UInt8)} (h : ∀ text ∈ texts, IsText text) :
    ∃ data, copyTexts texts = some data ∧ data.length ≤ totalSize texts := by
  induction texts with
  | nil => exact ⟨[], rfl, le_rfl⟩
  | cons text texts ih =>
    rw [List.forall_mem_cons] at h
    obtain ⟨d, hd, hdle⟩ := copyStringContents_isText h.1
    obtain ⟨rest, hrest, hle⟩ := ih h.2
    refine ⟨d ++ rest, ?_, ?_⟩
    · rw [copyTexts, hd, hrest]
      rfl
    · rw [totalSize_cons, List.length_append]
      omega

/-! ## The machine -/

namespace TextState

theorem yy83_plain {c : UInt8} (h : isPlain c = true) : yy83 c = yy82 := if_pos h

theorem yy83_quote : yy83 0x22 = yy85 := by decide

theorem yy83_backslash : yy83 0x5c = yy87 := by decide

theorem yy87Test_escape {c : UInt8} (h : isEscape c = true) : yy87Test c = yy82 := by
  rcases escape_cases h with rfl | rfl | rfl | rfl | rfl <;> rfl

theorem yy87Test_hexdigit {c : UInt8} (h : isHexdigit c = true) : yy87Test c = yy148 := by
  have hchars : hexdigitChars.all (fun c => yy87Test c = yy148) = true := by rfl
  exact of_decide_eq_true (List.all_eq_true.mp hchars c (mem_hexdigitChars h))

theorem yy148Test_hexdigit {c : UInt8} (h : isHexdigit c = true) : yy148Test c = yy82 := by
  have hchars : hexdigitChars.all (fun c => yy148Test c = yy82) = true := by rfl
  exact of_decide_eq_true (List.all_eq_true.mp hchars c (mem_hexdigitChars h))

theorem yy52Test_eq {c : UInt8} (h : c = 0x22 ∨ c = 0x5c ∨ isPlain c = true) :
    yy52Test c = yy83 c := by
  rcases h with rfl | rfl | h
  · rfl
  · rfl
  · simp only [isPlain, Bool.and_eq_true, decide_eq_true_eq] at h
    obtain ⟨⟨-, hlt⟩, hne⟩ := h
    rw [yy52Test, if_neg (UInt8.not_le.mpr hlt), if_pos hne]

end TextState

section machine

variable {τ : Type} {text : τ} {outside : Exit → Scanner.Instr TextState τ} {data rest : List UInt8}

/-- The machine over the source and the zeros that end it. -/
def textStep (text : τ) (outside : Exit → Scanner.Instr TextState τ) (data : List UInt8) :
    Head TextState → Result (Head TextState) (Lexeme τ) :=
  step (textCode text outside) (sourceByte data) (data.length + yyMaxFill)

theorem sourceByte_of_drop {i : Nat} {c : UInt8} {cs : List UInt8} (h : data.drop i = c :: cs) :
    sourceByte data i = c ∧ data.drop (i + 1) = cs ∧ i < data.length := by
  have hlt : i < data.length := by
    by_contra hle
    rw [List.drop_eq_nil_of_le (Nat.not_lt.mp hle)] at h
    cases h
  rw [List.drop_eq_getElem_cons hlt, List.cons.injEq] at h
  refine ⟨?_, h.2, hlt⟩
  rw [sourceByte, List.getD_eq_getElem?_getD, List.getElem?_eq_getElem hlt, Option.getD_some, h.1]

/-- The machine has gone `n` bytes on from `h` to `h'`, which it has asked for. -/
structure Scanned (h h' : Head TextState) (n : Nat) : Prop where
  token : h'.token = h.token
  cursor : h'.cursor = h.cursor + n
  asked : h'.cursor < h'.asked
  line : h'.line = h.line
  lineStart : h'.lineStart = h.lineStart

theorem Scanned.trans {h h₁ h' : Head TextState} {m n : Nat} (hs : Scanned h h₁ m)
    (hs' : Scanned h₁ h' n) : Scanned h h' (m + n) where
  token := hs'.token.trans hs.token
  cursor := by rw [hs'.cursor, hs.cursor, Nat.add_assoc]
  asked := hs'.asked
  line := hs'.line.trans hs.line
  lineStart := hs'.lineStart.trans hs.lineStart

variable (text outside) in
/-- `++lexer->cursor; if (lexer->limit <= lexer->cursor) FILL(1); yych = *lexer->cursor;`, and
the tests on `yych`. -/
theorem emits_advance {h : Head TextState} {state fill read : TextState}
    {test : UInt8 → TextState} (hstate : h.state = state)
    (hadvance : textCode text outside state = .advance fill)
    (hfill : textCode text outside fill = .need 1 read)
    (hread : textCode text outside read = .peek test)
    (hasked : h.cursor < h.asked) (hlt : h.cursor < data.length) :
    ∃ h', Emits (textStep text outside data) h [] h' ∧ Scanned h h' 1 ∧
      h'.state = test (sourceByte data h'.cursor) := by
  have hroom : h.cursor + 1 + 1 ≤ data.length + yyMaxFill := by
    unfold yyMaxFill
    omega
  refine ⟨{ h with
    state := test (sourceByte data (h.cursor + 1))
    cursor := h.cursor + 1
    asked := max h.asked (h.cursor + 1 + 1) }, ?_, ⟨rfl, rfl, ?_, rfl, rfl⟩, rfl⟩
  · refine .silent { h with state := fill, cursor := h.cursor + 1 } ?_ ?_
    · simp only [textStep, step, hstate, hadvance, if_pos hasked]
    refine .silent { h with
      state := read, cursor := h.cursor + 1, asked := max h.asked (h.cursor + 1 + 1) } ?_ ?_
    · simp only [textStep, step, hfill, if_pos hroom]
    refine .silent _ ?_ (.refl _)
    simp only [textStep, step, hread]
    rw [if_pos (by omega)]
  · dsimp only
    omega

variable (text outside) in
/-- From the first character on the machine comes to the closing quote. -/
theorem emits_characters {cs : List UInt8} (hcs : Characters cs) {h : Head TextState}
    (hdata : data.drop h.cursor = cs ++ 0x22 :: rest) (hasked : h.cursor < h.asked)
    (hstate : h.state = .yy83 (sourceByte data h.cursor)) :
    ∃ h', Emits (textStep text outside data) h [] h' ∧ Scanned h h' cs.length ∧
      h'.state = .yy85 ∧ h'.cursor < data.length := by
  induction hcs generalizing h with
  | nil =>
    obtain ⟨hbyte, -, hlt⟩ := sourceByte_of_drop hdata
    rw [hbyte, TextState.yy83_quote] at hstate
    exact ⟨h, .refl h, ⟨rfl, rfl, hasked, rfl, rfl⟩, hstate, hlt⟩
  | plain hc _ ih =>
    obtain ⟨hbyte, hnext, hlt⟩ := sourceByte_of_drop hdata
    rw [hbyte, TextState.yy83_plain hc] at hstate
    obtain ⟨h₁, he₁, hs₁, hstate₁⟩ := emits_advance text outside hstate rfl rfl rfl hasked hlt
    obtain ⟨h', he', hs', hend⟩ := ih (hs₁.cursor ▸ hnext) hs₁.asked hstate₁
    exact ⟨h', he₁.trans he', (Nat.add_comm _ _ ▸ hs₁.trans hs' :), hend⟩
  | escape he _ ih =>
    obtain ⟨hbyte, hnext, hlt⟩ := sourceByte_of_drop hdata
    rw [hbyte, TextState.yy83_backslash] at hstate
    obtain ⟨h₁, he₁, hs₁, hstate₁⟩ := emits_advance text outside hstate rfl rfl rfl hasked hlt
    rw [← hs₁.cursor] at hnext
    obtain ⟨hbyte₁, hnext₁, hlt₁⟩ := sourceByte_of_drop hnext
    rw [hbyte₁, TextState.yy87Test_escape he] at hstate₁
    obtain ⟨h₂, he₂, hs₂, hstate₂⟩ := emits_advance text outside hstate₁ rfl rfl rfl hs₁.asked hlt₁
    obtain ⟨h', he', hs', hend⟩ := ih (hs₂.cursor ▸ hnext₁) hs₂.asked hstate₂
    have hs := (hs₁.trans hs₂).trans hs'
    rw [Nat.add_comm] at hs
    exact ⟨h', (he₁.trans he₂).trans he', hs, hend⟩
  | hex hhi hlo _ ih =>
    obtain ⟨hbyte, hnext, hlt⟩ := sourceByte_of_drop hdata
    rw [hbyte, TextState.yy83_backslash] at hstate
    obtain ⟨h₁, he₁, hs₁, hstate₁⟩ := emits_advance text outside hstate rfl rfl rfl hasked hlt
    rw [← hs₁.cursor] at hnext
    obtain ⟨hbyte₁, hnext₁, hlt₁⟩ := sourceByte_of_drop hnext
    rw [hbyte₁, TextState.yy87Test_hexdigit hhi] at hstate₁
    obtain ⟨h₂, he₂, hs₂, hstate₂⟩ := emits_advance text outside hstate₁ rfl rfl rfl hs₁.asked hlt₁
    rw [← hs₂.cursor] at hnext₁
    obtain ⟨hbyte₂, hnext₂, hlt₂⟩ := sourceByte_of_drop hnext₁
    rw [hbyte₂, TextState.yy148Test_hexdigit hlo] at hstate₂
    obtain ⟨h₃, he₃, hs₃, hstate₃⟩ := emits_advance text outside hstate₂ rfl rfl rfl hs₂.asked hlt₂
    obtain ⟨h', he', hs', hend⟩ := ih (hs₃.cursor ▸ hnext₂) hs₃.asked hstate₃
    have hs := ((hs₁.trans hs₂).trans hs₃).trans hs'
    rw [Nat.add_comm] at hs
    exact ⟨h', ((he₁.trans he₂).trans he₃).trans he', hs, hend⟩

/-- What follows the opening quote. -/
theorem head_characters {cs : List UInt8} (hcs : Characters cs) (rest : List UInt8) :
    ∃ c tail, cs ++ 0x22 :: rest = c :: tail ∧ (c = 0x22 ∨ c = 0x5c ∨ isPlain c = true) := by
  cases hcs with
  | nil => exact ⟨_, _, rfl, .inl rfl⟩
  | plain hc => exact ⟨_, _, rfl, .inr (.inr hc)⟩
  | escape => exact ⟨_, _, rfl, .inr (.inl rfl)⟩
  | hex => exact ⟨_, _, rfl, .inr (.inl rfl)⟩

variable (text outside) in
/-- The start of the rules, at a quote. -/
theorem emits_quote {cs : List UInt8} {h : Head TextState} (hstate : h.state = .token)
    (hdata : data.drop h.cursor = 0x22 :: cs) :
    ∃ h', Emits (textStep text outside data) h [] h' ∧
      Scanned { h with token := h.cursor } h' 1 ∧
      h'.state = .yy52Test (sourceByte data h'.cursor) := by
  obtain ⟨hbyte, -, hlt⟩ := sourceByte_of_drop hdata
  have hroom : h.cursor + 20 ≤ data.length + yyMaxFill := by
    unfold yyMaxFill
    omega
  have hasked : h.cursor < max h.asked (h.cursor + 20) := by omega
  have hasked' : h.cursor + 1 < max h.asked (h.cursor + 20) := by omega
  let h₁ : Head TextState := { h with
    state := .first, token := h.cursor, asked := max h.asked (h.cursor + 20) }
  let h₂ : Head TextState := { h₁ with
    state := .yy52Read, cursor := h.cursor + 1, marker := h.cursor + 1 }
  refine ⟨{ h₂ with state := .yy52Test (sourceByte data (h.cursor + 1)) }, ?_,
    ⟨rfl, rfl, hasked', rfl, rfl⟩, rfl⟩
  refine .silent { h with state := .fill, token := h.cursor } ?_ (.silent h₁ ?_
    (.silent { h₁ with state := .yy52 } ?_
      (.silent { h₁ with state := .yy52Marker, cursor := h.cursor + 1 } ?_
        (.silent h₂ ?_ (.silent _ ?_ (.refl _))))))
  · simp only [textStep, step, hstate, textCode]
  · simp only [textStep, step, textCode, if_pos hroom, h₁]
  · simp only [textStep, step, textCode, h₁, if_pos hasked, hbyte, if_true]
  · simp only [textStep, step, textCode, h₁, if_pos hasked]
  · simp only [textStep, step, textCode, h₁, h₂]
  · simp only [textStep, step, textCode, h₁, h₂, if_pos hasked']

/-- A text that stands at the cursor is one lexeme, and the machine is behind it then. -/
theorem emits_isText {t : List UInt8} (ht : IsText t) {h : Head TextState}
    (hstate : h.state = .token) (hdata : data.drop h.cursor = t ++ rest) :
    ∃ h', Emits (textStep text outside data) h [h'.lexeme (sourceByte data) (some text)] h' ∧
      h'.state = .token ∧ h'.token = h.cursor ∧ h'.cursor = h.cursor + t.length := by
  obtain ⟨cs, hcs, rfl⟩ := ht
  rw [List.cons_append, List.append_assoc, List.singleton_append] at hdata
  obtain ⟨h₁, he₁, hs₁, hstate₁⟩ := emits_quote text outside hstate hdata
  have hdata₁ : data.drop h₁.cursor = cs ++ 0x22 :: rest := by
    rw [hs₁.cursor]
    exact (sourceByte_of_drop hdata).2.1
  obtain ⟨c, tail, hcons, hc⟩ := head_characters hcs rest
  rw [(sourceByte_of_drop (hdata₁.trans hcons)).1, TextState.yy52Test_eq hc,
    ← (sourceByte_of_drop (hdata₁.trans hcons)).1] at hstate₁
  obtain ⟨h₂, he₂, hs₂, hstate₂, hlt⟩ := emits_characters text outside hcs hdata₁
    hs₁.asked hstate₁
  have htoken : h₂.token = h.cursor := hs₂.token.trans hs₁.token
  have hcursor : h₂.cursor + 1 = h.cursor + (0x22 :: (cs ++ [0x22])).length := by
    have h₁cursor : h₁.cursor = h.cursor + 1 := hs₁.cursor
    rw [hs₂.cursor, h₁cursor, List.length_cons, List.length_append, List.length_singleton]
    omega
  refine ⟨{ h₂ with state := .token, cursor := h₂.cursor + 1 }, ?_, rfl, htoken, hcursor⟩
  refine (he₁.trans he₂).trans
    (.silent { h₂ with state := .yy85Return, cursor := h₂.cursor + 1 } ?_ ?_)
  · simp only [textStep, step, hstate₂, textCode, if_pos hs₂.asked]
  · exact .next (o := some _) rfl (.refl _)

end machine

/-- Written data is one text of the lexer, whatever follows; it is copied back, alone and among
other texts, into the bytes that were allocated. -/
theorem writeQuotedData_codec (data : List UInt8) :
    (∀ (τ : Type) (text : τ) (outside : Exit → Scanner.Instr TextState τ) (source rest : List UInt8)
      (h : Head TextState), h.state = .token → source.drop h.cursor = writeQuotedData data ++ rest →
      ∃ h', Emits (textStep text outside source) h
          [h'.lexeme (sourceByte source) (some text)] h' ∧
        h'.state = .token ∧ h'.token = h.cursor ∧
        h'.cursor = h.cursor + (writeQuotedData data).length) ∧
    copyStringContents (writeQuotedData data) = some data ∧
    ∀ before after : List (List UInt8), (∀ text ∈ before ++ after, IsText text) →
      ∃ dataBefore dataAfter, copyTexts before = some dataBefore ∧
        copyTexts after = some dataAfter ∧
        dupTextList (before ++ writeQuotedData data :: after) =
          some (totalSize (before ++ writeQuotedData data :: after),
            dataBefore ++ (data ++ dataAfter)) ∧
        (dataBefore ++ (data ++ dataAfter)).length ≤
          totalSize (before ++ writeQuotedData data :: after) := by
  have htext := isText_writeQuotedData data
  refine ⟨fun τ text outside source rest h hstate hsource => emits_isText htext hstate hsource,
    copyStringContents_write data, fun before after htexts => ?_⟩
  rw [List.forall_mem_append] at htexts
  obtain ⟨dataBefore, hbefore, -⟩ := copyTexts_isText htexts.1
  obtain ⟨dataAfter, hafter, -⟩ := copyTexts_isText htexts.2
  have hrest : copyTexts (writeQuotedData data :: after) = some (data ++ dataAfter) := by
    rw [copyTexts, copyStringContents_write, hafter]
    rfl
  have hcopy := copyTexts_append hbefore hrest
  have hall : ∀ text ∈ before ++ writeQuotedData data :: after, IsText text :=
    List.forall_mem_append.mpr ⟨htexts.1, List.forall_mem_cons.mpr ⟨htext, htexts.2⟩⟩
  obtain ⟨all, hall, hle⟩ := copyTexts_isText hall
  rw [hcopy, Option.some.injEq] at hall
  subst hall
  exact ⟨dataBefore, dataAfter, hbefore, hafter, by rw [dupTextList, hcopy, Option.map_some], hle⟩

/-- A quote before a letter that is a digit, `\22a`, and a text `"b"` behind it. -/
theorem writeQuotedData_codec_quote :
    copyStringContents (writeQuotedData [0x22, 0x61]) = some [0x22, 0x61] ∧
      ∃ total, dupTextList [writeQuotedData [0x22, 0x61], [0x22, 0x62, 0x22]] =
        some (total, [0x22, 0x61, 0x62]) := by
  obtain ⟨-, hcopy, hlists⟩ := writeQuotedData_codec [0x22, 0x61]
  have htext : IsText [0x22, 0x62, 0x22] := ⟨[0x62], .plain (by decide) .nil, rfl⟩
  obtain ⟨_, _, hbefore, hafter, hdup, -⟩ := hlists [] [[0x22, 0x62, 0x22]] (by simpa using htext)
  cases hbefore
  have hcontents : copyTexts [[0x22, 0x62, 0x22]] = some [0x62] := by decide
  rw [hcontents] at hafter
  cases hafter
  exact ⟨hcopy, _, hdup⟩

end Text

end SexprWasm
