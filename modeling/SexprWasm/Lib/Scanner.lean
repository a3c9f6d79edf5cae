import Mathlib.Data.List.Basic

/-!
# Scanners over a stream of bytes

A scanner as a generator writes it: a program that moves a cursor over
bytes, remembers where the lexeme began and one place to go back to, and
asks for bytes before it looks at them. `step` is its meaning over a
whole stream, by positions in the stream; it is stuck where the program
looks at a byte that it has not asked for.

A scanner that works in a buffer is a machine of its own. `run_eq` says
when it comes to the same lexemes: if each step from related states is
the same step.
-/

namespace SexprWasm

namespace Scanner

/-- What the program does next; `peek` looks at the byte at the cursor. -/
inductive Instr (σ τ : Type) where
  | start (next : σ)
  | need (n : Nat) (next : σ)
  | peek (next : UInt8 → σ)
  | advance (next : σ)
  | mark (next : σ)
  | back (next : σ)
  | newline (next : σ)
  | emit (kind : τ) (next : σ)

/-- A lexeme with its place; `none` is the end of the input. -/
structure Lexeme (τ : Type) where
  kind : Option τ
  line : Nat
  firstColumn : Int
  lastColumn : Int
  text : List UInt8
  deriving DecidableEq

/-- One step of a machine. -/
inductive Result (S ο : Type) where
  | next (s : S) (out : Option ο)
  | halt (out : ο)
  | stuck

section machines

variable {S T ο : Type} {step : S → Result S ο} {step' : T → Result T ο}

/-- The output of `k` steps, unless they get stuck. -/
def run (step : S → Result S ο) : Nat → S → Option (List ο)
  | 0, _ => some []
  | k + 1, s =>
    match step s with
    | .next s out => (run step k s).map (out.toList ++ ·)
    | .halt out => some [out]
    | .stuck => none

/-- The machine comes from `s` to `s'`, with this output on the way. -/
inductive Emits (step : S → Result S ο) : S → List ο → S → Prop
  | refl (s : S) : Emits step s [] s
  | next {s s₁ s' : S} {o : Option ο} {out : List ο} (hstep : step s = .next s₁ o)
      (rest : Emits step s₁ out s') : Emits step s (o.toList ++ out) s'

theorem Emits.silent {s s' : S} {out : List ο} (s₁ : S) (hstep : step s = .next s₁ none)
    (rest : Emits step s₁ out s') : Emits step s out s' := .next hstep rest

theorem Emits.trans {s s₁ s' : S} {out out' : List ο} (h : Emits step s out s₁)
    (h' : Emits step s₁ out' s') : Emits step s (out ++ out') s' := by
  induction h with
  | refl s => exact h'
  | next hstep rest ih => exact List.append_assoc .. ▸ .next hstep (ih h')

/-- The output of a run starts with what is emitted. -/
theorem Emits.run {s s' : S} {out : List ο} (h : Emits step s out s') :
    ∃ k, ∀ j, run step (k + j) s = (Scanner.run step j s').map (out ++ ·) := by
  induction h with
  | refl s => exact ⟨0, fun j => by simp⟩
  | next hstep rest ih =>
    obtain ⟨k, hk⟩ := ih
    refine ⟨k + 1, fun j => ?_⟩
    rw [Nat.add_right_comm, Scanner.run, hstep]
    simp [hk j, Function.comp_def]

/-- `C` holds before each of the first `k` steps. -/
def Always (step : S → Result S ο) (C : S → Prop) : Nat → S → Prop
  | 0, _ => True
  | k + 1, s => C s ∧ ∀ s' out, step s = .next s' out → Always step C k s'

/-- `r'` is the step `r`, to a related state. -/
def Matches (R : S → T → Prop) : Result S ο → Result T ο → Prop
  | .next s out, r' => ∃ t, r' = .next t out ∧ R s t
  | .halt out, r' => r' = .halt out
  | .stuck, _ => True

/-- Machines with matching steps have the same output. -/
theorem run_eq {R : S → T → Prop} {C : T → Prop}
    (hstep : ∀ s t, R s t → C t → Matches R (step s) (step' t)) {k : Nat} {s : S} {t : T}
    {out : List ο} (hR : R s t) (hC : Always step' C k t) (hrun : run step k s = some out) :
    run step' k t = some out := by
  induction k generalizing s t out with
  | zero => exact hrun
  | succ k ih =>
    obtain ⟨hc, hnext⟩ := hC
    have hm := hstep s t hR hc
    rw [run] at hrun ⊢
    cases hs : step s with
    | next s₁ o =>
      rw [hs] at hrun hm
      obtain ⟨t₁, ht, hR₁⟩ := hm
      obtain ⟨out₁, hrest, rfl⟩ := Option.map_eq_some_iff.mp hrun
      rw [ht]
      dsimp only
      rw [ih hR₁ (hnext t₁ o ht) hrest, Option.map_some]
    | halt o =>
      rw [hs] at hrun hm
      rw [show step' t = .halt o from hm]
      exact hrun
    | stuck =>
      rw [hs] at hrun
      cases hrun

end machines

/-! ## The meaning over a stream -/

section stream

variable {σ τ : Type}

/-- Where a scanner is in the stream; `asked` is the end of the bytes asked for. -/
structure Head (σ : Type) where
  state : σ
  token : Nat := 0
  cursor : Nat := 0
  marker : Nat := 0
  asked : Nat := 0
  line : Nat := 1
  lineStart : Nat := 0

/-- The bytes from `i` up to `j`. -/
def slice (bytes : Nat → UInt8) (i j : Nat) : List UInt8 :=
  (List.range (j - i)).map fun k => bytes (i + k)

theorem slice_congr {bytes bytes' : Nat → UInt8} {i i' j j' : Nat} (hlen : j - i = j' - i')
    (h : ∀ k < j - i, bytes (i + k) = bytes' (i' + k)) : slice bytes i j = slice bytes' i' j' := by
  rw [slice, slice, ← hlen]
  exact List.map_congr_left fun k hk => h k (List.mem_range.mp hk)

def Head.lexeme (bytes : Nat → UInt8) (kind : Option τ) (h : Head σ) : Lexeme τ where
  kind
  line := h.line
  firstColumn := h.token - h.lineStart + 1
  lastColumn := h.cursor - h.lineStart + 1
  text := slice bytes h.token h.cursor

/-- One step over the stream of the first `size` of `bytes`. The input is at its end where more
bytes are asked for than there are. -/
def step (code : σ → Instr σ τ) (bytes : Nat → UInt8) (size : Nat) (h : Head σ) :
    Result (Head σ) (Lexeme τ) :=
  match code h.state with
  | .start state => .next { h with state, token := h.cursor } none
  | .need n state =>
    if h.cursor + n ≤ size then
      .next { h with state, asked := max h.asked (h.cursor + n) } none
    else .halt (h.lexeme bytes none)
  | .peek next =>
    if h.cursor < h.asked then .next { h with state := next (bytes h.cursor) } none else .stuck
  | .advance state =>
    if h.cursor < h.asked then .next { h with state, cursor := h.cursor + 1 } none else .stuck
  | .mark state => .next { h with state, marker := h.cursor } none
  | .back state =>
    if h.token ≤ h.marker ∧ h.marker ≤ h.asked then
      .next { h with state, cursor := h.marker } none
    else .stuck
  | .newline state =>
    .next { h with state, line := h.line + 1, lineStart := h.cursor } none
  | .emit kind state => .next { h with state } (some (h.lexeme bytes (some kind)))

end stream

end Scanner

end SexprWasm
