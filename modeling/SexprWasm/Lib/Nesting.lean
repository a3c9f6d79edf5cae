import Mathlib.Data.List.Basic

/-!
# Bracketed words

Words over an alphabet whose letters are plain, open a bracket, close
one, or separate the two halves of an open bracket that may have two
halves. `Nested` is the grammar of the well-nested words; `nestRun`
recognises them with a stack that holds, for each open bracket, whether
it may still be separated (`nested_iff`).

`closesLast` only counts: it says that the first closing letter with no
bracket left to close is the last letter of the word.
-/

namespace SexprWasm

inductive Bracket
  | plain
  | opening (separable : Bool)
  | separator
  | closing
  deriving DecidableEq, Repr

section Nesting

variable {α : Type} (kind : α → Bracket)

inductive Nested : List α → Prop
  | nil : Nested []
  | plain {a : α} : kind a = .plain → Nested [a]
  | block {a b : α} {w : List α} {separable : Bool} : kind a = .opening separable → Nested w →
      kind b = .closing → Nested (a :: w ++ [b])
  | split {a s b : α} {w w' : List α} : kind a = .opening true → Nested w → kind s = .separator →
      Nested w' → kind b = .closing → Nested (a :: w ++ s :: w' ++ [b])
  | append {w w' : List α} : Nested w → Nested w' → Nested (w ++ w')

def nestStep : List Bool → Bracket → Option (List Bool)
  | st, .plain => some st
  | st, .opening separable => some (separable :: st)
  | true :: st, .separator => some (false :: st)
  | _ :: st, .closing => some st
  | _, _ => none

def nestRun : List Bool → List α → Option (List Bool)
  | st, [] => some st
  | st, a :: w => (nestStep st (kind a)).bind fun st' => nestRun st' w

/-- The first closing letter with nothing to close but `depth` outer brackets is last. -/
def closesLast : Nat → List α → Bool
  | _, [] => false
  | depth, a :: w =>
      match kind a with
      | .plain | .separator => closesLast depth w
      | .opening _ => closesLast (depth + 1) w
      | .closing =>
          match depth with
          | 0 => w.isEmpty
          | depth + 1 => closesLast depth w

variable {kind}

theorem nestRun_append : ∀ (w w' : List α) (st : List Bool),
    nestRun kind st (w ++ w') = (nestRun kind st w).bind fun st' => nestRun kind st' w'
  | [], _, _ => rfl
  | a :: w, w', st => by
      simp only [List.cons_append, nestRun, Option.bind_assoc]
      congr 1
      funext st'
      exact nestRun_append w w' st'

/-- A nested word leaves the stack as it is. -/
theorem Nested.run {w : List α} (h : Nested kind w) (st : List Bool) :
    nestRun kind st w = some st := by
  induction h generalizing st with
  | nil => rfl
  | plain ha => simp [nestRun, nestStep, ha]
  | block ha _ hb ih => simp [nestRun, nestRun_append, nestStep, ha, hb, ih]
  | split ha _ hs _ hb ih ih' => simp [nestRun, nestRun_append, nestStep, ha, hs, hb, ih, ih']
  | append _ _ ih ih' => rw [nestRun_append, ih, Option.bind_some, ih']

/-- A word with open brackets: what stands inside each of them is nested. -/
inductive Unclosed (kind : α → Bracket) : List Bool → List α → Prop
  | nil {w : List α} : Nested kind w → Unclosed kind [] w
  | opened {st : List Bool} {u w : List α} {a : α} {separable : Bool} : Unclosed kind st u →
      kind a = .opening separable → Nested kind w → Unclosed kind (separable :: st) (u ++ a :: w)
  | separated {st : List Bool} {u w w' : List α} {a s : α} : Unclosed kind st u →
      kind a = .opening true → Nested kind w → kind s = .separator → Nested kind w' →
      Unclosed kind (false :: st) (u ++ a :: w ++ s :: w')

/-- A nested word after an unclosed one goes inside its last bracket. -/
theorem Unclosed.append {st : List Bool} {u w : List α} (h : Unclosed kind st u)
    (hw : Nested kind w) : Unclosed kind st (u ++ w) := by
  cases h with
  | nil hu => exact .nil (hu.append hw)
  | opened hu ha hv =>
      rw [List.append_assoc]
      exact .opened hu ha (hv.append hw)
  | separated hu ha hv hs hv' =>
      rw [List.append_assoc]
      exact .separated hu ha hv hs (hv'.append hw)

theorem Unclosed.step {st st' : List Bool} {u : List α} {a : α} (h : Unclosed kind st u)
    (hstep : nestStep st (kind a) = some st') : Unclosed kind st' (u ++ [a]) := by
  cases hk : kind a with
  | plain =>
      rw [hk] at hstep
      cases hstep
      exact h.append (.plain hk)
  | opening separable =>
      rw [hk] at hstep
      cases hstep
      exact .opened h hk .nil
  | separator =>
      rw [hk] at hstep
      cases h with
      | nil => cases hstep
      | opened hu ha hw =>
          rename_i separable
          cases separable with
          | false => cases hstep
          | true =>
              cases hstep
              exact .separated hu ha hw hk .nil
      | separated => cases hstep
  | closing =>
      rw [hk] at hstep
      cases h with
      | nil => cases hstep
      | opened hu ha hw =>
          cases hstep
          rw [List.append_assoc]
          exact hu.append (.block ha hw hk)
      | separated hu ha hw hs hw' =>
          cases hstep
          rw [List.append_assoc, List.append_assoc]
          simpa using hu.append (.split ha hw hs hw' hk)

theorem Unclosed.run {st st' : List Bool} {u : List α} (h : Unclosed kind st u) :
    ∀ {w : List α}, nestRun kind st w = some st' → Unclosed kind st' (u ++ w)
  | [], hrun => by
      cases hrun
      simpa using h
  | a :: w, hrun => by
      obtain ⟨st₁, hstep, hrun⟩ := Option.bind_eq_some_iff.mp hrun
      simpa using (h.step hstep).run hrun
  termination_by w => w.length

/-- The stack recognises the grammar. -/
theorem nested_iff {w : List α} : Nested kind w ↔ nestRun kind [] w = some [] := by
  constructor
  · intro h
    exact h.run []
  · intro h
    have hw : Unclosed kind [] w := by simpa using (Unclosed.nil Nested.nil).run h
    cases hw with
    | nil hw => exact hw

/-- Counting does not see a nested word. -/
theorem closesLast_append {w : List α} (h : Nested kind w) (depth : Nat) (rest : List α) :
    closesLast kind depth (w ++ rest) = closesLast kind depth rest := by
  induction h generalizing depth rest with
  | nil => rfl
  | plain ha => simp [closesLast, ha]
  | block ha _ hb ih => simp [closesLast, ha, hb, ih]
  | split ha _ hs _ hb ih ih' => simp [closesLast, ha, hs, hb, ih, ih']
  | append _ _ ih ih' => rw [List.append_assoc, ih, ih']

end Nesting

end SexprWasm
