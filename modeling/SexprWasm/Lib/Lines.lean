import Mathlib.Data.List.Basic

/-!
# Lines of a text, and windows into a line

A line starts at the beginning of the text or behind a separator;
`LineStart` counts lines from 1. A window shows `max` elements of a
longer line from `start` on. Where it cuts the line off, dots stand in
place of its first or its last elements.
-/

namespace SexprWasm

namespace Lines

variable {α : Type} {sep : α} {text : List α}

/-- Line `line` of the text starts at `offset`. -/
inductive LineStart (sep : α) : List α → Nat → Nat → Prop
  | first (text : List α) : LineStart sep text 1 0
  | sep {text : List α} {line offset : Nat} (rest : LineStart sep text line offset) :
      LineStart sep (sep :: text) (line + 1) (offset + 1)
  | skip {text : List α} {c : α} {line offset : Nat} (hc : c ≠ sep) (hline : 2 ≤ line)
      (rest : LineStart sep text line offset) : LineStart sep (c :: text) line (offset + 1)

namespace LineStart

theorem one_le {line offset : Nat} (h : LineStart sep text line offset) : 1 ≤ line := by
  cases h <;> omega

theorem le_length {line offset : Nat} (h : LineStart sep text line offset) :
    offset ≤ text.length := by
  induction h with
  | first text => exact Nat.zero_le _
  | sep rest ih => exact Nat.succ_le_succ ih
  | skip hc hline rest ih => exact Nat.succ_le_succ ih

theorem offset_of_one {offset : Nat} (h : LineStart sep text 1 offset) : offset = 0 := by
  cases h with
  | first => rfl
  | sep rest => exact absurd rest.one_le (by omega)
  | skip hc hline rest => omega

/-- From the start of one line, a later line starts where it does. -/
theorem drop {line offset line' offset' : Nat} (h : LineStart sep text line offset)
    (h' : LineStart sep text line' offset') (hle : line ≤ line') :
    offset ≤ offset' ∧ LineStart sep (text.drop offset) (line' - line + 1) (offset' - offset) := by
  induction h generalizing line' offset' with
  | first text =>
    have heq : line' - 1 + 1 = line' := Nat.sub_add_cancel h'.one_le
    exact ⟨Nat.zero_le _, by rwa [heq]⟩
  | sep rest ih =>
    cases h' with
    | first => exact absurd rest.one_le (by omega)
    | sep rest' =>
      obtain ⟨hoffset, hdrop⟩ := ih rest' (by omega)
      refine ⟨by omega, ?_⟩
      rwa [List.drop_succ_cons, Nat.add_sub_add_right, Nat.add_sub_add_right]
    | skip hc hline rest' => exact absurd rfl hc
  | skip hc hline rest ih =>
    cases h' with
    | first => omega
    | sep rest' => exact absurd rfl hc
    | skip hc' hline' rest' =>
      obtain ⟨hoffset, hdrop⟩ := ih rest' hle
      refine ⟨by omega, ?_⟩
      rwa [List.drop_succ_cons, Nat.add_sub_add_right]

theorem offset_eq {line offset offset' : Nat} (h : LineStart sep text line offset)
    (h' : LineStart sep text line offset') : offset = offset' := by
  have hle := (h.drop h' (Nat.le_refl line)).1
  have hge := (h'.drop h (Nat.le_refl line)).1
  omega

/-- The next line starts behind the next separator. -/
theorem next {line offset stop : Nat} (h : LineStart sep text line offset) (hle : offset ≤ stop)
    (hnone : ∀ i, offset ≤ i → i < stop → text[i]? ≠ some sep) (hsep : text[stop]? = some sep) :
    LineStart sep text (line + 1) (stop + 1) := by
  induction h generalizing stop with
  | first text =>
    induction text generalizing stop with
    | nil => simp at hsep
    | cons c text ih =>
      cases stop with
      | zero =>
        obtain rfl : c = sep := by simpa using hsep
        exact .sep (.first text)
      | succ stop =>
        have hc : c ≠ sep := by simpa using hnone 0 (Nat.le_refl 0) (Nat.succ_pos stop)
        refine .skip hc (Nat.le_refl 2) (ih (Nat.zero_le _) (fun i _ hi => ?_) hsep)
        exact hnone (i + 1) (Nat.zero_le _) (Nat.succ_lt_succ hi)
  | sep rest ih =>
    obtain ⟨stop, rfl⟩ : ∃ k, stop = k + 1 := ⟨stop - 1, by omega⟩
    refine .sep (ih (by omega) (fun i hi hlt => ?_) hsep)
    exact hnone (i + 1) (by omega) (by omega)
  | skip hc hline rest ih =>
    obtain ⟨stop, rfl⟩ : ∃ k, stop = k + 1 := ⟨stop - 1, by omega⟩
    refine .skip hc (by omega) (ih (by omega) (fun i hi hlt => ?_) hsep)
    exact hnone (i + 1) (by omega) (by omega)

end LineStart

/-! ## Windows -/

section window

variable (dots line : List α) (start max : Nat)

/-- The window of `max` elements from `start` on. -/
def window : List α :=
  (if 0 < start then dots else (line.drop start).take dots.length) ++
    ((line.drop (start + dots.length)).take (max - 2 * dots.length) ++
      (if start + max < line.length then dots
        else (line.drop (start + max - dots.length)).take dots.length))

/-- What is shown of a line, with the column it starts at: the line if it fits, else the window
from `start` on, or the last one. -/
def view : List α × Nat :=
  if line.length ≤ max then (line, 0)
  else
    (window dots line (min start (line.length - max)) max, min start (line.length - max))

end window

variable {dots line : List α} {start max : Nat}

theorem length_window (hdots : 2 * dots.length ≤ max) (hfits : start + max ≤ line.length) :
    (window dots line start max).length = max := by
  have hhead : (if 0 < start then dots else (line.drop start).take dots.length).length =
      dots.length := by
    split
    · rfl
    · rw [List.length_take, List.length_drop]
      omega
  have htail : (if start + max < line.length then dots
      else (line.drop (start + max - dots.length)).take dots.length).length = dots.length := by
    split
    · rfl
    · rw [List.length_take, List.length_drop]
      omega
  rw [window, List.length_append, List.length_append, hhead, htail, List.length_take,
    List.length_drop]
  omega

theorem view_fst_length (hdots : 2 * dots.length ≤ max) :
    (view dots line start max).1.length = min line.length max := by
  rw [view]
  split
  case isTrue hle => exact (Nat.min_eq_left hle).symm
  case isFalse hgt =>
    rw [length_window hdots (by omega)]
    omega

/-- Nothing is cut off a line that is as long as the window. -/
theorem window_zero_length (hdots : 2 * dots.length ≤ line.length) :
    window dots line 0 line.length = line := by
  have hsplit : line.take dots.length ++ ((line.drop dots.length).take
      (line.length - 2 * dots.length) ++ line.drop (line.length - dots.length)) = line := by
    have htail : line.drop (line.length - dots.length) =
        (line.drop dots.length).drop (line.length - 2 * dots.length) := by
      rw [List.drop_drop]
      congr 1
      omega
    rw [htail, List.take_append_drop, List.take_append_drop]
  have hlast : (line.drop (line.length - dots.length)).take dots.length =
      line.drop (line.length - dots.length) :=
    List.take_of_length_le (by rw [List.length_drop]; omega)
  simpa [window, hlast] using hsplit

/-- A window that ends in the line is shown where it starts. -/
theorem view_of_le (hdots : 2 * dots.length ≤ max) (hfits : start + max ≤ line.length) :
    view dots line start max = (window dots line start max, start) := by
  rw [view]
  split
  case isTrue hle =>
    obtain rfl : start = 0 := by omega
    obtain rfl : max = line.length := by omega
    rw [window_zero_length hdots]
  case isFalse hgt => rw [Nat.min_eq_left (by omega)]

theorem view_snd (hgt : max < line.length) :
    (view dots line start max).2 = min start (line.length - max) := by
  rw [view, if_neg (by omega)]

section prefixes

variable {text : List α} {short long : Nat}

/-- Two windows at one place differ only where the shorter line ends with the window. -/
theorem window_take_eq_iff (hdots : 2 * dots.length ≤ max) (hlt : short < long)
    (hle : long ≤ text.length) (hfits : start + max ≤ short) :
    window dots (text.take short) start max = window dots (text.take long) start max ↔
      start + max < short ∨
        start + max = short ∧ (text.drop (short - dots.length)).take dots.length = dots := by
  have hdrop : ∀ n k m, k + m ≤ n → ((text.take n).drop k).take m = (text.drop k).take m := by
    intro n k m hkm
    rw [List.drop_take, List.take_take, Nat.min_eq_left (by omega)]
  have hshort : (text.take short).length = short := by
    rw [List.length_take]
    omega
  have hlong : (text.take long).length = long := by
    rw [List.length_take]
    omega
  simp only [window, hshort, hlong, if_pos (show start + max < long by omega),
    hdrop short start dots.length (by omega), hdrop long start dots.length (by omega),
    hdrop short (start + dots.length) (max - 2 * dots.length) (by omega),
    hdrop long (start + dots.length) (max - 2 * dots.length) (by omega),
    List.append_cancel_left_eq]
  by_cases hcut : start + max < short
  · simp [hcut]
  · obtain rfl : start + max = short := by omega
    rw [if_neg hcut, hdrop _ _ _ (by omega)]
    simp

/-- Of two beginnings of one text the same is shown only if the window ends before both do, or
with the shorter one where that has dots. -/
theorem view_take_eq_iff (start : Nat) (hdots : 2 * dots.length ≤ max) (hlt : short < long)
    (hle : long ≤ text.length) :
    view dots (text.take short) start max = view dots (text.take long) start max ↔
      start + max < short ∨
        start + max = short ∧ (text.drop (short - dots.length)).take dots.length = dots := by
  have hshort : (text.take short).length = short := by
    rw [List.length_take]
    omega
  have hlong : (text.take long).length = long := by
    rw [List.length_take]
    omega
  by_cases hfits : start + max ≤ short
  · rw [view_of_le hdots (by omega), view_of_le hdots (by omega),
      ← window_take_eq_iff hdots hlt hle hfits, Prod.mk.injEq, and_iff_left rfl]
  · refine iff_of_false (fun h => ?_) (by omega)
    have hlength := congrArg (fun v => v.1.length) h
    have hstart := congrArg Prod.snd h
    rw [view_fst_length hdots, view_fst_length hdots, hshort, hlong] at hlength
    -- the longer line is cut off, and by less than the shorter one
    rw [view_snd (show max < (text.take long).length by omega), hlong] at hstart
    by_cases hmax : max < short
    · rw [view_snd (by omega), hshort] at hstart
      omega
    · rw [view, if_pos (by omega)] at hstart
      dsimp only at hstart
      omega

end prefixes

end Lines

end SexprWasm
