import Mathlib.Data.List.Chain

/-!
# Run-length coding

A list as its runs: pairs of a length and a value. The runs are
*maximal* if none is empty and no two neighbours have the same value;
a list has one list of maximal runs, `runs`.
-/

namespace SexprWasm

namespace Runs

variable {α : Type}

/-- The list that has the runs `rs`. -/
def expand (rs : List (Nat × α)) : List α := rs.flatMap fun r => List.replicate r.1 r.2

@[simp] theorem expand_nil : expand ([] : List (Nat × α)) = [] := rfl

@[simp] theorem expand_cons (n : Nat) (a : α) (rs : List (Nat × α)) :
    expand ((n, a) :: rs) = List.replicate n a ++ expand rs := rfl

/-- `rs` are the maximal runs of `l`. -/
structure IsRuns (l : List α) (rs : List (Nat × α)) : Prop where
  expands : expand rs = l
  pos : ∀ r ∈ rs, 0 < r.1
  change : rs.IsChain fun r r' => r.2 ≠ r'.2

theorem IsRuns.le_length {l : List α} {rs : List (Nat × α)} (h : IsRuns l rs) {r : Nat × α}
    (hr : r ∈ rs) : r.1 ≤ l.length := by
  obtain ⟨before, after, rfl⟩ := List.append_of_mem hr
  rw [← h.expands]
  simp [Runs.expand]
  omega

variable [DecidableEq α]

/-- The runs of `l` behind `count` values `current`. -/
def runsFrom (current : α) (count : Nat) : List α → List (Nat × α)
  | [] => [(count, current)]
  | a :: l =>
    if current = a then runsFrom current (count + 1) l else (count, current) :: runsFrom a 1 l

def runs : List α → List (Nat × α)
  | [] => []
  | a :: l => runsFrom a 1 l

theorem expand_runsFrom (current : α) (count : Nat) (l : List α) :
    expand (runsFrom current count l) = List.replicate count current ++ l := by
  induction l generalizing current count with
  | nil => simp [runsFrom]
  | cons a l ih =>
    rw [runsFrom]
    split
    · rename_i heq
      rw [ih, List.replicate_add, heq]
      simp
    · rw [expand_cons, ih]
      rfl

theorem runsFrom_pos {current : α} {count : Nat} (hcount : 0 < count) (l : List α) :
    ∀ r ∈ runsFrom current count l, 0 < r.1 := by
  induction l generalizing current count with
  | nil => simpa [runsFrom] using hcount
  | cons a l ih =>
    rw [runsFrom]
    split
    · exact ih (Nat.succ_pos count)
    · exact List.forall_mem_cons.mpr ⟨hcount, ih Nat.one_pos⟩

theorem head_runsFrom (current : α) (count : Nat) (l : List α) :
    ∃ n rs, runsFrom current count l = (n, current) :: rs := by
  induction l generalizing count with
  | nil => exact ⟨count, [], rfl⟩
  | cons a l ih =>
    rw [runsFrom]
    split
    · exact ih (count + 1)
    · exact ⟨count, _, rfl⟩

theorem isChain_runsFrom (current : α) (count : Nat) (l : List α) :
    (runsFrom current count l).IsChain fun r r' => r.2 ≠ r'.2 := by
  induction l generalizing current count with
  | nil => exact List.isChain_singleton _
  | cons a l ih =>
    rw [runsFrom]
    split
    · exact ih current (count + 1)
    · rename_i hne
      obtain ⟨n, rs, hrs⟩ := head_runsFrom a 1 l
      have hchain := ih a 1
      rw [hrs] at hchain ⊢
      exact List.isChain_cons_cons.mpr ⟨hne, hchain⟩

theorem isRuns_runs (l : List α) : IsRuns l (runs l) := by
  cases l with
  | nil => exact ⟨rfl, by simp [runs], List.isChain_nil⟩
  | cons a l =>
    exact ⟨expand_runsFrom a 1 l, runsFrom_pos Nat.one_pos l, isChain_runsFrom a 1 l⟩

theorem runsFrom_replicate (current : α) (count n : Nat) (l : List α) :
    runsFrom current count (List.replicate n current ++ l) = runsFrom current (count + n) l := by
  induction n generalizing count with
  | zero => rfl
  | succ n ih =>
    rw [List.replicate_succ, List.cons_append, runsFrom, if_pos rfl, ih]
    congr 1
    omega

/-- The maximal runs of a list are what `runs` gives. -/
theorem IsRuns.eq_runs {l : List α} {rs : List (Nat × α)} (h : IsRuns l rs) : rs = runs l := by
  induction rs generalizing l with
  | nil =>
    obtain rfl : [] = l := h.expands
    rfl
  | cons r rs ih =>
    obtain ⟨n, a⟩ := r
    have hrest : IsRuns (expand rs) rs :=
      ⟨rfl, fun r hr => h.pos r (List.mem_cons_of_mem _ hr), h.change.of_cons⟩
    obtain ⟨m, rfl⟩ : ∃ m, n = m + 1 := Nat.exists_eq_succ_of_ne_zero
      (Nat.pos_iff_ne_zero.mp (h.pos _ List.mem_cons_self))
    rw [← h.expands, expand_cons, List.replicate_succ, List.cons_append, runs, runsFrom_replicate,
      Nat.add_comm 1 m]
    cases rs with
    | nil => rfl
    | cons r' rs =>
      obtain ⟨k, b⟩ := r'
      obtain ⟨j, rfl⟩ : ∃ j, k = j + 1 := Nat.exists_eq_succ_of_ne_zero
        (Nat.pos_iff_ne_zero.mp (h.pos _ (List.mem_cons_of_mem _ List.mem_cons_self)))
      have hne : a ≠ b := (List.isChain_cons_cons.mp h.change).1
      have hcons : expand ((j + 1, b) :: rs) = b :: (List.replicate j b ++ expand rs) := by
        rw [expand_cons, List.replicate_succ, List.cons_append]
      have hstart : runsFrom a (m + 1) (b :: (List.replicate j b ++ expand rs)) =
          (m + 1, a) :: runsFrom b 1 (List.replicate j b ++ expand rs) := by
        rw [runsFrom, if_neg hne]
      have htail : (j + 1, b) :: rs = runsFrom b 1 (List.replicate j b ++ expand rs) := by
        rw [ih hrest, hcons, runs]
      rw [hcons, hstart, ← htail]

end Runs

end SexprWasm
