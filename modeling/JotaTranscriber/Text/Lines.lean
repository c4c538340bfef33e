import Mathlib.Data.List.Basic
import Mathlib.Data.List.TakeWhile

/-! # Lines

The lines of a text, each ended by a newline, but for the last one, which need
not be. Lines that were written are read back, and two texts written one after
the other have the lines of both.
-/

namespace JotaTranscriber.Lines

variable {α : Type*} [DecidableEq α] {n : α} {l r : List α} {ls : List (List α)}

/-- A text is cut where it first has `n`. -/
theorem cut_at (h : n ∉ l) (r : List α) : (l ++ n :: r).takeWhile (· ≠ n) = l ∧
    (l ++ n :: r).dropWhile (· ≠ n) = n :: r := by
  have hall : ∀ a ∈ l, decide (a ≠ n) = true := by
    intro a ha
    rw [decide_eq_true_eq]
    rintro rfl
    exact h ha
  rw [List.takeWhile_append_of_pos hall, List.dropWhile_append_of_pos hall]
  simp

/-- The lines that `std::getline` reads until the end of a text. Nothing follows a last newline. -/
def getlines (n : α) (l : List α) : List (List α) :=
  if (l.splitOn n).getLast? = some [] then (l.splitOn n).dropLast else l.splitOn n

/-- The text of some lines, each ended by a newline. -/
def unlines (n : α) (ls : List (List α)) : List α := ls.flatMap fun l => l ++ [n]

@[simp] theorem getlines_nil : getlines n [] = [] := by
  simp [getlines, List.splitOn_nil]

theorem getlines_line (h : n ∉ l) : getlines n (l ++ n :: r) = l :: getlines n r := by
  have hne : r.splitOn n ≠ [] := List.splitOn_ne_nil n r
  simp only [getlines, List.splitOn_append_cons_self_of_not_mem h, List.getLast?_cons_of_ne_nil hne,
    List.dropLast_cons_of_ne_nil hne]
  split <;> rfl

/-- Lines in front of a text are read before it. -/
theorem getlines_unlines_append (h : ∀ l ∈ ls, n ∉ l) :
    getlines n (unlines n ls ++ r) = ls ++ getlines n r := by
  induction ls with
  | nil => rfl
  | cons l ls ih =>
    obtain ⟨hl, hls⟩ := List.forall_mem_cons.mp h
    have htext : unlines n (l :: ls) ++ r = l ++ n :: (unlines n ls ++ r) := by
      simp [unlines]
    rw [htext, getlines_line hl, ih hls, List.cons_append]

theorem getlines_unlines (h : ∀ l ∈ ls, n ∉ l) : getlines n (unlines n ls) = ls := by
  have hread : getlines n (unlines n ls ++ []) = ls ++ getlines n [] := getlines_unlines_append h
  simpa using hread

end JotaTranscriber.Lines
