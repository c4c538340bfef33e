import Mathlib.Data.List.Infix
import Mathlib.Data.List.Range
import Mathlib.Data.List.Basic

/-! # Repetition in a sequence

Runs of one member at the end of a list, and the positions where two members
stand one after the other, each as it changes when a member is added at the
end: what a single pass over the list has to keep.
-/

namespace JotaTranscriber.Repetition

variable {α : Type*} {x y z : α} {w v : List α} {n : ℕ}

/-- The list ends in exactly `n` copies of `x`. -/
def EndsIn (n : ℕ) (x : α) (w : List α) : Prop :=
  List.replicate n x <:+ w ∧ ¬ List.replicate (n + 1) x <:+ w

theorem endsIn_nil : EndsIn 0 x [] := by
  simp [EndsIn]

theorem replicate_succ_suffix_concat :
    List.replicate (n + 1) x <:+ w ++ [y] ↔ x = y ∧ List.replicate n x <:+ w := by
  rw [List.suffix_concat_iff, List.replicate_succ']
  simp

theorem EndsIn.concat_self (h : EndsIn n x w) : EndsIn (n + 1) x (w ++ [x]) :=
  ⟨replicate_succ_suffix_concat.mpr ⟨rfl, h.1⟩, fun hlong =>
    h.2 (replicate_succ_suffix_concat.mp hlong).2⟩

/-- Another member than the last one starts a run of its own. -/
theorem endsIn_one_concat (h : w.getLast? ≠ some x) : EndsIn 1 x (w ++ [x]) := by
  refine ⟨replicate_succ_suffix_concat.mpr ⟨rfl, List.nil_suffix⟩, ?_⟩
  intro hlong
  obtain ⟨front, rfl⟩ := (replicate_succ_suffix_concat.mp hlong).2
  simp at h

/-- A run of `n + 1` is complete at the new member, or was there before. -/
theorem replicate_infix_concat :
    List.replicate (n + 1) x <:+: w ++ [y] ↔
      (x = y ∧ List.replicate n x <:+ w) ∨ List.replicate (n + 1) x <:+: w := by
  rw [List.infix_concat_iff, replicate_succ_suffix_concat]

theorem EndsIn.replicate_suffix_iff {m : ℕ} (h : EndsIn n x w) :
    List.replicate m x <:+ w ↔ m ≤ n := by
  have hshorter {k l : ℕ} (hkl : k ≤ l) (hl : List.replicate l x <:+ w) :
      List.replicate k x <:+ w := by
    refine List.IsSuffix.trans ⟨List.replicate (l - k) x, ?_⟩ hl
    rw [List.replicate_append_replicate, Nat.sub_add_cancel hkl]
  constructor
  · intro hm
    by_contra hlt
    exact h.2 (hshorter (by omega) hm)
  · exact fun hm => hshorter hm h.1

variable [DecidableEq α]

/-- The number of positions where `y` comes right after `x`. -/
def bigramCount (x y : α) (w : List α) : ℕ :=
  (List.range w.length).countP fun i => w[i]? = some x ∧ w[i + 1]? = some y

@[simp] theorem bigramCount_nil : bigramCount x y [] = 0 := rfl

/-- The new member makes a bigram with the last one. -/
theorem bigramCount_concat : bigramCount x y (w ++ [z]) =
    bigramCount x y w + if w.getLast? = some x ∧ z = y then 1 else 0 := by
  rcases List.eq_nil_or_concat w with rfl | ⟨w, l, rfl⟩
  · simp [bigramCount, List.range_succ]
  · have hbefore : ∀ i ∈ List.range w.length,
        decide ((w ++ [l] ++ [z])[i]? = some x ∧ (w ++ [l] ++ [z])[i + 1]? = some y) = true ↔
          decide ((w ++ [l])[i]? = some x ∧ (w ++ [l])[i + 1]? = some y) = true := by
      intro i hi
      have hi := List.mem_range.mp hi
      have hlength : (w ++ [l]).length = w.length + 1 := by simp
      have hfirst : i < (w ++ [l]).length := by omega
      have hsecond : i + 1 < (w ++ [l]).length := by omega
      rw [List.getElem?_append_left hfirst, List.getElem?_append_left hsecond]
    simp only [bigramCount, List.concat_eq_append, List.length_append, List.length_singleton,
      List.range_succ, List.countP_append, List.countP_congr hbefore]
    simp

/-- Appending only adds bigrams. -/
theorem bigramCount_le_append : bigramCount x y w ≤ bigramCount x y (w ++ v) := by
  induction v using List.reverseRecOn with
  | nil => simp
  | append_singleton v z ih =>
    rw [← List.append_assoc, bigramCount_concat]
    omega

end JotaTranscriber.Repetition
