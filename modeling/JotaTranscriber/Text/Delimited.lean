import Mathlib.Data.List.Infix
import Mathlib.Data.Option.Basic

/-! # Text cut at a two-character delimiter

Cutting a text at the first delimiter, and into all the pieces that a
delimiter ends. A piece that was written is read back exactly if the delimiter
does not occur in it.
-/

namespace JotaTranscriber.Delimited

variable {α : Type*} [DecidableEq α]

/-- The delimiter `a b` does not occur in the text. -/
def Free (a b : α) (l : List α) : Prop := ¬ [a, b] <:+: l

instance (a b : α) (l : List α) : Decidable (Free a b l) := inferInstanceAs (Decidable (¬ _))

/-- What stands before the first delimiter, and what comes after it. -/
def cut (a b : α) : List α → Option (List α × List α)
  | x :: y :: rest =>
    if x = a ∧ y = b then some ([], rest)
    else (cut a b (y :: rest)).map fun r => (x :: r.1, r.2)
  | _ => none

/-- The pieces that a delimiter ends. -/
def lines (a b : α) : List α → List (List α)
  | x :: y :: rest =>
    if x = a ∧ y = b then [] :: lines a b rest
    else match lines a b (y :: rest) with
      | [] => []
      | l :: ls => (x :: l) :: ls
  | _ => []

variable {a b x y : α} {l l' r r' : List α}

omit [DecidableEq α] in
@[simp] theorem free_nil : Free a b [] := by
  simp [Free]

omit [DecidableEq α] in
theorem free_singleton : Free a b [x] := by
  intro h
  have := h.length_le
  simp at this

omit [DecidableEq α] in
theorem free_cons_cons : Free a b (x :: y :: l) ↔ ¬ (x = a ∧ y = b) ∧ Free a b (y :: l) := by
  rw [Free, List.infix_cons_iff, not_or, Free, List.cons_prefix_cons, List.cons_prefix_cons]
  simp [eq_comm]

omit [DecidableEq α] in
theorem Free.of_infix (h : Free a b l) (hl : l' <:+: l) : Free a b l' :=
  fun hmid => h (hmid.trans hl)

omit [DecidableEq α] in
theorem free_of_notMem (h : a ∉ l) : Free a b l := by
  intro hmid
  exact h (hmid.subset (by simp))

omit [DecidableEq α] in
/-- A prefix without the first character of the delimiter does not matter. -/
theorem free_append_of_notMem (h : a ∉ l) : Free a b (l ++ r) ↔ Free a b r := by
  induction l with
  | nil => rfl
  | cons x l ih =>
    obtain ⟨hx, hl⟩ := not_or.mp (List.mem_cons.not.mp h)
    rw [List.cons_append]
    cases hlr : l ++ r with
    | nil =>
      obtain ⟨rfl, rfl⟩ := List.append_eq_nil_iff.mp hlr
      exact iff_of_true free_singleton free_nil
    | cons y rest =>
      rw [free_cons_cons, ← hlr, ih hl]
      simp [Ne.symm hx]

theorem cut_append (hab : a ≠ b) (h : Free a b l) : cut a b (l ++ a :: b :: r) = some (l, r) := by
  induction l with
  | nil => simp [cut]
  | cons x l ih =>
    cases l with
    | nil => simp [cut, hab]
    | cons y l =>
      obtain ⟨hne, hfree⟩ := free_cons_cons.mp h
      simp only [List.cons_append] at ih ⊢
      rw [cut, if_neg hne, ih hfree]
      rfl

theorem eq_append_of_cut (h : cut a b l = some (l', r)) : l = l' ++ a :: b :: r := by
  induction l generalizing l' r with
  | nil => simp [cut] at h
  | cons x l ih =>
    cases l with
    | nil => simp [cut] at h
    | cons y l =>
      rw [cut] at h
      split at h
      · rename_i hxy
        obtain ⟨rfl, rfl⟩ := hxy
        cases h
        rfl
      · obtain ⟨⟨l₁, r₁⟩, hcut, h⟩ := Option.map_eq_some_iff.mp h
        cases h
        rw [ih hcut]
        rfl

theorem free_of_cut (h : cut a b l = some (l', r)) : Free a b l' := by
  induction l generalizing l' r with
  | nil => simp [cut] at h
  | cons x l ih =>
    cases l with
    | nil => simp [cut] at h
    | cons y l =>
      rw [cut] at h
      split at h
      · cases h
        exact free_nil
      · rename_i hxy
        obtain ⟨⟨l₁, r₁⟩, hcut, h⟩ := Option.map_eq_some_iff.mp h
        cases h
        cases l₁ with
        | nil => exact free_singleton
        | cons z l₁ =>
          -- the piece goes on with the character that was looked at
          have hz := eq_append_of_cut hcut
          obtain rfl := (List.cons.inj hz).1
          exact free_cons_cons.mpr ⟨hxy, ih hcut⟩

/-- The first piece is the one up to the first delimiter. -/
theorem lines_append (hab : a ≠ b) (h : Free a b l) :
    lines a b (l ++ a :: b :: r) = l :: lines a b r := by
  induction l with
  | nil => simp [lines]
  | cons x l ih =>
    cases l with
    | nil =>
      have hrest : lines a b ([] ++ a :: b :: r) = [] :: lines a b r := ih free_nil
      simp only [List.nil_append, List.cons_append] at hrest ⊢
      rw [lines, if_neg fun hxy => hab hxy.2, hrest]
    | cons y l =>
      obtain ⟨hne, hfree⟩ := free_cons_cons.mp h
      have hrest := ih hfree
      simp only [List.cons_append] at hrest ⊢
      rw [lines, if_neg hne, hrest]

theorem lines_of_cut_eq_none (h : cut a b l = none) : lines a b l = [] := by
  induction l with
  | nil => rfl
  | cons x l ih =>
    cases l with
    | nil => rfl
    | cons y l =>
      rw [cut] at h
      split at h
      · cases h
      · rename_i hxy
        rw [lines, if_neg hxy, ih (Option.map_eq_none_iff.mp h)]

theorem free_of_mem_lines (hab : a ≠ b) (h : l' ∈ lines a b l) : Free a b l' := by
  induction hn : l.length using Nat.strong_induction_on generalizing l with
  | _ n ih =>
    cases hcut : cut a b l with
    | none =>
      rw [lines_of_cut_eq_none hcut] at h
      cases h
    | some p =>
      obtain ⟨l₁, r⟩ := p
      have hfree := free_of_cut hcut
      have heq := eq_append_of_cut hcut
      rw [heq, lines_append hab hfree] at h
      rcases List.mem_cons.mp h with rfl | h
      · exact hfree
      · refine ih r.length ?_ h rfl
        rw [← hn, heq]
        simp only [List.length_append, List.length_cons]
        omega

end JotaTranscriber.Delimited
