import Mathlib.Data.List.Basic

/-! # Regular expressions with groups

Expressions over any characters, with the repetition of a class of characters,
and a matcher that tries the ways to match in the order of a backtracking one.
It finds a match of a whole text exactly if there is one.
-/

namespace JotaTranscriber

inductive Regex (α : Type*) where
  | empty
  /-- One character of a class. -/
  | sat (p : α → Bool)
  /-- Any number of characters of a class, as many as possible first. -/
  | many (p : α → Bool)
  | seq (r t : Regex α)
  /-- The expression, if possible, or nothing. -/
  | opt (r : Regex α)
  /-- The expression, with the text it matches captured under a number. -/
  | group (n : ℕ) (r : Regex α)

namespace Regex

variable {α : Type*}

/-- The text captured under each number. -/
abbrev Captures (α : Type*) := List (ℕ × List α)

/-- `r.Matches s cs`: the expression matches all of `s`, and captures `cs`. -/
inductive Matches : Regex α → List α → Captures α → Prop where
  | empty : Matches .empty [] []
  | sat {p : α → Bool} {c : α} : p c = true → Matches (.sat p) [c] []
  | many {p : α → Bool} {s : List α} : (∀ c ∈ s, p c = true) → Matches (.many p) s []
  | seq {r t : Regex α} {s s' : List α} {cs cs' : Captures α} :
      Matches r s cs → Matches t s' cs' → Matches (.seq r t) (s ++ s') (cs ++ cs')
  | optSome {r : Regex α} {s : List α} {cs : Captures α} : Matches r s cs → Matches (.opt r) s cs
  | optNone {r : Regex α} : Matches (.opt r) [] []
  | group {n : ℕ} {r : Regex α} {s : List α} {cs : Captures α} :
      Matches r s cs → Matches (.group n r) s ((n, s) :: cs)

/-- The expression for one text. -/
def literal [DecidableEq α] : List α → Regex α
  | [] => .empty
  | c :: s => .seq (.sat (· = c)) (literal s)

/-- One or more characters of a class. -/
def plus (p : α → Bool) : Regex α := .seq (.sat p) (.many p)

/-- What can be left after characters of a class, the shortest rest first. -/
def rests (p : α → Bool) : List α → List (List α)
  | [] => [[]]
  | c :: s => if p c then rests p s ++ [c :: s] else [c :: s]

/-- The ways to match the beginning of a text: what is captured, and what is left. -/
def run : Regex α → List α → List (Captures α × List α)
  | .empty, s => [([], s)]
  | .sat _, [] => []
  | .sat p, c :: s => if p c then [([], s)] else []
  | .many p, s => (rests p s).map fun rest => ([], rest)
  | .seq r t, s => (run r s).flatMap fun a => (run t a.2).map fun b => (a.1 ++ b.1, b.2)
  | .opt r, s => run r s ++ [([], s)]
  | .group n r, s => (run r s).map fun a => ((n, s.take (s.length - a.2.length)) :: a.1, a.2)

/-- The first way to match the whole text. -/
def fullMatch (r : Regex α) (s : List α) : Option (Captures α) :=
  ((r.run s).find? fun a => a.2.isEmpty).map Prod.fst

def capture (cs : Captures α) (n : ℕ) : Option (List α) :=
  (cs.find? fun c => c.1 = n).map Prod.snd

variable {r t : Regex α} {p : α → Bool} {s rest : List α} {cs : Captures α} {n : ℕ} {c : α}

/-! ## What an expression matches -/

@[simp] theorem matches_empty : Matches .empty s cs ↔ s = [] ∧ cs = [] := by
  constructor
  · rintro ⟨⟩
    exact ⟨rfl, rfl⟩
  · rintro ⟨rfl, rfl⟩
    exact .empty

@[simp] theorem matches_sat : Matches (.sat p) s cs ↔ ∃ c, p c = true ∧ s = [c] ∧ cs = [] := by
  constructor
  · rintro ⟨⟩
    exact ⟨_, ‹_›, rfl, rfl⟩
  · rintro ⟨c, hc, rfl, rfl⟩
    exact .sat hc

@[simp] theorem matches_many : Matches (.many p) s cs ↔ (∀ c ∈ s, p c = true) ∧ cs = [] := by
  constructor
  · rintro ⟨⟩
    exact ⟨‹_›, rfl⟩
  · rintro ⟨h, rfl⟩
    exact .many h

theorem matches_seq : Matches (.seq r t) s cs ↔ ∃ s₁ s₂ cs₁ cs₂, Matches r s₁ cs₁ ∧
    Matches t s₂ cs₂ ∧ s = s₁ ++ s₂ ∧ cs = cs₁ ++ cs₂ := by
  constructor
  · rintro ⟨⟩
    exact ⟨_, _, _, _, ‹_›, ‹_›, rfl, rfl⟩
  · rintro ⟨s₁, s₂, cs₁, cs₂, h₁, h₂, rfl, rfl⟩
    exact .seq h₁ h₂

theorem matches_opt : Matches (.opt r) s cs ↔ Matches r s cs ∨ (s = [] ∧ cs = []) := by
  constructor
  · rintro ⟨⟩
    · exact .inl ‹_›
    · exact .inr ⟨rfl, rfl⟩
  · rintro (h | ⟨rfl, rfl⟩)
    · exact .optSome h
    · exact .optNone

theorem matches_group :
    Matches (.group n r) s cs ↔ ∃ cs', Matches r s cs' ∧ cs = (n, s) :: cs' := by
  constructor
  · rintro ⟨⟩
    exact ⟨_, ‹_›, rfl⟩
  · rintro ⟨cs', h, rfl⟩
    exact .group h

theorem matches_literal [DecidableEq α] {l : List α} :
    Matches (literal l) s cs ↔ s = l ∧ cs = [] := by
  induction l generalizing s cs with
  | nil => simp [literal]
  | cons d l ih =>
    simp only [literal, matches_seq, matches_sat, decide_eq_true_eq, ih]
    constructor
    · rintro ⟨_, _, _, _, ⟨_, rfl, rfl, rfl⟩, ⟨rfl, rfl⟩, rfl, rfl⟩
      exact ⟨rfl, rfl⟩
    · rintro ⟨rfl, rfl⟩
      exact ⟨[d], l, [], [], ⟨d, rfl, rfl, rfl⟩, ⟨rfl, rfl⟩, rfl, rfl⟩

theorem matches_plus :
    Matches (plus p) s cs ↔ s ≠ [] ∧ (∀ c ∈ s, p c = true) ∧ cs = [] := by
  simp only [plus, matches_seq, matches_sat, matches_many]
  constructor
  · rintro ⟨_, s, _, _, ⟨c, hc, rfl, rfl⟩, ⟨hs, rfl⟩, rfl, rfl⟩
    exact ⟨by simp, by simpa [hc] using hs, rfl⟩
  · rintro ⟨hne, hs, rfl⟩
    obtain ⟨c, s, rfl⟩ := List.exists_cons_of_ne_nil hne
    obtain ⟨hc, hs⟩ := List.forall_mem_cons.mp hs
    exact ⟨[c], s, [], [], ⟨c, hc, rfl, rfl⟩, ⟨hs, rfl⟩, rfl, rfl⟩

/-! ## The matcher -/

theorem mem_rests : rest ∈ rests p s ↔ ∃ front, s = front ++ rest ∧ ∀ c ∈ front, p c = true := by
  induction s with
  | nil =>
    rw [rests, List.mem_singleton]
    constructor
    · rintro rfl
      exact ⟨[], rfl, by simp⟩
    · rintro ⟨front, hs, -⟩
      exact (List.append_eq_nil_iff.mp hs.symm).2
  | cons d s ih =>
    rw [rests]
    split
    · rename_i hd
      rw [List.mem_append, ih, List.mem_singleton]
      constructor
      · rintro (⟨front, rfl, hall⟩ | rfl)
        · exact ⟨d :: front, rfl, List.forall_mem_cons.mpr ⟨hd, hall⟩⟩
        · exact ⟨[], rfl, by simp⟩
      · rintro ⟨front, hs, hall⟩
        cases front with
        | nil => exact .inr hs.symm
        | cons e front =>
          obtain ⟨rfl, rfl⟩ := List.cons.inj hs
          exact .inl ⟨front, rfl, (List.forall_mem_cons.mp hall).2⟩
    · rename_i hd
      rw [List.mem_singleton]
      constructor
      · rintro rfl
        exact ⟨[], rfl, by simp⟩
      · rintro ⟨front, hs, hall⟩
        cases front with
        | nil => exact hs.symm
        | cons e front =>
          obtain ⟨rfl, -⟩ := List.cons.inj hs
          exact absurd (hall d List.mem_cons_self) hd

/-- The ways the matcher finds are the matches of the beginnings of the text. -/
theorem mem_run : (cs, rest) ∈ r.run s ↔ ∃ front, s = front ++ rest ∧ r.Matches front cs := by
  induction r generalizing s cs rest with
  | empty => simp [run, eq_comm, and_comm]
  | sat p =>
    cases s with
    | nil => simp [run]
    | cons d s =>
      simp only [run, matches_sat]
      constructor
      · intro h
        split at h
        · rename_i hd
          obtain ⟨rfl, rfl⟩ := Prod.mk.inj (List.mem_singleton.mp h)
          exact ⟨[d], rfl, d, hd, rfl, rfl⟩
        · cases h
      · rintro ⟨_, hs, c, hc, rfl, rfl⟩
        obtain ⟨rfl, rfl⟩ := List.cons.inj hs
        rw [if_pos hc]
        exact List.mem_singleton.mpr rfl
  | many p =>
    simp only [run, List.mem_map, Prod.mk.injEq, mem_rests, matches_many]
    constructor
    · rintro ⟨rest, ⟨front, rfl, hall⟩, rfl, rfl⟩
      exact ⟨front, rfl, hall, rfl⟩
    · rintro ⟨front, rfl, hall, rfl⟩
      exact ⟨rest, ⟨front, rfl, hall⟩, rfl, rfl⟩
  | seq r t ihr iht =>
    simp only [run, List.mem_flatMap, List.mem_map, Prod.exists, Prod.mk.injEq, ihr, iht,
      matches_seq]
    constructor
    · rintro ⟨cs₁, _, ⟨s₁, rfl, h₁⟩, cs₂, _, ⟨s₂, rfl, h₂⟩, rfl, rfl⟩
      exact ⟨s₁ ++ s₂, by rw [List.append_assoc], s₁, s₂, cs₁, cs₂, h₁, h₂, rfl, rfl⟩
    · rintro ⟨_, rfl, s₁, s₂, cs₁, cs₂, h₁, h₂, rfl, rfl⟩
      exact ⟨cs₁, s₂ ++ rest, ⟨s₁, by rw [List.append_assoc], h₁⟩, cs₂, rest, ⟨s₂, rfl, h₂⟩, rfl,
        rfl⟩
  | opt r ih =>
    simp only [run, List.mem_append, ih, List.mem_singleton, Prod.mk.injEq, matches_opt]
    constructor
    · rintro (⟨front, rfl, h⟩ | ⟨rfl, rfl⟩)
      · exact ⟨front, rfl, .inl h⟩
      · exact ⟨[], rfl, .inr ⟨rfl, rfl⟩⟩
    · rintro ⟨front, rfl, h | ⟨rfl, rfl⟩⟩
      · exact .inl ⟨front, rfl, h⟩
      · exact .inr ⟨rfl, rfl⟩
  | group n r ih =>
    simp only [run, List.mem_map, Prod.exists, Prod.mk.injEq, ih, matches_group]
    constructor
    · rintro ⟨cs', rest, ⟨front, rfl, h⟩, rfl, rfl⟩
      exact ⟨front, rfl, cs', h, by simp⟩
    · rintro ⟨front, rfl, cs', h, rfl⟩
      exact ⟨cs', rest, ⟨front, rfl, h⟩, by simp, rfl⟩

theorem mem_run_nil : (cs, []) ∈ r.run s ↔ r.Matches s cs := by
  simp [mem_run]

/-- What the matcher answers is a match. -/
theorem matches_of_fullMatch (h : r.fullMatch s = some cs) : r.Matches s cs := by
  obtain ⟨⟨cs', rest⟩, hfind, rfl⟩ := Option.map_eq_some_iff.mp h
  have hrest := List.find?_some hfind
  obtain rfl : rest = [] := by simpa using hrest
  exact mem_run_nil.mp (List.mem_of_find?_eq_some hfind)

theorem fullMatch_eq_none : r.fullMatch s = none ↔ ∀ cs, ¬ r.Matches s cs := by
  simp only [fullMatch, Option.map_eq_none_iff, List.find?_eq_none, ← mem_run_nil]
  constructor
  · intro h cs hmem
    exact h _ hmem rfl
  · rintro h ⟨cs, rest⟩ hmem hrest
    obtain rfl : rest = [] := by simpa using hrest
    exact h cs hmem

/-- If there is only one way to match, the matcher finds it. -/
theorem fullMatch_eq_some (h : r.Matches s cs) (hunique : ∀ cs', r.Matches s cs' → cs' = cs) :
    r.fullMatch s = some cs := by
  cases hfull : r.fullMatch s with
  | none => exact absurd h (fullMatch_eq_none.mp hfull cs)
  | some cs' => rw [hunique cs' (matches_of_fullMatch hfull)]

end Regex

end JotaTranscriber
