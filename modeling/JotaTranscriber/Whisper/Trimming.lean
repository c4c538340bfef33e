import Mathlib.Data.List.DropRight
import Mathlib.Data.List.Sort
import JotaTranscriber.Whisper.Engine

/-! # Trimming the buffer

`reset` keeps as many samples as it is asked to where there are more of them,
and none where there are not: a call that asks for all the audio, or for more,
clears the buffer. A sequence of calls keeps what it should exactly if each
call asks for less than the one before has left.
-/

namespace JotaTranscriber

section Last

variable {α : Type*} {l : List α} {n k : ℕ}

theorem length_rtake (h : k ≤ l.length) : (l.rtake k).length = k := by
  rw [List.rtake, List.length_drop]
  omega

theorem rtake_rtake (h : n ≤ k) (hk : k ≤ l.length) : (l.rtake k).rtake n = l.rtake n := by
  rw [List.rtake, length_rtake hk, List.rtake, List.drop_drop, List.rtake]
  congr 1
  omega

end Last

/-- What `reset` leaves of a buffer, as numbers of samples. -/
def trimmed (size keepSamples : ℕ) : ℕ := if keepSamples < size then keepSamples else 0

section Sizes

variable {size k : ℕ} {ks : List ℕ}

theorem trimmed_le : trimmed size k ≤ size := by
  unfold trimmed
  split <;> omega

theorem trimmed_of_lt (h : k < size) : trimmed size k = k := if_pos h

theorem trimmed_of_le (h : size ≤ k) : trimmed size k = 0 := if_neg (by omega)

theorem foldl_trimmed_le : ks.foldl trimmed size ≤ size := by
  induction ks generalizing size with
  | nil => rfl
  | cons k ks ih => exact ih.trans trimmed_le

/-- One call that asks for all there was at the start clears the buffer, wherever it comes. -/
theorem foldl_trimmed_of_mem (hk : k ∈ ks) (hle : size ≤ k) : ks.foldl trimmed size = 0 := by
  induction ks generalizing size with
  | nil => simp at hk
  | cons l ks ih =>
    rw [List.foldl_cons]
    rcases List.mem_cons.mp hk with rfl | hk
    · rw [trimmed_of_le hle]
      exact Nat.le_zero.mp foldl_trimmed_le
    · exact ih hk (trimmed_le.trans hle)

/-- Calls for less and less keep the least number asked for. -/
theorem foldl_trimmed_of_pairwise (h : (size :: ks).Pairwise (· > ·)) :
    ks.foldl trimmed size = ks.foldl min size := by
  induction ks generalizing size with
  | nil => rfl
  | cons k ks ih =>
    have hlt : k < size := List.rel_of_pairwise_cons h List.mem_cons_self
    rw [List.foldl_cons, List.foldl_cons, trimmed_of_lt hlt, min_eq_right hlt.le]
    exact ih h.of_cons

/-- Audio is left only by calls for less and less. -/
theorem pairwise_of_foldl_trimmed (hpos : 0 < ks.foldl trimmed size) :
    (size :: ks).Pairwise (· > ·) := by
  induction ks generalizing size with
  | nil => simp
  | cons k ks ih =>
    by_cases hlt : k < size
    · rw [List.foldl_cons, trimmed_of_lt hlt] at hpos
      have hrest := ih hpos
      refine List.pairwise_cons.mpr ⟨?_, hrest⟩
      intro l hl
      rcases List.mem_cons.mp hl with rfl | hl
      · exact hlt
      · exact (List.rel_of_pairwise_cons hrest hl).trans hlt
    · rw [foldl_trimmed_of_mem List.mem_cons_self (by omega)] at hpos
      omega

theorem foldl_min_pos (hsize : 0 < size) (hpos : ∀ k ∈ ks, 0 < k) : 0 < ks.foldl min size := by
  induction ks generalizing size with
  | nil => exact hsize
  | cons k ks ih =>
    rw [List.forall_mem_cons] at hpos
    exact ih (lt_min hsize hpos.1) hpos.2

theorem foldl_min_le : ks.foldl min size ≤ size := by
  induction ks generalizing size with
  | nil => rfl
  | cons k ks ih => exact ih.trans (min_le_left _ _)

/-- The calls keep the least number asked for exactly if there is nothing to keep, or each asks
for less than there is. -/
theorem foldl_trimmed_eq_iff (hpos : ∀ k ∈ ks, 0 < k) :
    ks.foldl trimmed size = ks.foldl min size ↔ size = 0 ∨ (size :: ks).Pairwise (· > ·) := by
  constructor
  · intro h
    rcases Nat.eq_zero_or_pos size with hzero | hsize
    · exact .inl hzero
    · right
      apply pairwise_of_foldl_trimmed
      rw [h]
      exact foldl_min_pos hsize hpos
  · rintro (rfl | h)
    · have htrimmed : ks.foldl trimmed 0 ≤ 0 := foldl_trimmed_le
      have hmin : ks.foldl min 0 ≤ 0 := foldl_min_le
      omega
    · exact foldl_trimmed_of_pairwise h

/-- Calls that ask for less than there is, each for another number, clear the buffer in one order
and not in the other. -/
theorem exists_perm_foldl_trimmed (hlt : ∀ k ∈ ks, k < size) (hpos : ∀ k ∈ ks, 0 < k)
    (hnodup : ks.Nodup) (hlength : 1 < ks.length) :
    (∃ ks' : List ℕ, ks'.Perm ks ∧ 0 < ks'.foldl trimmed size) ∧
      ∃ ks' : List ℕ, ks'.Perm ks ∧ ks'.foldl trimmed size = 0 := by
  have hperm : (ks.insertionSort (· ≥ ·)).Perm ks := List.perm_insertionSort _ _
  have hfalling : (ks.insertionSort (· ≥ ·)).Pairwise (· > ·) := by
    apply ((ks.pairwise_insertionSort (· ≥ ·)).and (hperm.nodup_iff.mpr hnodup)).imp
    rintro k l ⟨hle, hne⟩
    exact lt_of_le_of_ne hle (Ne.symm hne)
  generalize ks.insertionSort (· ≥ ·) = sorted at hperm hfalling
  constructor
  · refine ⟨sorted, hperm, ?_⟩
    obtain ⟨k, hk⟩ := List.exists_mem_of_length_pos (show 0 < ks.length by omega)
    rw [foldl_trimmed_of_pairwise (List.pairwise_cons.mpr
      ⟨fun l hl => hlt l (hperm.mem_iff.mp hl), hfalling⟩)]
    apply foldl_min_pos
    · exact (hpos k hk).trans (hlt k hk)
    · exact fun l hl => hpos l (hperm.mem_iff.mp hl)
  · refine ⟨sorted.reverse, sorted.reverse_perm.trans hperm, ?_⟩
    by_contra hne
    have hrising := (pairwise_of_foldl_trimmed (Nat.pos_of_ne_zero hne)).of_cons
    rw [List.pairwise_reverse] at hrising
    match sorted, hperm.length_eq with
    | k :: l :: _, _ =>
      have hgt : k > l := List.rel_of_pairwise_cons hfalling (by simp)
      have hlt : l > k := List.rel_of_pairwise_cons hrising (by simp)
      omega
    | [_], hone => simp at hone; omega
    | [], hnone => simp at hnone; omega

/-- The order of the calls does not matter exactly if one of them clears the buffer wherever it
comes, two ask for the same, or there are not two calls. -/
theorem foldl_trimmed_perm_iff (hpos : ∀ k ∈ ks, 0 < k) :
    (∀ ks' : List ℕ, ks'.Perm ks → ks'.foldl trimmed size = ks.foldl trimmed size) ↔
      (∃ k ∈ ks, size ≤ k) ∨ ¬ ks.Nodup ∨ ks.length ≤ 1 := by
  constructor
  · intro h
    by_contra hnot
    push Not at hnot
    obtain ⟨hlt, hnodup, hlength⟩ := hnot
    obtain ⟨⟨falling, hfalling, hkept⟩, rising, hrising, hcleared⟩ :=
      exists_perm_foldl_trimmed hlt hpos hnodup hlength
    rw [h falling hfalling] at hkept
    rw [h rising hrising] at hcleared
    omega
  · rintro (⟨k, hk, hle⟩ | hdup | hshort) ks' hperm
    · rw [foldl_trimmed_of_mem hk hle, foldl_trimmed_of_mem (hperm.mem_iff.mpr hk) hle]
    · have hcleared (l : List ℕ) (hl : ¬ l.Nodup) : l.foldl trimmed size = 0 := by
        by_contra hne
        have hfalling := (pairwise_of_foldl_trimmed (Nat.pos_of_ne_zero hne)).of_cons
        exact hl (hfalling.imp ne_of_gt)
      rw [hcleared ks hdup, hcleared ks' (by rwa [hperm.nodup_iff])]
    · match ks, hshort with
      | [], _ => rw [hperm.eq_nil]
      | [k], _ => rw [List.perm_singleton.mp hperm]

end Sizes

namespace StreamingWhisperEngine

/-- One `reset` after the other. -/
def resets (e : StreamingWhisperEngine) (ks : List ℕ) : StreamingWhisperEngine := ks.foldl reset e

variable {e : StreamingWhisperEngine} {k : ℕ} {ks : List ℕ}

theorem reset_eq : e.reset k =
    { e with audioBuffer := e.audioBuffer.rtake (trimmed e.audioBuffer.length k) } := by
  unfold reset trimmed
  by_cases hlt : k < e.audioBuffer.length
  · by_cases hzero : k = 0
    · simp [hzero]
    · rw [if_neg (by omega), if_pos hlt, List.rtake]
  · rw [if_pos (by omega), if_neg hlt, List.rtake_zero]

/-- The engine after a sequence of calls. -/
theorem resets_eq : e.resets ks =
    { e with audioBuffer := e.audioBuffer.rtake (ks.foldl trimmed e.audioBuffer.length) } := by
  unfold resets
  induction ks generalizing e with
  | nil => simp [List.rtake]
  | cons k ks ih =>
    rw [List.foldl_cons, ih, reset_eq]
    dsimp only
    rw [length_rtake trimmed_le, rtake_rtake foldl_trimmed_le trimmed_le, List.foldl_cons]

theorem resets_eq_iff {ks' : List ℕ} : e.resets ks' = e.resets ks ↔
    ks'.foldl trimmed e.audioBuffer.length = ks.foldl trimmed e.audioBuffer.length := by
  rw [resets_eq, resets_eq]
  constructor
  · intro h
    have hlength := congrArg (fun e : StreamingWhisperEngine => e.audioBuffer.length) h
    dsimp only at hlength
    rwa [length_rtake foldl_trimmed_le, length_rtake foldl_trimmed_le] at hlength
  · intro h
    rw [h]

/-- A sequence of calls keeps the least number of samples that was asked for if and only if there
is no audio or each call asks for less than is there. A call can be repeated if and only if it
asks for all there is or more, and the order of the calls can be changed if and only if some call
does, two ask for the same or there are not two. -/
theorem resets_iff (hpos : ∀ k ∈ ks, 0 < k) :
    ((e.resets ks).audioBuffer = e.audioBuffer.rtake (ks.foldl min e.audioBuffer.length) ↔
        e.audioBuffer = [] ∨ (e.audioBuffer.length :: ks).Pairwise (· > ·)) ∧
      (∀ k, 0 < k → ((e.reset k).reset k = e.reset k ↔ e.audioBuffer.length ≤ k)) ∧
      ((∀ ks' : List ℕ, ks'.Perm ks → e.resets ks' = e.resets ks) ↔
        (∃ k ∈ ks, e.audioBuffer.length ≤ k) ∨ ¬ ks.Nodup ∨ ks.length ≤ 1) := by
  refine ⟨?_, ?_, ?_⟩
  · rw [resets_eq, ← List.length_eq_zero_iff, ← foldl_trimmed_eq_iff hpos]
    constructor
    · intro h
      have hlength := congrArg List.length h
      rwa [length_rtake foldl_trimmed_le, length_rtake foldl_min_le] at hlength
    · intro h
      rw [h]
  · intro k hk
    have htwice : (e.reset k).reset k = e.reset k ↔
        [k, k].foldl trimmed e.audioBuffer.length = [k].foldl trimmed e.audioBuffer.length :=
      @resets_eq_iff e [k] [k, k]
    rw [htwice]
    simp only [List.foldl_cons, List.foldl_nil]
    constructor
    · intro h
      by_contra hlt
      rw [trimmed_of_lt (not_le.mp hlt), trimmed_of_le le_rfl] at h
      omega
    · intro hle
      rw [trimmed_of_le hle, trimmed_of_le (Nat.zero_le _)]
  · rw [← foldl_trimmed_perm_iff hpos]
    simp only [resets_eq_iff]

end StreamingWhisperEngine

namespace Demo

def shortBuffer : StreamingWhisperEngine := { ctx := 0, audioBuffer := [1, 2, 3] }

/-- Two samples of three are kept, and then one of the two. -/
theorem resets_of_two_and_one : (shortBuffer.resets [2, 1]).audioBuffer = [3] := by
  have hkept := (@StreamingWhisperEngine.resets_iff shortBuffer [2, 1] (by decide)).1.mpr
    (.inr (by decide))
  exact hkept.trans (by decide)

/-- Of three samples the last four are asked for, and none is kept. -/
theorem reset_clears_short_buffer :
    ¬ ∀ (e : StreamingWhisperEngine) (ks : List ℕ), (∀ k ∈ ks, 0 < k) →
        (e.resets ks).audioBuffer = e.audioBuffer.rtake (ks.foldl min e.audioBuffer.length) := by
  intro hall
  have hkept := hall shortBuffer [4] (by decide)
  have hcleared : (shortBuffer.resets [4]).audioBuffer = [] := by decide
  rw [hcleared] at hkept
  exact absurd hkept (by decide)

end Demo

end JotaTranscriber
