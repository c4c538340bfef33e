import JotaTranscriber.Text.HallucinationGuard
import JotaTranscriber.Text.Repetition

/-! # The rule of the hallucination guard

The pass over the words finds exactly the texts with four equal words in a row
or a bigram at four positions. Its table is keyed by the two words joined with
a space, which no word contains, so that no two bigrams share an entry.
-/

namespace JotaTranscriber

open Repetition

/-- A run of bytes that are not white space. -/
def IsWord (w : Bytes) : Prop := w ≠ [] ∧ ∀ c ∈ w, isSpace c = false

/-- Four equal words in a row, or a bigram at four positions. -/
def Repetitive (w : List Bytes) : Prop :=
  (∃ x, List.replicate 4 x <:+: w) ∨ ∃ x y, 4 ≤ bigramCount x y w

variable {text more x y prev cur : Bytes} {w v done rest : List Bytes} {c : UInt8} {consec : ℕ}
  {bigrams : Bytes → ℕ}

/-! ## Words -/

theorem words_append (h : isSpace c = true) :
    words (text ++ c :: more) = words text ++ words more := by
  rw [words, List.splitOnP_append_cons _ _ h, List.filter_append, words, words]

theorem not_isSpace_of_mem_splitOnP {c : UInt8} {piece : Bytes}
    (h : piece ∈ text.splitOnP isSpace) (hc : c ∈ piece) : isSpace c = false := by
  induction text generalizing piece with
  | nil =>
    obtain rfl : piece = [] := by simpa using h
    cases hc
  | cons b text ih =>
    rw [List.splitOnP_cons_eq_if_modifyHead] at h
    split at h
    · rcases List.mem_cons.mp h with rfl | h
      · cases hc
      · exact ih h hc
    · rename_i hb
      obtain ⟨first, others, hsplit⟩ := List.exists_cons_of_ne_nil
        (List.splitOnP_ne_nil isSpace text)
      rw [hsplit, List.modifyHead_cons] at h
      rcases List.mem_cons.mp h with rfl | h
      · rcases List.mem_cons.mp hc with rfl | hc
        · simpa using hb
        · exact ih (by rw [hsplit]; exact List.mem_cons_self) hc
      · exact ih (by rw [hsplit]; exact List.mem_cons_of_mem _ h) hc

theorem isWord_of_mem_words (h : x ∈ words text) : IsWord x := by
  obtain ⟨hmem, hne⟩ := List.mem_filter.mp h
  exact ⟨by simpa using hne, fun c hc => not_isSpace_of_mem_splitOnP hmem hc⟩

theorem IsWord.space_notMem (h : IsWord x) : 32 ∉ x := by
  intro hmem
  exact absurd (h.2 32 hmem) (by decide)

/-- A key of the table determines its two words. -/
theorem key_inj {x' y' : Bytes} (hx : IsWord x) (hy : IsWord y) :
    x ++ 32 :: y = x' ++ 32 :: y' ↔ x = x' ∧ y = y' := by
  rw [List.append_cons_inj_of_notMem hx.space_notMem hy.space_notMem]
  constructor
  · rintro ⟨rfl, -, rfl⟩
    exact ⟨rfl, rfl⟩
  · rintro ⟨rfl, rfl⟩
    exact ⟨rfl, rfl, rfl⟩

/-! ## The pass -/

theorem Repetitive.append (h : Repetitive w) (v : List Bytes) : Repetitive (w ++ v) := by
  rcases h with ⟨x, hx⟩ | ⟨x, y, hxy⟩
  · exact .inl ⟨x, hx.trans (List.prefix_append w v).isInfix⟩
  · exact .inr ⟨x, y, hxy.trans bigramCount_le_append⟩

/-- What the pass knows when it has read the words `done`. -/
structure Scanned (done : List Bytes) (prev : Bytes) (consec : ℕ) (bigrams : Bytes → ℕ) :
    Prop where
  words : ∀ w ∈ done, IsWord w
  last : done.getLast?.getD [] = prev
  run : EndsIn consec prev done
  table : ∀ x y, IsWord x → IsWord y → bigrams (x ++ 32 :: y) = bigramCount x y done
  fresh : ¬ Repetitive done

theorem scanned_nil : Scanned [] [] 0 (fun _ => 0) where
  words := by simp
  last := rfl
  run := endsIn_nil
  table _ _ _ _ := rfl
  fresh := by simp [Repetitive]

theorem Scanned.getLast? (h : Scanned done prev consec bigrams) (hprev : prev ≠ []) :
    done.getLast? = some prev := by
  have hlast := h.last
  cases hdone : done.getLast? with
  | none =>
    rw [hdone] at hlast
    exact absurd hlast.symm hprev
  | some x =>
    rw [hdone] at hlast
    exact congrArg some hlast

theorem Scanned.eq_nil (h : Scanned done [] consec bigrams) : done = [] := by
  by_contra hne
  obtain ⟨x, hx⟩ := Option.isSome_iff_exists.mp (List.getLast?_isSome.mpr hne)
  have hlast := h.last
  rw [hx] at hlast
  exact (h.words x (List.mem_of_getLast? hx)).1 hlast

/-- The run of equal words that ends at the next word. -/
theorem Scanned.run_concat (h : Scanned done prev consec bigrams) (cur : Bytes) :
    EndsIn (if cur = prev then consec + 1 else 1) cur (done ++ [cur]) := by
  split
  · rename_i heq
    subst heq
    exact h.run.concat_self
  · rename_i hne
    apply endsIn_one_concat
    intro hlast
    have := h.last
    rw [hlast] at this
    exact hne this

/-- The next word completes a run of four. -/
theorem Scanned.four_iff (h : Scanned done prev consec bigrams) (cur : Bytes) :
    (cur = prev ∧ 4 ≤ if cur = prev then consec + 1 else 1) ↔
      List.replicate 4 cur <:+ done ++ [cur] := by
  rw [(h.run_concat cur).replicate_suffix_iff]
  split <;> simp [*]

/-- What the next word adds to a bigram. -/
theorem Scanned.bigramCount_concat (h : Scanned done prev consec bigrams) (x y cur : Bytes) :
    bigramCount x y (done ++ [cur]) =
      bigramCount x y done + if prev ≠ [] ∧ x = prev ∧ y = cur then 1 else 0 := by
  rw [Repetition.bigramCount_concat]
  congr 1
  by_cases hprev : prev = []
  · subst hprev
    obtain rfl := h.eq_nil
    simp
  · rw [h.getLast? hprev]
    simp [hprev, eq_comm]

theorem Scanned.table_concat (h : Scanned done prev consec bigrams) (hcur : IsWord cur)
    (hprev : prev ≠ []) (hx : IsWord x) (hy : IsWord y) :
    Function.update bigrams (prev ++ 32 :: cur) (bigrams (prev ++ 32 :: cur) + 1)
        (x ++ 32 :: y) = bigramCount x y (done ++ [cur]) := by
  have hword : IsWord prev := h.words prev (List.mem_of_getLast? (h.getLast? hprev))
  rw [h.bigramCount_concat, Function.update_apply, h.table prev cur hword hcur,
    h.table x y hx hy]
  simp only [key_inj hx hy, hprev, ne_eq, not_false_eq_true, true_and]
  split
  · rename_i heq
    obtain ⟨rfl, rfl⟩ := heq
    rfl
  · rfl

/-- The pass goes on past a word that completes neither a run of four nor a fourth bigram. -/
theorem Scanned.concat (h : Scanned done prev consec bigrams) (hcur : IsWord cur)
    (hrun : ¬ List.replicate 4 cur <:+ done ++ [cur])
    (hbigram : prev ≠ [] → bigrams (prev ++ 32 :: cur) + 1 < 4) :
    Scanned (done ++ [cur]) cur (if cur = prev then consec + 1 else 1)
      (if prev = [] then bigrams
        else Function.update bigrams (prev ++ 32 :: cur) (bigrams (prev ++ 32 :: cur) + 1)) where
  words := by
    rintro w hw
    rcases List.mem_append.mp hw with hw | hw
    · exact h.words w hw
    · rw [List.mem_singleton.mp hw]
      exact hcur
  last := by simp
  run := h.run_concat cur
  table x y hx hy := by
    split
    · rename_i hprev
      rw [h.bigramCount_concat, if_neg (by simp [hprev]), Nat.add_zero]
      exact h.table x y hx hy
    · rename_i hprev
      exact h.table_concat hcur hprev hx hy
  fresh := by
    have hbefore := not_or.mp h.fresh
    rintro (⟨x, hx⟩ | ⟨x, y, hxy⟩)
    · rcases replicate_infix_concat.mp hx with ⟨rfl, hthree⟩ | hx
      · exact hrun (replicate_succ_suffix_concat.mpr ⟨rfl, hthree⟩)
      · exact hbefore.1 ⟨x, hx⟩
    · rw [h.bigramCount_concat] at hxy
      split at hxy
      · rename_i heq
        obtain ⟨hprev, rfl, rfl⟩ := heq
        have hword : IsWord x := h.words x (List.mem_of_getLast? (h.getLast? hprev))
        have := hbigram hprev
        rw [h.table x y hword hcur] at this
        omega
      · exact hbefore.2 ⟨x, y, hxy⟩

/-- From any point of the pass on: the loop answers true exactly for a repetitive sequence. -/
theorem Scanned.loop_iff (h : Scanned done prev consec bigrams) (hrest : ∀ w ∈ rest, IsWord w) :
    hallucinationLoop prev consec bigrams rest = true ↔ Repetitive (done ++ rest) := by
  induction rest generalizing done prev consec bigrams with
  | nil => simpa [hallucinationLoop] using h.fresh
  | cons cur rest ih =>
    obtain ⟨hcur, hrest⟩ := List.forall_mem_cons.mp hrest
    have hsplit : done ++ cur :: rest = (done ++ [cur]) ++ rest := by simp
    rw [hallucinationLoop, hsplit]
    dsimp only
    by_cases hfour : List.replicate 4 cur <:+ done ++ [cur]
    · rw [if_pos ((h.four_iff cur).mpr hfour)]
      apply iff_of_true rfl
      exact Repetitive.append (.inl ⟨cur, hfour.isInfix⟩) rest
    · rw [if_neg ((h.four_iff cur).not.mpr hfour)]
      split
      · rename_i hprev
        have hnext := h.concat hcur hfour fun hne => absurd hprev hne
        rw [if_pos hprev] at hnext
        exact ih hnext hrest
      · rename_i hprev
        split
        · rename_i hfourth
          apply iff_of_true rfl
          refine Repetitive.append (.inr ⟨prev, cur, ?_⟩) rest
          have hword : IsWord prev := h.words prev (List.mem_of_getLast? (h.getLast? hprev))
          rw [h.bigramCount_concat, if_pos ⟨hprev, rfl, rfl⟩, ← h.table prev cur hword hcur]
          exact hfourth
        · rename_i hfew
          have hnext := h.concat hcur hfour fun _ => by omega
          rw [if_neg hprev] at hnext
          exact ih hnext hrest

theorem isHallucination_eq_true :
    isHallucination text = true ↔ 500 < text.length ∨ Repetitive (words text) := by
  rw [isHallucination]
  split
  · simp [*]
  · rename_i hshort
    rw [scanned_nil.loop_iff fun w hw => isWord_of_mem_words hw, List.nil_append]
    simp [hshort]

/-- The guard flags exactly the texts of more than 500 bytes, those with four equal words in a row
and those with a bigram at four positions; and what it flags it still flags with white space and
more text after it. -/
theorem isHallucination_iff (text : Bytes) :
    (isHallucination text = true ↔
      500 < text.length ∨ (∃ x, List.replicate 4 x <:+: words text) ∨
        ∃ x y, 4 ≤ bigramCount x y (words text)) ∧
      ∀ c more, isSpace c = true → isHallucination text = true →
        isHallucination (text ++ c :: more) = true := by
  refine ⟨isHallucination_eq_true, ?_⟩
  intro c more hc h
  rw [isHallucination_eq_true] at h ⊢
  rcases h with hlong | hrep
  · left
    rw [List.length_append]
    omega
  · right
    rw [words_append hc]
    exact hrep.append _

namespace Demo

theorem flagged_of_four_words : isHallucination (lit "hola hola hola hola" ++ 32 :: lit "mundo") =
    true := by
  have hflagged : isHallucination (lit "hola hola hola hola") = true := by decide
  exact (isHallucination_iff _).2 32 (lit "mundo") (by decide) hflagged

end Demo

end JotaTranscriber
