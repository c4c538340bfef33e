import JotaTranscriber.Whisper.Commit

/-! # What a call reports and what audio it keeps

An inference parts its segments between the committed and the partial text. An
unforced call that commits takes the audio up to the end of the last committed
segment. Two kinds of answers defeat the purpose of that: a committed segment
that ends at zero leaves its audio in place, and a fallback commit that ends
with the audio throws away what the last segment was heard in.
-/

namespace JotaTranscriber

variable {segments : List Segment} {size i : ℕ} {t1 : ℤ}

theorem joinTexts_take_append_drop (k : ℕ) (segments : List Segment) :
    joinTexts (segments.take k) ++ joinTexts (segments.drop k) = joinTexts segments := by
  rw [joinTexts, joinTexts, ← List.flatMap_append, List.take_append_drop, joinTexts]

theorem joinTexts_ne_nil : joinTexts segments ≠ [] ↔ ∃ g ∈ segments, g.text.getD [] ≠ [] := by
  simp [joinTexts, List.flatMap_eq_nil_iff]

/-- In a window that may be committed the overlap begins 2 s before its end. -/
theorem overlapBounds_mul_le (h : maxWindowSamples ≤ size) :
    160 * overlapBounds size + 32000 ≤ size := by
  have h' : 160000 ≤ size := h
  rw [overlapBounds, Int.tdiv_eq_ediv_of_nonneg (by omega)]
  omega

theorem overlapBounds_pos (h : maxWindowSamples ≤ size) : 0 < overlapBounds size := by
  have h' : 160000 ≤ size := h
  rw [overlapBounds, Int.tdiv_eq_ediv_of_nonneg (by omega)]
  omega

theorem commitPoint_lt {force : Bool} (h : commitPoint force size segments = some (i, t1)) :
    i < segments.length := by
  cases force with
  | true =>
    simp only [commitPoint, if_true, Option.ite_none_left_eq_some, Option.some.injEq,
      Prod.mk.injEq] at h
    omega
  | false =>
    obtain ⟨g, hg, -⟩ := commitPoint_eq_some.mp h
    exact lt_length_of_getElem? hg

/-- A forced call stops at the last segment. -/
theorem commitPoint_forced (h : commitPoint true size segments = some (i, t1)) :
    i + 1 = segments.length := by
  simp only [commitPoint, if_true, Option.ite_none_left_eq_some, Option.some.injEq,
    Prod.mk.injEq] at h
  omega

theorem commitPoint_forced_eq_none (h : commitPoint true size segments = none) :
    segments = [] := by
  simpa [commitPoint] using h

/-- The end times whisper gives: not negative, and in order. -/
structure EndTimes (segments : List Segment) : Prop where
  nonneg : ∀ g ∈ segments, 0 ≤ g.t1
  sorted : segments.Pairwise fun g g' => g.t1 ≤ g'.t1

/-- The segments that end before the overlap all end at zero, and there is text in them. -/
def CommitsInPlace (size : ℕ) (segments : List Segment) : Prop :=
  maxWindowSamples ≤ size ∧ (∀ g ∈ segments, g.t1 = 0 ∨ overlapBounds size ≤ g.t1) ∧
    ∃ g ∈ segments, g.t1 = 0 ∧ g.text.getD [] ≠ []

instance : Decidable (CommitsInPlace size segments) :=
  inferInstanceAs (Decidable (_ ∧ _ ∧ _))

theorem commitsInPlace_iff (ht : EndTimes segments) (hw : maxWindowSamples ≤ size)
    (hc : CommitsThrough size segments i t1) :
    CommitsInPlace size segments ↔ t1 = 0 ∧ joinTexts (segments.take (i + 1)) ≠ [] := by
  have hpos := overlapBounds_pos hw
  obtain ⟨g, hg, rfl, hcase⟩ := hc
  have hgmem := List.mem_of_getElem? hg
  rw [joinTexts_ne_nil]
  constructor
  · rintro ⟨-, hall, g', hmem', hzero', htext⟩
    obtain ⟨j, hj⟩ := List.getElem?_of_mem hmem'
    rcases hcase with ⟨hlt, hlater⟩ | ⟨hlater, -⟩
    · have hzero : g.t1 = 0 := (hall g hgmem).resolve_right (by omega)
      have hji : j ≤ i := by
        by_contra hij
        have := hlater j (by omega) g' hj
        omega
      refine ⟨hzero, g', ?_, htext⟩
      rw [List.mem_take_iff_getElem]
      obtain ⟨hlen, hget⟩ := List.getElem?_eq_some_iff.mp hj
      exact ⟨j, by omega, hget⟩
    · have := hlater j g' hj
      omega
  · rintro ⟨hzero, g', hmem', htext⟩
    obtain ⟨j, hj, rfl⟩ := List.mem_take_iff_getElem.mp hmem'
    rcases hcase with ⟨hlt, hlater⟩ | ⟨hlater, -⟩
    · -- up to the last committed segment nothing ends after it
      have hbefore (k : ℕ) (hk : k < segments.length) (hki : k ≤ i) : segments[k].t1 = 0 := by
        obtain ⟨hi, hget⟩ := List.getElem?_eq_some_iff.mp hg
        have hnonneg := ht.nonneg segments[k] (List.getElem_mem hk)
        rcases hki.lt_or_eq with hki | rfl
        · have hle := List.pairwise_iff_getElem.mp ht.sorted k i hk hi hki
          rw [hget] at hle
          omega
        · rw [hget]
          exact hzero
      refine ⟨hw, ?_, _, List.getElem_mem (by omega), hbefore j (by omega) (by omega), htext⟩
      intro h hmem
      obtain ⟨k, hk⟩ := List.getElem?_of_mem hmem
      rcases le_or_gt k i with hki | hki
      · obtain ⟨hlen, rfl⟩ := List.getElem?_eq_some_iff.mp hk
        exact .inl (hbefore k hlen hki)
      · exact .inr (hlater k hki h hk)
    · have := hlater i g hg
      omega

/-- No segment ends before the overlap, the last but one ends with the audio or later, and there is
text in the last one. -/
def ClearsUncommitted (size : ℕ) (segments : List Segment) : Prop :=
  maxWindowSamples ≤ size ∧ (∀ g ∈ segments, overlapBounds size ≤ g.t1) ∧
    ∃ front g last, segments = front ++ [g, last] ∧ (size : ℤ) ≤ 160 * g.t1 ∧
      last.text.getD [] ≠ []

theorem clearsUncommitted_iff (hw : maxWindowSamples ≤ size)
    (hc : CommitsThrough size segments i t1) :
    ClearsUncommitted size segments ↔
      (size : ℤ) ≤ 160 * t1 ∧ joinTexts (segments.drop (i + 1)) ≠ [] := by
  have hbound := overlapBounds_mul_le hw
  obtain ⟨g, hg, rfl, hcase⟩ := hc
  constructor
  · rintro ⟨-, hall, front, g', last, rfl, hend, htext⟩
    rcases hcase with ⟨hlt, -⟩ | ⟨-, hi⟩
    · have := hall g (List.mem_of_getElem? hg)
      omega
    · obtain rfl : i = front.length := by simpa using hi
      obtain rfl : g' = g := by simpa using hg
      exact ⟨hend, joinTexts_ne_nil.mpr ⟨last, by simp, htext⟩⟩
  · rintro ⟨hend, htext⟩
    rcases hcase with ⟨hlt, -⟩ | ⟨hlater, hi⟩
    · omega
    · obtain ⟨hlen, hget⟩ := List.getElem?_eq_some_iff.mp hg
      have hlast : segments.drop (i + 1) = [segments[i + 1]] := by
        rw [List.drop_eq_getElem_cons (by omega), List.drop_of_length_le (by omega)]
      have hsplit : segments = segments.take i ++ [g, segments[i + 1]] := by
        rw [← hget, ← hlast, ← List.drop_eq_getElem_cons, List.take_append_drop]
      refine ⟨hw, ?_, _, _, _, hsplit, hend, ?_⟩
      · intro g' hmem
        obtain ⟨k, hk⟩ := List.getElem?_of_mem hmem
        exact hlater k g' hk
      · rw [hlast, joinTexts_ne_nil] at htext
        simpa using htext

namespace StreamingWhisperEngine

variable {e e' : StreamingWhisperEngine} {whisper : WhisperFull} {res : TranscribeResult}

/-- A prefix of the segments is committed, all of them if the call is forced, and the others are
partial. -/
theorem commitWindow_parts (e : StreamingWhisperEngine) (segments : List Segment) (force : Bool) :
    ∃ k, k ≤ segments.length ∧ (force = true → k = segments.length) ∧
      (e.commitWindow segments force).1.committedText = joinTexts (segments.take k) ∧
      (e.commitWindow segments force).1.partialText = joinTexts (segments.drop k) := by
  rcases commitWindow_cases e segments force with ⟨i, t1, -, hpoint, hwindow⟩ | ⟨hpoint, hwindow⟩
  · rw [hwindow]
    refine ⟨i + 1, commitPoint_lt hpoint, ?_, rfl, rfl⟩
    rintro rfl
    exact commitPoint_forced hpoint
  · rw [hwindow]
    refine ⟨0, Nat.zero_le _, ?_, rfl, rfl⟩
    rintro rfl
    rw [commitPoint_forced_eq_none (hpoint (.inl rfl))]
    rfl

/-- A successful inference parts its segments: a prefix is committed, all of it if the call is
forced, the others are partial, and every text is reported once and in order. -/
theorem transcribe_partitions (force : Bool) (hne : e.audioBuffer ≠ [])
    (hok : (e.infer whisper).result = 0) :
    ∃ res e' k, e.transcribeSlidingWindow whisper force = .ok (res, e') ∧
      k ≤ (e.infer whisper).segments.length ∧
      res.committedText = joinTexts ((e.infer whisper).segments.take k) ∧
      res.partialText = joinTexts ((e.infer whisper).segments.drop k) ∧
      res.committedText ++ res.partialText = joinTexts (e.infer whisper).segments ∧
      (force = true → k = (e.infer whisper).segments.length) := by
  obtain ⟨k, hk, hforced, hcommitted, hpartial⟩ := commitWindow_parts
    (e.lockLanguage (e.infer whisper).lang) (e.infer whisper).segments force
  have hjoin := joinTexts_take_append_drop k (e.infer whisper).segments
  rw [← hcommitted, ← hpartial] at hjoin
  exact ⟨_, _, k, transcribe_eq_ok.mpr (.inr ⟨hne, hok, rfl⟩), hk, hcommitted, hpartial, hjoin,
    hforced⟩

/-- An unforced call that reports committed text shortens the buffer, unless all that ends before
the overlap ends at zero. -/
theorem shortens_iff (ht : EndTimes (e.infer whisper).segments)
    (h : e.transcribeSlidingWindow whisper false = .ok (res, e')) :
    (res.committedText ≠ [] → e'.audioBuffer.length < e.audioBuffer.length) ↔
      ¬ CommitsInPlace e.audioBuffer.length (e.infer whisper).segments := by
  by_cases hne : e.audioBuffer = []
  · rcases transcribe_eq_ok.mp h with ⟨-, rfl, rfl⟩ | ⟨hne', -⟩
    · apply iff_of_true
      · intro hcommitted
        exact absurd rfl hcommitted
      · rintro ⟨hw, -⟩
        rw [hne] at hw
        exact absurd hw (by decide)
    · exact absurd hne hne'
  obtain ⟨-, ⟨i, t1, hw, hc, hcommitted, -, hbuffer⟩ | ⟨hnothing, hcommitted, -, hbuffer⟩⟩ :=
    transcribe_unforced h hne
  · have hlen : 160000 ≤ e.audioBuffer.length := hw
    have hnonneg : 0 ≤ t1 := by
      obtain ⟨g, hg, rfl, -⟩ := hc
      exact ht.nonneg g (List.mem_of_getElem? hg)
    rw [hbuffer, length_eraseCommitted, commitsInPlace_iff ht hw hc, hcommitted]
    constructor
    · rintro hshort ⟨rfl, htext⟩
      have := hshort htext
      omega
    · intro hplace htext
      have hpos : t1 ≠ 0 := fun hzero => hplace ⟨hzero, htext⟩
      omega
  · apply iff_of_true
    · intro htext
      exact absurd hcommitted htext
    · rintro ⟨hw, -, g, hmem, hzero, -⟩
      obtain ⟨j, hj⟩ := List.getElem?_of_mem hmem
      have := (hnothing hw).2 j g hj
      have := overlapBounds_pos hw
      omega

/-- An unforced call that commits takes exactly the audio up to the end of the last committed
segment, and leaves some for the partial text it reports, unless a fallback commit ends with the
audio. -/
theorem keepsUncommitted_iff (h : e.transcribeSlidingWindow whisper false = .ok (res, e')) :
    (∀ i t1, maxWindowSamples ≤ e.audioBuffer.length →
        CommitsThrough e.audioBuffer.length (e.infer whisper).segments i t1 →
        res.partialText ≠ [] →
          e'.audioBuffer ≠ [] ∧ e'.audioBuffer = e.audioBuffer.drop (160 * t1).toNat) ↔
      ¬ ClearsUncommitted e.audioBuffer.length (e.infer whisper).segments := by
  by_cases hw : maxWindowSamples ≤ e.audioBuffer.length
  · have hlen : 160000 ≤ e.audioBuffer.length := hw
    have hne : e.audioBuffer ≠ [] := List.length_pos_iff.mp (by omega)
    obtain ⟨-, ⟨i, t1, -, hc, -, hpartial, hbuffer⟩ | ⟨hnothing, -⟩⟩ := transcribe_unforced h hne
    · rw [clearsUncommitted_iff hw hc, hbuffer, eraseCommitted_eq_drop, hpartial]
      constructor
      · rintro hkeeps ⟨hend, htext⟩
        apply (hkeeps i t1 hw hc htext).1
        exact List.drop_of_length_le (by omega)
      · intro hkeeps j t hw' hc' htext
        have hpoint := (commitPoint_eq_some.mpr hc).symm.trans (commitPoint_eq_some.mpr hc')
        simp only [Option.some.injEq, Prod.mk.injEq] at hpoint
        obtain ⟨rfl, rfl⟩ := hpoint
        refine ⟨?_, rfl⟩
        rw [← List.length_pos_iff, List.length_drop]
        by_contra hcleared
        exact hkeeps ⟨by omega, htext⟩
    · have hnone := commitPoint_eq_none.mpr (hnothing hw)
      apply iff_of_true
      · intro i t1 _ hc
        rw [commitPoint_eq_some.mpr hc] at hnone
        cases hnone
      · rintro ⟨-, -, front, g, last, hsegments, -⟩
        have := (hnothing hw).1
        rw [hsegments] at this
        simp at this
  · apply iff_of_true
    · intro _ _ hw'
      exact absurd hw' hw
    · rintro ⟨hw', -⟩
      exact hw hw'

end StreamingWhisperEngine

namespace Demo

/-- A window of ten seconds. -/
@[irreducible] def tenSecondWindow : StreamingWhisperEngine :=
  { ctx := 0, audioBuffer := List.replicate 160000 0 }

theorem tenSecondWindow_length : tenSecondWindow.audioBuffer.length = 160000 := by
  rw [tenSecondWindow, List.length_replicate]

theorem tenSecondWindow_ne_nil : tenSecondWindow.audioBuffer ≠ [] := by
  rw [← List.length_pos_iff, tenSecondWindow_length]
  decide

theorem tenSecondWindow_hears {segments : List Segment} {i : ℕ} {t1 : ℤ}
    (h : commitPoint false 160000 segments = some (i, t1)) :
    ∃ e', tenSecondWindow.transcribeSlidingWindow (hears segments) false =
        .ok ({ committedText := joinTexts (segments.take (i + 1))
               partialText := joinTexts (segments.drop (i + 1)) }, e') ∧
      e'.audioBuffer = tenSecondWindow.audioBuffer.drop (160 * t1).toNat := by
  rw [← tenSecondWindow_length] at h
  refine ⟨_, transcribe_hears ?_ h, eraseCommitted_eq_drop _⟩
  rw [tenSecondWindow_length]
  decide

/-- Two words, of which the first one ends before the overlap. -/
def twoWords : List Segment := [⟨some (lit "hola"), 100⟩, ⟨some (lit "mundo"), 1000⟩]

theorem partitions_of_two_words : ∃ res e' k,
    tenSecondWindow.transcribeSlidingWindow (hears twoWords) false = .ok (res, e') ∧
      res.committedText = joinTexts (twoWords.take k) ∧
      res.committedText ++ res.partialText = joinTexts twoWords := by
  have hok : (tenSecondWindow.infer (hears twoWords)).result = 0 := by rw [infer_hears]
  obtain ⟨res, e', k, h, -, hcommitted, -, hall, -⟩ :=
    StreamingWhisperEngine.transcribe_partitions false tenSecondWindow_ne_nil hok
  exact ⟨res, e', k, h, hcommitted, hall⟩

/-- One word is heard, which ends before the overlap. -/
theorem shortens_of_one_word : ∃ res e',
    tenSecondWindow.transcribeSlidingWindow (hears [⟨some (lit "hola"), 100⟩]) false =
      .ok (res, e') ∧ res.committedText = lit "hola" ∧
      e'.audioBuffer.length < tenSecondWindow.audioBuffer.length := by
  have hpoint : commitPoint false 160000 [⟨some (lit "hola"), 100⟩] = some (0, 100) := by decide
  obtain ⟨e', h, -⟩ := tenSecondWindow_hears hpoint
  refine ⟨_, e', h, by decide, ?_⟩
  apply (StreamingWhisperEngine.shortens_iff ⟨by simp, by simp⟩ h).mpr
  · rw [tenSecondWindow_length]
    decide
  · decide

/-- A word that ends at zero is committed, and its audio stays to be transcribed again. -/
theorem not_shorter_of_word_at_zero :
    ¬ ∀ (e e' : StreamingWhisperEngine) (whisper : WhisperFull) (res : TranscribeResult),
        EndTimes (e.infer whisper).segments →
        e.transcribeSlidingWindow whisper false = .ok (res, e') → res.committedText ≠ [] →
        e'.audioBuffer.length < e.audioBuffer.length := by
  intro hall
  have hpoint : commitPoint false 160000 [⟨some (lit "hola"), 0⟩] = some (0, 0) := by decide
  obtain ⟨e', h, hbuffer⟩ := tenSecondWindow_hears hpoint
  have hshort := hall tenSecondWindow e' _ _ ⟨by simp, by simp⟩ h (by decide)
  rw [hbuffer] at hshort
  simp at hshort

/-- The audio of the second word stays. -/
theorem keepsUncommitted_of_two_words : ∃ res e',
    tenSecondWindow.transcribeSlidingWindow (hears twoWords) false = .ok (res, e') ∧
      res.partialText = lit "mundo" ∧ e'.audioBuffer ≠ [] ∧
      e'.audioBuffer = tenSecondWindow.audioBuffer.drop 16000 := by
  have hpoint : commitPoint false 160000 twoWords = some (0, 100) := by decide
  obtain ⟨e', h, -⟩ := tenSecondWindow_hears hpoint
  refine ⟨_, e', h, by decide, ?_⟩
  apply (StreamingWhisperEngine.keepsUncommitted_iff h).mpr _ 0 100
  · rw [tenSecondWindow_length]
    decide
  · rw [tenSecondWindow_length]
    exact commitPoint_eq_some.mp hpoint
  · decide
  · rintro ⟨-, hlater, -⟩
    rw [tenSecondWindow_length] at hlater
    exact absurd (hlater ⟨some (lit "hola"), 100⟩ (by simp [twoWords])) (by decide)

/-- Neither of two words ends before the overlap, and the first of them ends with the audio: the
second one is only partial, and the buffer is cleared. -/
theorem cleared_of_two_words :
    ¬ ∀ (e e' : StreamingWhisperEngine) (whisper : WhisperFull) (res : TranscribeResult),
        EndTimes (e.infer whisper).segments →
        e.transcribeSlidingWindow whisper false = .ok (res, e') →
        ∀ i t1, maxWindowSamples ≤ e.audioBuffer.length →
          CommitsThrough e.audioBuffer.length (e.infer whisper).segments i t1 →
          res.partialText ≠ [] →
            e'.audioBuffer ≠ [] ∧ e'.audioBuffer = e.audioBuffer.drop (160 * t1).toNat := by
  intro hall
  have hpoint : commitPoint false 160000
      [⟨some (lit "hola"), 1000⟩, ⟨some (lit "mundo"), 1000⟩] = some (0, 1000) := by decide
  obtain ⟨e', h, hbuffer⟩ := tenSecondWindow_hears hpoint
  have hkept := hall tenSecondWindow e' _ _ ⟨by simp, by simp⟩ h 0 1000
    (by rw [tenSecondWindow_length]; decide)
    (by rw [tenSecondWindow_length]; exact commitPoint_eq_some.mp hpoint) (by decide)
  apply hkept.1
  rw [hbuffer, List.drop_of_length_le]
  rw [tenSecondWindow_length]
  decide

end Demo

end JotaTranscriber
