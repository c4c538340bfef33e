import JotaTranscriber.Whisper.Report

/-! # The overlap of two windows, and the forced call

A window of at least 10 s commits the segments that end before its last 2 s,
if there are any, and more than these 2 s stay in the buffer for the next
window. A forced call leaves no audio behind, unless nothing at all was heard.
-/

namespace JotaTranscriber

variable {segments : List Segment} {size i : ℕ} {t1 : ℤ}

/-- The segment ends before the last 2 s of the window. -/
def Segment.beforeOverlap (size : ℕ) (g : Segment) : Bool := g.t1 < overlapBounds size

/-- With a segment that ends before the overlap the search finds one, and the fallback is not
reached. -/
theorem CommitsThrough.lt_overlapBounds (hc : CommitsThrough size segments i t1)
    (hbefore : ∃ g ∈ segments, g.beforeOverlap size = true) : t1 < overlapBounds size := by
  obtain ⟨g, -, -, ⟨hlt, -⟩ | ⟨hlater, -⟩⟩ := hc
  · exact hlt
  · obtain ⟨g', hmem, hg'⟩ := hbefore
    obtain ⟨j, hj⟩ := List.getElem?_of_mem hmem
    have := hlater j g' hj
    simp only [Segment.beforeOverlap, decide_eq_true_eq] at hg'
    omega

/-- Segments in order are committed up to the overlap, no fewer and no more. -/
theorem CommitsThrough.take_drop (hc : CommitsThrough size segments i t1) (ht : EndTimes segments)
    (hlt : t1 < overlapBounds size) :
    segments.take (i + 1) = segments.filter (Segment.beforeOverlap size) ∧
      segments.drop (i + 1) = segments.filter fun g => !g.beforeOverlap size := by
  obtain ⟨g, hg, rfl, hcase⟩ := hc
  obtain ⟨hi, hget⟩ := List.getElem?_eq_some_iff.mp hg
  have htake : ∀ g' ∈ segments.take (i + 1), g'.beforeOverlap size = true := by
    intro g' hmem
    obtain ⟨j, hj, rfl⟩ := List.mem_take_iff_getElem.mp hmem
    have hle : segments[j].t1 ≤ g.t1 := by
      rcases (Nat.lt_succ_iff.mp (lt_min_iff.mp hj).1).lt_or_eq with hji | rfl
      · rw [← hget]
        exact List.pairwise_iff_getElem.mp ht.sorted j i (by omega) hi hji
      · rw [hget]
    exact decide_eq_true (by omega)
  have hdrop : ∀ g' ∈ segments.drop (i + 1), g'.beforeOverlap size = false := by
    intro g' hmem
    obtain ⟨j, hj, rfl⟩ := List.mem_drop_iff_getElem.mp hmem
    rcases hcase with ⟨-, hlater⟩ | ⟨hall, -⟩
    · have := hlater (i + 1 + j) (by omega) _ (List.getElem?_eq_getElem (by omega))
      exact decide_eq_false (by omega)
    · have := hall i g hg
      omega
  have hsplit := List.take_append_drop (i + 1) segments
  constructor
  · conv_rhs => rw [← hsplit]
    rw [List.filter_append, List.filter_eq_self.mpr htake, List.filter_eq_nil_iff.mpr ?_,
      List.append_nil]
    simpa using hdrop
  · conv_rhs => rw [← hsplit]
    rw [List.filter_append, List.filter_eq_nil_iff.mpr ?_, List.filter_eq_self.mpr ?_,
      List.nil_append]
    · simpa using hdrop
    · simpa using htake

/-- What ends before the overlap leaves more than the 2 s of it. -/
theorem overlap_kept (hw : maxWindowSamples ≤ size) (hlt : t1 < overlapBounds size) :
    32000 < size - (160 * t1).toNat := by
  have := overlapBounds_mul_le hw
  have hsize : 160000 ≤ size := hw
  omega

namespace StreamingWhisperEngine

variable {e e' : StreamingWhisperEngine} {whisper : WhisperFull} {res : TranscribeResult}

/-- A window in which a segment ends before the overlap commits exactly the segments that do, takes
exactly the audio up to the end of the last of them, and keeps more than 2 s. -/
theorem transcribe_commits_before_overlap (hw : maxWindowSamples ≤ e.audioBuffer.length)
    (hok : (e.infer whisper).result = 0) (ht : EndTimes (e.infer whisper).segments)
    (hbefore : ∃ g ∈ (e.infer whisper).segments, g.beforeOverlap e.audioBuffer.length = true) :
    ∃ res e' i g, e.transcribeSlidingWindow whisper false = .ok (res, e') ∧
      commitPoint false e.audioBuffer.length (e.infer whisper).segments = some (i, g.t1) ∧
      (e.infer whisper).segments.take (i + 1) =
        (e.infer whisper).segments.filter (Segment.beforeOverlap e.audioBuffer.length) ∧
      ((e.infer whisper).segments.filter (Segment.beforeOverlap e.audioBuffer.length)).getLast? =
        some g ∧
      res.committedText = joinTexts
        ((e.infer whisper).segments.filter (Segment.beforeOverlap e.audioBuffer.length)) ∧
      res.partialText = joinTexts
        ((e.infer whisper).segments.filter fun g => !g.beforeOverlap e.audioBuffer.length) ∧
      e'.audioBuffer = e.audioBuffer.drop (160 * g.t1).toNat ∧ 32000 < e'.audioBuffer.length := by
  have hsize : 160000 ≤ e.audioBuffer.length := hw
  have hne : e.audioBuffer ≠ [] := List.length_pos_iff.mp (by omega)
  obtain ⟨res, e', h⟩ : ∃ res e', e.transcribeSlidingWindow whisper false = .ok (res, e') :=
    ⟨_, _, transcribe_eq_ok.mpr (.inr ⟨hne, hok, rfl⟩)⟩
  obtain ⟨-, ⟨i, t1, -, hc, hcommitted, hpartial, hbuffer⟩ | ⟨hnothing, -⟩⟩ :=
    transcribe_unforced h hne
  · have hlt := hc.lt_overlapBounds hbefore
    obtain ⟨htake, hdrop⟩ := hc.take_drop ht hlt
    have hpoint := commitPoint_eq_some.mpr hc
    obtain ⟨g, hg, rfl, -⟩ := hc
    have hlast : ((e.infer whisper).segments.take (i + 1)).getLast? = some g := by
      rw [List.getLast?_take]
      simp [hg]
    rw [eraseCommitted_eq_drop] at hbuffer
    refine ⟨res, e', i, g, h, hpoint, htake, htake ▸ hlast, htake ▸ hcommitted, hdrop ▸ hpartial,
      hbuffer, ?_⟩
    rw [hbuffer, List.length_drop]
    exact overlap_kept hw hlt
  · obtain ⟨g, hmem, hg⟩ := hbefore
    obtain ⟨j, hj⟩ := List.getElem?_of_mem hmem
    have := (hnothing hw).2 j g hj
    simp only [Segment.beforeOverlap, decide_eq_true_eq] at hg
    omega

/-- A forced call that returns normally leaves an empty buffer, and reports all that was heard as
committed, if and only if there was no audio or whisper returned a segment. -/
theorem forced_clears_iff (h : e.transcribeSlidingWindow whisper true = .ok (res, e')) :
    (e'.audioBuffer = [] ∧ res.partialText = [] ∧
        (e.audioBuffer ≠ [] → res.committedText = joinTexts (e.infer whisper).segments)) ↔
      (e.audioBuffer = [] ∨ (e.infer whisper).segments ≠ []) := by
  rcases transcribe_eq_ok.mp h with ⟨hempty, rfl, rfl⟩ | ⟨hne, hok, hc⟩
  · apply iff_of_true
    · exact ⟨hempty, rfl, fun hne => absurd hempty hne⟩
    · exact .inl hempty
  obtain ⟨k, -, hall, hcommitted, hpartial⟩ := commitWindow_parts
    (e.lockLanguage (e.infer whisper).lang) (e.infer whisper).segments true
  obtain rfl := hall rfl
  rw [← hc] at hcommitted hpartial
  rw [List.take_length] at hcommitted
  rw [List.drop_length] at hpartial
  constructor
  · rintro ⟨hcleared, -⟩
    right
    intro hnone
    rw [hnone] at hc
    have hkept : e'.audioBuffer = e.audioBuffer := by
      rw [show e' = _ from congrArg Prod.snd hc]
      simp [commitWindow, commitPoint]
    exact hne (hkept ▸ hcleared)
  · rintro (hempty | hheard)
    · exact absurd hempty hne
    · have hcleared := (transcribe_forced h hne).2.resolve_right hheard
      exact ⟨hcleared, hpartial, fun _ => hcommitted⟩

end StreamingWhisperEngine

namespace Demo

/-- The first of two words ends before the overlap, and is what a window commits. -/
theorem commits_one_of_two_words : ∃ res e',
    tenSecondWindow.transcribeSlidingWindow (hears twoWords) false = .ok (res, e') ∧
      res.committedText = lit "hola" ∧ e'.audioBuffer = tenSecondWindow.audioBuffer.drop 16000 ∧
      32000 < e'.audioBuffer.length := by
  have hpoint : commitPoint false 160000 twoWords = some (0, 100) := by decide
  have hw : maxWindowSamples ≤ tenSecondWindow.audioBuffer.length := by
    rw [tenSecondWindow_length]
    decide
  have hok : (tenSecondWindow.infer (hears twoWords)).result = 0 := rfl
  obtain ⟨res, e', i, g, h, hcommit, -, -, hcommitted, -, hbuffer, hkept⟩ :=
    StreamingWhisperEngine.transcribe_commits_before_overlap hw hok
      ⟨by simp [twoWords], by simp [twoWords]⟩
      ⟨⟨some (lit "hola"), 100⟩, by simp [twoWords],
        by rw [tenSecondWindow_length]; decide⟩
  rw [infer_hears, tenSecondWindow_length] at hcommit hcommitted
  obtain ⟨-, ht⟩ := Prod.mk.inj (Option.some.inj (hpoint.symm.trans hcommit))
  rw [← ht] at hbuffer
  exact ⟨res, e', h, hcommitted.trans (by decide), hbuffer, hkept⟩

/-- A forced call that hears two words. -/
theorem forced_clears_of_two_words : ∃ res e',
    tenSecondWindow.transcribeSlidingWindow (hears twoWords) true = .ok (res, e') ∧
      e'.audioBuffer = [] ∧ res.partialText = [] := by
  obtain ⟨res, e', h⟩ : ∃ res e',
      tenSecondWindow.transcribeSlidingWindow (hears twoWords) true = .ok (res, e') :=
    ⟨_, _, StreamingWhisperEngine.transcribe_eq_ok.mpr
      (.inr ⟨tenSecondWindow_ne_nil, by rw [infer_hears], rfl⟩)⟩
  obtain ⟨hcleared, hpartial, -⟩ :=
    (StreamingWhisperEngine.forced_clears_iff h).mpr (.inr (by simp [infer_hears, twoWords]))
  exact ⟨res, e', h, hcleared, hpartial⟩

/-- Whisper returns no segment, and the forced call leaves the buffer as it is. -/
theorem forced_keeps_of_silence :
    ¬ ∀ (e e' : StreamingWhisperEngine) (whisper : WhisperFull) (res : TranscribeResult),
        e.transcribeSlidingWindow whisper true = .ok (res, e') →
          e'.audioBuffer = [] ∧ res.partialText = [] ∧
            (e.audioBuffer ≠ [] → res.committedText = joinTexts (e.infer whisper).segments) := by
  intro hall
  exact tenSecondWindow_ne_nil (hall _ _ _ _ (transcribe_hears_nothing tenSecondWindow)).1

end Demo

end JotaTranscriber
