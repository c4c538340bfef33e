import JotaTranscriber.Whisper.Engine

/-! # The commit rule

The backward search and its fallback, as a statement about the segments: a
window commits through the last segment that ends before the overlap, or, when
none does and there are several, through the last but one.
-/

namespace JotaTranscriber

variable {segments : List Segment} {bound t1 : ℤ} {size i n : ℕ}

theorem searchBack_eq_none :
    searchBack segments bound n = none ↔
      ∀ j < n, ∀ g, segments[j]? = some g → bound ≤ g.t1 := by
  induction n with
  | zero => simp [searchBack]
  | succ n ih =>
    have hsplit : (∀ j < n + 1, ∀ g, segments[j]? = some g → bound ≤ g.t1) ↔
        (∀ g, segments[n]? = some g → bound ≤ g.t1) ∧
          ∀ j < n, ∀ g, segments[j]? = some g → bound ≤ g.t1 := by
      constructor
      · exact fun h => ⟨h n (by omega), fun j hj => h j (by omega)⟩
      · rintro ⟨h, h'⟩ j hj
        rcases Nat.lt_succ_iff_lt_or_eq.mp hj with hj | rfl
        · exact h' j hj
        · exact h
    rw [hsplit, searchBack]
    split
    · rename_i g hg
      split
      · simpa [hg] using fun h => absurd h (by omega)
      · rw [ih]
        simpa [hg] using fun _ => by omega
    · rename_i hg
      simp [ih, hg]

theorem searchBack_eq_some :
    searchBack segments bound n = some (i, t1) ↔
      i < n ∧ ∃ g, segments[i]? = some g ∧ g.t1 = t1 ∧ t1 < bound ∧
        ∀ j, i < j → j < n → ∀ g', segments[j]? = some g' → bound ≤ g'.t1 := by
  induction n with
  | zero => simp [searchBack]
  | succ n ih =>
    rw [searchBack]
    constructor
    · intro h
      split at h
      · rename_i g hg
        split at h
        · cases h
          exact ⟨by omega, g, hg, rfl, ‹_›, fun j h₁ h₂ => by omega⟩
        · obtain ⟨hi, g', hg', ht, hb, hl⟩ := ih.mp h
          refine ⟨by omega, g', hg', ht, hb, fun j h₁ h₂ g'' hg'' => ?_⟩
          rcases Nat.lt_succ_iff_lt_or_eq.mp h₂ with h₂ | rfl
          · exact hl j h₁ h₂ g'' hg''
          · obtain rfl := Option.some.inj (hg.symm.trans hg'')
            omega
      · rename_i hg
        obtain ⟨hi, g', hg', ht, hb, hl⟩ := ih.mp h
        refine ⟨by omega, g', hg', ht, hb, fun j h₁ h₂ g'' hg'' => ?_⟩
        rcases Nat.lt_succ_iff_lt_or_eq.mp h₂ with h₂ | rfl
        · exact hl j h₁ h₂ g'' hg''
        · simp [hg] at hg''
    · rintro ⟨hi, g', hg', ht, hb, hl⟩
      rcases Nat.lt_succ_iff_lt_or_eq.mp hi with hi | rfl
      · have ih' := ih.mpr ⟨hi, g', hg', ht, hb, fun j h₁ h₂ => hl j h₁ (by omega)⟩
        split
        · rename_i g hg
          rw [if_neg (by have := hl n hi (by omega) g hg; omega), ih']
        · exact ih'
      · simp [hg', ht, hb]

/-- An unforced window commits its segments up to the `i`-th, which ends at `t1`. -/
def CommitsThrough (size : ℕ) (segments : List Segment) (i : ℕ) (t1 : ℤ) : Prop :=
  ∃ g, segments[i]? = some g ∧ g.t1 = t1 ∧
    ((t1 < overlapBounds size ∧
        ∀ j, i < j → ∀ g', segments[j]? = some g' → overlapBounds size ≤ g'.t1) ∨
      ((∀ j : ℕ, ∀ g', segments[j]? = some g' → overlapBounds size ≤ g'.t1) ∧
        i + 2 = segments.length))

/-- An unforced window commits nothing. -/
def CommitsNothing (size : ℕ) (segments : List Segment) : Prop :=
  segments.length ≤ 1 ∧ ∀ j : ℕ, ∀ g, segments[j]? = some g → overlapBounds size ≤ g.t1

theorem lt_length_of_getElem? {g : Segment} (h : segments[i]? = some g) : i < segments.length :=
  (List.getElem?_eq_some_iff.mp h).1

/-- The fallback is reached when no segment ends before the overlap. -/
theorem searchBack_length_eq_none :
    searchBack segments bound segments.length = none ↔
      ∀ j : ℕ, ∀ g, segments[j]? = some g → bound ≤ g.t1 :=
  searchBack_eq_none.trans
    ⟨fun h j g hg => h j (lt_length_of_getElem? hg) g hg, fun h j _ => h j⟩

theorem commitPoint_eq_some :
    commitPoint false size segments = some (i, t1) ↔ CommitsThrough size segments i t1 := by
  unfold commitPoint CommitsThrough
  simp only [Bool.false_eq_true, if_false]
  cases hs : searchBack segments (overlapBounds size) segments.length with
  | some c =>
    obtain ⟨k, t⟩ := c
    obtain ⟨hk, g, hg, ht, hb, hl⟩ := searchBack_eq_some.mp hs
    constructor
    · intro h
      cases h
      exact ⟨g, hg, ht, .inl ⟨hb, fun j hj g' hg' =>
        hl j hj (lt_length_of_getElem? hg') g' hg'⟩⟩
    · rintro ⟨g', hg', ht', ⟨hb', hl'⟩ | ⟨hall, _⟩⟩
      · exact hs.symm.trans (searchBack_eq_some.mpr
          ⟨lt_length_of_getElem? hg', g', hg', ht', hb', fun j hj _ => hl' j hj⟩)
      · have := hall k g hg
        omega
  | none =>
    have hall := searchBack_length_eq_none.mp hs
    dsimp only
    constructor
    · intro h
      split at h
      · simp only [Option.some.injEq, Prod.mk.injEq] at h
        obtain ⟨rfl, ht⟩ := h
        exact ⟨_, List.getElem?_eq_getElem _, ht, .inr ⟨hall, by omega⟩⟩
      · cases h
    · rintro ⟨g, hg, ht, ⟨hb, _⟩ | ⟨_, hi⟩⟩
      · have := hall i g hg
        omega
      · obtain rfl : i = segments.length - 2 := by omega
        rw [dif_pos (by omega), ← ht, (List.getElem?_eq_some_iff.mp hg).2]

theorem commitPoint_eq_none :
    commitPoint false size segments = none ↔ CommitsNothing size segments := by
  unfold commitPoint CommitsNothing
  simp only [Bool.false_eq_true, if_false]
  cases hs : searchBack segments (overlapBounds size) segments.length with
  | some c =>
    obtain ⟨_, g, hg, ht, hb, _⟩ := searchBack_eq_some.mp hs
    refine iff_of_false (by rintro ⟨⟩) ?_
    rintro ⟨_, hall⟩
    have := hall _ g hg
    omega
  | none =>
    have hall := searchBack_length_eq_none.mp hs
    dsimp only
    constructor
    · intro h
      split at h
      · cases h
      · exact ⟨by omega, hall⟩
    · rintro ⟨hl, _⟩
      rw [dif_neg (by omega)]

/-- Unless it is forced, a commit drops the audio up to its end time, be it beyond the buffer. -/
theorem eraseCommitted_eq_drop (buffer : List ℚ) :
    eraseCommitted false t1 buffer = buffer.drop (160 * t1).toNat := by
  have hcomm : t1 * 160 = 160 * t1 := mul_comm _ _
  simp only [eraseCommitted, Bool.false_eq_true, if_false, hcomm]
  split
  · split
    · rfl
    · rw [List.drop_of_length_le (by omega)]
  · have hzero : (160 * t1).toNat = 0 := by omega
    rw [hzero, List.drop_zero]

/-- A commit that is not forced takes the audio up to the end of the last committed segment. -/
theorem length_eraseCommitted (buffer : List ℚ) :
    (eraseCommitted false t1 buffer).length = buffer.length - (t1 * 160).toNat := by
  rw [eraseCommitted_eq_drop, List.length_drop, mul_comm]

/-- An unforced call that finds audio and returns normally: either the commit rule applies, or all
text is partial and the audio stays. -/
theorem transcribe_unforced {e e' : StreamingWhisperEngine} {whisper : WhisperFull}
    {res : TranscribeResult} (h : e.transcribeSlidingWindow whisper false = .ok (res, e'))
    (hne : e.audioBuffer ≠ []) :
    (e.infer whisper).result = 0 ∧
      ((∃ i t1, maxWindowSamples ≤ e.audioBuffer.length ∧
          CommitsThrough e.audioBuffer.length (e.infer whisper).segments i t1 ∧
          res.committedText = joinTexts ((e.infer whisper).segments.take (i + 1)) ∧
          res.partialText = joinTexts ((e.infer whisper).segments.drop (i + 1)) ∧
          e'.audioBuffer = eraseCommitted false t1 e.audioBuffer) ∨
        ((maxWindowSamples ≤ e.audioBuffer.length →
            CommitsNothing e.audioBuffer.length (e.infer whisper).segments) ∧
          res.committedText = [] ∧ res.partialText = joinTexts (e.infer whisper).segments ∧
          e'.audioBuffer = e.audioBuffer)) := by
  rcases StreamingWhisperEngine.transcribe_eq_ok.mp h with ⟨he, _⟩ | ⟨_, hres, hc⟩
  · exact absurd he hne
  refine ⟨hres, ?_⟩
  rcases StreamingWhisperEngine.commitWindow_cases (e.lockLanguage (e.infer whisper).lang)
    (e.infer whisper).segments false with ⟨i, t1, hw, hk, hr⟩ | ⟨hk, hr⟩
  all_goals
    simp only [StreamingWhisperEngine.lockLanguage_audioBuffer, Bool.false_eq_true,
      false_or] at *
    rw [hr, Prod.mk.injEq] at hc
    obtain ⟨rfl, rfl⟩ := hc
  · exact .inl ⟨i, t1, hw, commitPoint_eq_some.mp hk, rfl, rfl, rfl⟩
  · exact .inr ⟨fun hw => commitPoint_eq_none.mp (hk hw), rfl, rfl, by simp⟩

namespace Demo

/-- A whisper that returns these segments, whatever it is given. -/
def hears (segments : List Segment) : WhisperFull := fun _ _ => ⟨0, segments, none⟩

@[simp] theorem infer_hears (e : StreamingWhisperEngine) (segments : List Segment) :
    e.infer (hears segments) = ⟨0, segments, none⟩ := rfl

theorem lockLanguage_none (e : StreamingWhisperEngine) : e.lockLanguage none = e := by
  unfold StreamingWhisperEngine.lockLanguage
  split <;> rfl

/-- A full window is committed through the `i`-th of the segments that are heard. -/
theorem transcribe_hears {e : StreamingWhisperEngine} {segments : List Segment} {i : ℕ} {t1 : ℤ}
    (hw : maxWindowSamples ≤ e.audioBuffer.length)
    (h : commitPoint false e.audioBuffer.length segments = some (i, t1)) :
    e.transcribeSlidingWindow (hears segments) false =
      .ok ({ committedText := joinTexts (segments.take (i + 1))
             partialText := joinTexts (segments.drop (i + 1)) },
        { e with audioBuffer := eraseCommitted false t1 e.audioBuffer }) := by
  have hne : e.audioBuffer ≠ [] := by
    rintro hnil
    simp [hnil, maxWindowSamples] at hw
  rw [StreamingWhisperEngine.transcribe_eq_ok]
  refine .inr ⟨hne, by rw [infer_hears], ?_⟩
  simp [StreamingWhisperEngine.commitWindow, lockLanguage_none, hw, h]

/-- A window of which one segment is heard that ends before the overlap. -/
theorem transcribe_hears_one {e : StreamingWhisperEngine} (text : Bytes) {t1 : ℤ}
    (hw : maxWindowSamples ≤ e.audioBuffer.length)
    (ht : t1 < overlapBounds e.audioBuffer.length) :
    ∃ e', e.transcribeSlidingWindow (hears [⟨some text, t1⟩]) false =
        .ok ({ committedText := text }, e') ∧
      e'.audioBuffer.length = e.audioBuffer.length - (t1 * 160).toNat := by
  have hpoint : commitPoint false e.audioBuffer.length [⟨some text, t1⟩] = some (0, t1) := by
    simp [commitPoint, searchBack, ht]
  refine ⟨{ e with audioBuffer := eraseCommitted false t1 e.audioBuffer }, ?_,
    length_eraseCommitted _⟩
  rw [transcribe_hears hw hpoint]
  simp [joinTexts]

/-- A window too short for a commit. -/
theorem transcribe_hears_short {e : StreamingWhisperEngine} (segments : List Segment)
    (hne : e.audioBuffer ≠ []) (hw : e.audioBuffer.length < maxWindowSamples) :
    e.transcribeSlidingWindow (hears segments) false =
      .ok ({ partialText := joinTexts segments }, e) := by
  rw [StreamingWhisperEngine.transcribe_eq_ok]
  refine .inr ⟨hne, rfl, ?_⟩
  simp [StreamingWhisperEngine.commitWindow, lockLanguage_none, not_le.mpr hw]

/-- A forced call that hears nothing. -/
theorem transcribe_hears_nothing (e : StreamingWhisperEngine) :
    e.transcribeSlidingWindow (hears []) true = .ok ({}, e) := by
  rw [StreamingWhisperEngine.transcribe_eq_ok]
  by_cases hb : e.audioBuffer = []
  · exact .inl ⟨hb, rfl, rfl⟩
  · refine .inr ⟨hb, rfl, ?_⟩
    simp [StreamingWhisperEngine.commitWindow, lockLanguage_none, commitPoint, joinTexts]

end Demo

end JotaTranscriber
