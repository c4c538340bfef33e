import JotaTranscriber.Session.Buffer
import JotaTranscriber.Session.Solo

/-! # The marker of the flush thread

`last_transcribed_size_` follows the buffer: a chunk lengthens the buffer, a
config empties both, and a flush cycle moves the marker to the end. Where a
commit erases audio but has no text, the marker stays at the old end, and the
next subtraction wraps.
-/

namespace JotaTranscriber

open Transition

/-- The marker lies within the buffer. -/
def Session.Marked (s : Session) : Prop :=
  ∀ e, s.engine = some e → s.lastTranscribedSize ≤ e.audioBuffer.length

/-- An unforced call on a buffer of `size` samples commits segments without text, and erases their
audio. -/
def CommitsSilence (size : ℕ) (segments : List Segment) : Prop :=
  maxWindowSamples ≤ size ∧ ∃ i t1, CommitsThrough size segments i t1 ∧ 0 < t1 ∧
    joinTexts (segments.take (i + 1)) = []

/-- A flush cycle whose commit erases audio and has no text. -/
def Overmarks (t : Threads) : Event → Prop
  | .flushReturn whisper => ∃ e, t.session.engine = some e ∧ (e.infer whisper).result = 0 ∧
      CommitsSilence e.audioBuffer.length (e.infer whisper).segments
  | _ => False

/-- A flush cycle gets as far as its subtraction, which is not the difference of the sizes. -/
def Wraps (t : Threads) : Event → Prop
  | .flushLock _ _ => t.receiver ≠ .forcing ∧ t.session.configured = true ∧
      ∃ e, t.session.engine = some e ∧ Session.minBufferSamples ≤ e.getBufferSize ∧
        (sizeSub e.getBufferSize t.session.lastTranscribedSize : ℤ) ≠
          e.getBufferSize - t.session.lastTranscribedSize
  | _ => False

theorem sizeSub_of_le {a b : ℕ} (h : b ≤ a) (ha : a < 2 ^ 64) : sizeSub a b = a - b := by
  rw [sizeSub]
  omega

namespace Session

variable {s s' : Session}

theorem marked_of_engine {e : StreamingWhisperEngine} (he : s.engine = some e) :
    s.Marked ↔ s.lastTranscribedSize ≤ e.audioBuffer.length := by
  simp [Marked, he]

/-- A cycle leaves the marker within the buffer unless its commit was silent. -/
theorem applyResult_marked_iff {e e' : StreamingWhisperEngine} {whisper : WhisperFull}
    {res : TranscribeResult} (h : e.transcribeSlidingWindow whisper false = .ok (res, e'))
    (hne : e.audioBuffer ≠ []) :
    (s.applyResult e.audioBuffer.length res e').Marked ↔
      ¬ CommitsSilence e.audioBuffer.length (e.infer whisper).segments := by
  obtain ⟨-, hcases⟩ := transcribe_unforced h hne
  rw [marked_of_engine rfl]
  simp only [applyResult, StreamingWhisperEngine.getBufferSize]
  rcases hcases with ⟨i, t1, hw, hk, hc, -, hb⟩ | ⟨hk, hc, -, hb⟩
  · have hlen : e'.audioBuffer.length = e.audioBuffer.length - (t1 * 160).toNat := by
      rw [hb, length_eraseCommitted]
    have hpos : 0 < e.audioBuffer.length := lt_of_lt_of_le (by decide) hw
    constructor
    · rintro hmarked ⟨-, j, t, hj, ht, hempty⟩
      have huniq := (commitPoint_eq_some.mpr hj).symm.trans (commitPoint_eq_some.mpr hk)
      simp only [Option.some.injEq, Prod.mk.injEq] at huniq
      obtain ⟨rfl, rfl⟩ := huniq
      rw [if_neg (by simp [hc, hempty])] at hmarked
      omega
    · intro hnot
      split
      · exact le_rfl
      · rename_i hempty
        have ht : ¬ 0 < t1 := by
          intro ht
          exact hnot ⟨hw, i, t1, hk, ht, hc ▸ not_not.mp hempty⟩
        omega
  · rw [if_neg (by simp [hc]), hb]
    apply iff_of_true le_rfl
    rintro ⟨hw, i, t1, hj, -⟩
    have := (commitPoint_eq_some.mpr hj).symm.trans (commitPoint_eq_none.mpr (hk hw))
    cases this

end Session

namespace Threads

variable {P : Platform} {t t' : Threads} {ev : Event}

/-- A step takes the marker out of the buffer exactly if it is a silent commit. -/
theorem step_marked_iff (hc : Consistent t) (h : t.session.Marked) (hend : ev.beforeEnd = true)
    (hs : t.step P ev = some t') : t'.session.Marked ↔ ¬ Overmarks t ev := by
  cases step_bufferMove hc hs with
  | chunk _ he _ he' _ hl =>
    rw [Session.marked_of_engine he] at h
    rw [Session.marked_of_engine he', hl]
    exact iff_of_true (h.trans StreamingWhisperEngine.length_le_processAudioChunk) id
  | config _ he' _ hl =>
    rw [Session.marked_of_engine he', hl]
    exact iff_of_true (Nat.zero_le _) id
  | @cycle whisper e e' res _ he hmin htr heq =>
    have hne : e.audioBuffer ≠ [] := by
      rintro hnil
      rw [hnil] at hmin
      exact absurd hmin (by decide)
    rw [heq, Session.applyResult_marked_iff htr hne, not_iff_not]
    simp [Overmarks, he, (transcribe_unforced htr hne).1]
  | forced => cases hend
  | gone hev hnone =>
    have hmarked : t'.session.Marked := by
      rintro e he
      rw [hnone] at he
      cases he
    rcases hev with rfl | rfl <;> exact iff_of_true hmarked id
  | same h' _ hfail =>
    have hmarked : t'.session.Marked := by
      intro e he
      rw [h'.lastTranscribedSize]
      exact h e (h'.engine ▸ he)
    apply iff_of_true hmarked
    intro hover
    cases ev with
    | flushReturn whisper =>
      obtain ⟨e, he, hres, -⟩ := hover
      exact hfail whisper e rfl he hres
    | _ => exact hover

theorem not_wraps_of_marked (h : t.session.Marked) (hb : Bounded t) : ¬ Wraps t ev := by
  cases ev with
  | flushLock now slot =>
    rintro ⟨-, -, e, he, -, hwraps⟩
    have hle := h e he
    have hmax : e.audioBuffer.length ≤ 480000 := by
      have := hb
      rwa [Bounded, bufferSize_of_engine he] at this
    rw [StreamingWhisperEngine.getBufferSize, sizeSub_of_le hle (by omega)] at hwraps
    omega
  | _ => exact id

end Threads

section Runs

variable {P : Platform} {params : SessionParams} {start : ℤ} {t : Threads}
  {tr : List (Threads × Event)}

end Runs

namespace Demo

/-- The engine after a frame of 10 s. -/
def tenSeconds : StreamingWhisperEngine := fill engine 160000

theorem tenSeconds_size : tenSeconds.audioBuffer.length = 160000 := by
  rw [tenSeconds, fill_size (by simp [highWaterMark])]
  simp [maxBufferSamples]

/-- Whisper hears a segment without text in the first second. -/
theorem silent_transcribe : ∃ e',
    tenSeconds.transcribeSlidingWindow (hears [⟨some [], 100⟩]) false =
      .ok ({ committedText := [] }, e') ∧ e'.audioBuffer.length = 144000 := by
  have hwindow : maxWindowSamples ≤ tenSeconds.audioBuffer.length := by
    simp [tenSeconds_size, maxWindowSamples]
  have hends : 100 < overlapBounds tenSeconds.audioBuffer.length := by
    rw [tenSeconds_size]
    decide
  obtain ⟨e', htr, hlen⟩ := transcribe_hears_one [] hwindow hends
  rw [tenSeconds_size] at hlen
  exact ⟨e', htr, hlen⟩

/-- A cycle that finds no free slot, or nothing to do. -/
theorem step_no_slot {s : Session} {e : StreamingWhisperEngine} (h : Listening s e) :
    Threads.step platform ⟨s, .writing [], .waiting⟩ (.flushLock 0 false) =
      some ⟨s, .writing [], .waiting⟩ := by
  simp only [Threads.step, Threads.flusherStep, h.running, Bool.not_true, Bool.false_eq_true,
    if_false, reduceCtorEq]
  cases s.flushReady 0 <;> rfl

end Demo

end JotaTranscriber
