import JotaTranscriber.Session.Buffer
import JotaTranscriber.Session.Solo

/-! # The saturated buffer

At the high-water mark the engine drops every chunk, and a flush cycle runs
only on samples newer than its marker. A buffer that is both full and marked
as transcribed is therefore stuck. The steps that lead there are exactly the
flush cycles that leave a full buffer marked, and the chunks that fill the
buffer up to a marker it had fallen behind.
-/

namespace JotaTranscriber

open Transition

/-- The buffer is at the high-water mark and the marker of the flush thread is at its end. -/
def Session.DeadSaturated (s : Session) : Prop :=
  highWaterMark ≤ s.bufferSize ∧ s.bufferSize = s.lastTranscribedSize

/-- The events between one config and the next or `end`, while the model is held. -/
def Event.betweenConfigs : Event → Bool
  | install .. | endLock | endReturn _ | release | joined => false
  | _ => true

/-- What whisper may answer to an unforced call on a full buffer of `size` samples so that it
stays full with nothing left to transcribe: no segment ends before the overlap and there is at most
one, or the commit leaves a full buffer and says something, or erases nothing. -/
def FlushWedges (size : ℕ) (segments : List Segment) : Prop :=
  highWaterMark ≤ size ∧ (CommitsNothing size segments ∨
    ∃ i t1, CommitsThrough size segments i t1 ∧ (highWaterMark : ℤ) ≤ size - 160 * t1 ∧
      (t1 ≤ 0 ∨ joinTexts (segments.take (i + 1)) ≠ []))

/-- The step brings the buffer to the high-water mark with the marker at its end. -/
def Wedges (t : Threads) : Event → Prop
  | .audio _ => t.session.configured = true ∧ t.session.engine.isSome = true ∧
      t.session.bufferSize < highWaterMark ∧ highWaterMark ≤ t.session.lastTranscribedSize ∧
      ∃ pcm, t.receiver = .audio pcm ∧
        min maxBufferSamples (t.session.bufferSize + pcm.length) = t.session.lastTranscribedSize
  | .flushReturn whisper => ∃ e, t.session.engine = some e ∧ (e.infer whisper).result = 0 ∧
      FlushWedges e.getBufferSize (e.infer whisper).segments
  | _ => False

namespace Session

variable {s s' : Session}

theorem deadSaturated_congr (he : s'.engine = s.engine)
    (hl : s'.lastTranscribedSize = s.lastTranscribedSize) :
    s'.DeadSaturated ↔ s.DeadSaturated := by
  simp only [DeadSaturated, bufferSize, he, hl]

theorem deadSaturated_of_engine {e : StreamingWhisperEngine} (he : s.engine = some e) :
    s.DeadSaturated ↔
      highWaterMark ≤ e.audioBuffer.length ∧ e.audioBuffer.length = s.lastTranscribedSize := by
  simp only [DeadSaturated, bufferSize, he, StreamingWhisperEngine.getBufferSize]

/-- After a cycle the session is dead exactly if whisper's answer wedges its buffer. -/
theorem applyResult_deadSaturated_iff {e e' : StreamingWhisperEngine} {whisper : WhisperFull}
    {res : TranscribeResult}
    (h : e.transcribeSlidingWindow whisper false = .ok (res, e')) (hne : e.audioBuffer ≠ []) :
    (s.applyResult e.getBufferSize res e').DeadSaturated ↔
      (e.infer whisper).result = 0 ∧
        FlushWedges e.getBufferSize (e.infer whisper).segments := by
  have hpos := List.length_pos_iff.mpr hne
  have hmark : 0 < highWaterMark := by decide
  obtain ⟨hres, hcases⟩ := transcribe_unforced h hne
  rw [deadSaturated_of_engine rfl]
  simp only [applyResult, StreamingWhisperEngine.getBufferSize, FlushWedges, hres, true_and]
  rcases hcases with ⟨i, t1, hw, hk, hc, _, hb⟩ | ⟨hk, hc, _, hb⟩
  · have hn : ¬ CommitsNothing e.audioBuffer.length (e.infer whisper).segments := by
      rw [← commitPoint_eq_none, commitPoint_eq_some.mpr hk]
      simp
    have huniq : ∀ {j t}, CommitsThrough e.audioBuffer.length (e.infer whisper).segments j t →
        j = i ∧ t = t1 := by
      intro j t hj
      have := (commitPoint_eq_some.mpr hj).symm.trans (commitPoint_eq_some.mpr hk)
      simpa using this
    have hlen : e'.audioBuffer.length = e.audioBuffer.length - (t1 * 160).toNat := by
      rw [hb, length_eraseCommitted]
    constructor
    · rintro ⟨hfull, hlast⟩
      refine ⟨by omega, .inr ⟨i, t1, hk, by omega, ?_⟩⟩
      rw [← hc]
      by_contra hneg
      push Not at hneg
      rw [if_neg (by simp [hneg.2])] at hlast
      omega
    · rintro ⟨hfull, hcn | ⟨j, t, hj, hleft, hlast⟩⟩
      · exact absurd hcn hn
      · obtain ⟨rfl, rfl⟩ := huniq hj
        rw [← hc] at hlast
        refine ⟨by omega, ?_⟩
        split
        · rfl
        · rename_i hempty
          rcases hlast with ht | ht
          · omega
          · exact absurd ht hempty
  · rw [if_neg (by simp [hc]), hb]
    constructor
    · rintro ⟨hfull, -⟩
      exact ⟨hfull, .inl (hk (le_trans (by decide) hfull))⟩
    · exact fun h => ⟨h.1, rfl⟩

end Session

namespace Threads

variable {P : Platform} {t t' : Threads} {ev : Event}

/-- A step from a live session to a dead one is a wedging step, and conversely. -/
theorem step_deadSaturated_iff (hc : Consistent t) (hd : ¬ t.session.DeadSaturated)
    (hb : ev.betweenConfigs = true) (hs : t.step P ev = some t') :
    t'.session.DeadSaturated ↔ Wedges t ev := by
  cases step_bufferMove hc hs with
  | chunk hpcm he hcf he' _ hlast =>
    rw [Session.deadSaturated_of_engine he', hlast]
    rw [Session.deadSaturated_of_engine he] at hd
    simp only [StreamingWhisperEngine.processAudioChunk_size, Wedges, hpcm, hcf, he,
      Option.isSome_some, Session.bufferSize, StreamingWhisperEngine.getBufferSize,
      Receiver.audio.injEq, exists_eq_left', true_and]
    split
    · exact iff_of_false hd (by omega)
    · omega
  | config => cases hb
  | cycle he hmin htr heq =>
    have hne : _ ≠ [] := List.length_pos_iff.mp (lt_of_lt_of_le (by decide) hmin)
    have hwedges := Session.applyResult_deadSaturated_iff (s := t.session) htr hne
    rw [StreamingWhisperEngine.getBufferSize] at hwedges
    rw [heq, hwedges]
    simp only [Wedges, he, Option.some.injEq, exists_eq_left',
      StreamingWhisperEngine.getBufferSize]
  | forced => cases hb
  | gone hev _ => rcases hev with rfl | rfl <;> cases hb
  | same hsame haudio hflush =>
    apply iff_of_false
    · rwa [Session.deadSaturated_congr hsame.engine hsame.lastTranscribedSize]
    · intro hw
      cases ev with
      | audio now =>
        obtain ⟨hcf, he, -⟩ := hw
        rcases haudio now rfl with hnone | hnot
        · simp [hnone] at he
        · simp [hnot] at hcf
      | flushReturn whisper =>
        obtain ⟨e, he, hres, -⟩ := hw
        exact hflush whisper e rfl he hres
      | _ => exact hw

/-- A dead session stays dead: chunks are dropped and no flush cycle gets past its triggers. -/
theorem deadSaturated_step (hd : t.session.DeadSaturated) (hf : t.flusher.holdsLock = false)
    (hb : ev.betweenConfigs = true) (hs : t.step P ev = some t') :
    t'.session.DeadSaturated ∧ t'.flusher.holdsLock = false := by
  cases step_moves hs with
  | text message validate _ =>
    rw [Session.handleJsonMessage_eq]
    exact ⟨hd, hf⟩
  | binary data now _ =>
    rw [Session.handleBinaryMessage_eq]
    exact ⟨hd, hf⟩
  | write o out => rw [Session.perform_eq]; exact ⟨hd, hf⟩
  | @audio s f pcm now hf =>
    rcases Session.processAudioChunk_cases s pcm now with
      ⟨_, hr⟩ | ⟨e, out, he, _, hr, _⟩
    · rw [hr]; exact ⟨hd, hf⟩
    · rw [hr, Session.deadSaturated_of_engine rfl, StreamingWhisperEngine.processAudioChunk_size]
      rw [Session.deadSaturated_of_engine he] at hd
      exact ⟨by rw [if_pos hd.1]; exact hd, hf⟩
  | endReturn whisper _ => cases hb
  | endThrow whisper x _ => cases hb
  | install _ _ _ _ _ => cases hb
  | endLock _ => cases hb
  | release _ => cases hb
  | joined => cases hb
  | @flushLock s r now n _ hr =>
    obtain ⟨hfull, hlast⟩ := hd
    unfold Session.flushReady at hr
    split at hr
    · cases hr
    · rename_i e he
      simp only [Session.bufferSize, he] at hfull hlast
      simp [Session.flushTriggered, ← hlast, Session.minNewSamples] at hr
  | flushReturn => cases hf
  | flushThrow => cases hf
  | flushSend m => rw [Session.sendMessage_eq]; exact ⟨hd, rfl⟩
  | flushStop => exact ⟨hd, rfl⟩
  | _ => exact ⟨hd, hf⟩

end Threads

section Runs

variable {P : Platform} {params : SessionParams} {start now : ℤ} {t₀ t₁ t : Threads}
  {tr : List (Threads × Event)}

end Runs

namespace Demo

/-- The engine after two frames of 10 s. -/
def fullEngine : StreamingWhisperEngine := fill (fill engine 160000) 160000

def full : Session :=
  (ready.withFrame platform engine (frame 160000) 0).withFrame platform (fill engine 160000)
    (frame 160000) 0

theorem halfEngine_size : (fill engine 160000).audioBuffer.length = 160000 := by
  rw [fill_size (by simp [highWaterMark])]
  simp [maxBufferSamples]

theorem fullEngine_size : fullEngine.getBufferSize = highWaterMark := by
  rw [StreamingWhisperEngine.getBufferSize, fullEngine,
    fill_size (by simp [halfEngine_size, highWaterMark]), halfEngine_size]
  simp [maxBufferSamples, highWaterMark]

theorem listening_full : Listening full fullEngine :=
  (listening_ready.withFrame 160000).withFrame 160000

theorem full_run : ∃ tr, Run (Threads.step platform) installed tr ⟨full, .writing [], .waiting⟩ ∧
    ∀ p ∈ tr, p.2.betweenConfigs = true := by
  have h₁ := frame_run (n := 160000) listening_ready (by omega) (by omega) (by simp [highWaterMark])
  have h₂ := frame_run (n := 160000) (listening_ready.withFrame 160000) (by omega) (by omega)
    (by simp [halfEngine_size, highWaterMark])
  refine ⟨_, .cons step_ready (h₁.append h₂), ?_⟩
  simp only [Threads.frameTrace, List.forall_mem_append, List.forall_mem_cons, Event.betweenConfigs,
    List.not_mem_nil, false_imp_iff, implies_true, and_self]

theorem full_flushReady : full.flushReady 0 = some highWaterMark := by
  have hl := fullEngine_size
  rw [StreamingWhisperEngine.getBufferSize] at hl
  rw [listening_full.flushReady, hl] <;> simp [hl, full, highWaterMark, maxBufferSamples]

/-- Whisper hears one segment in the twenty seconds, which ends with them. -/
def oneSegment : List Segment := [⟨some (lit "hola"), 2000⟩]

theorem flushWedges_oneSegment : FlushWedges highWaterMark oneSegment := by
  refine ⟨le_rfl, .inl ⟨by simp [oneSegment], fun j g hg => ?_⟩⟩
  obtain rfl : g = ⟨some (lit "hola"), 2000⟩ := by
    simpa [oneSegment] using List.mem_of_getElem? hg
  decide

theorem full_flushCycle : ∃ s' m,
    full.flushCycle highWaterMark (hears oneSegment) = .ok (s', m) ∧ s'.DeadSaturated := by
  have hne : fullEngine.audioBuffer ≠ [] := by
    rw [← List.length_pos_iff, ← StreamingWhisperEngine.getBufferSize, fullEngine_size]
    simp [highWaterMark]
  obtain ⟨⟨res, e'⟩, hok⟩ :=
    (StreamingWhisperEngine.transcribe_isOk_iff fullEngine (hears oneSegment) false).mpr
      (.inr (by simp))
  refine ⟨_, _, Session.flushCycle_of_transcribe _ listening_full.engine hok, ?_⟩
  rw [← fullEngine_size, Session.applyResult_deadSaturated_iff hok hne]
  simpa [fullEngine_size] using flushWedges_oneSegment

end Demo

end JotaTranscriber
