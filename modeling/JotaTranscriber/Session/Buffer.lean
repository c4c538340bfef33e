import JotaTranscriber.Session.Invariants
import JotaTranscriber.Whisper.Commit

/-! # The steps that touch the audio buffer

Five kinds of steps replace the engine of a session or edit its buffer; every
other step leaves the engine, the overflow flag and the marker of the flush
thread as they are. The results about the buffer are proved from these cases.
-/

namespace JotaTranscriber

open Transition

/-- The members that follow the audio buffer are the same. -/
structure Session.SameBuffer (s s' : Session) : Prop where
  engine : s'.engine = s.engine
  bufferOverflowed : s'.bufferOverflowed = s.bufferOverflowed
  lastTranscribedSize : s'.lastTranscribedSize = s.lastTranscribedSize

/-- The events before the forced call of `handleEnd` returns. -/
def Event.beforeEnd : Event → Bool
  | endReturn _ => false
  | _ => true

namespace StreamingWhisperEngine

variable {e e' : StreamingWhisperEngine} {whisper : WhisperFull} {res : TranscribeResult}
  {pcm : List ℚ}

/-- A chunk never shortens the buffer. -/
theorem length_le_processAudioChunk :
    e.audioBuffer.length ≤ (e.processAudioChunk pcm).1.audioBuffer.length := by
  rw [processAudioChunk_size]
  have : highWaterMark ≤ maxBufferSamples := by decide
  split <;> omega

theorem processAudioChunk_length_le (h : e.audioBuffer.length ≤ maxBufferSamples) :
    (e.processAudioChunk pcm).1.audioBuffer.length ≤ maxBufferSamples := by
  rw [processAudioChunk_size]
  split
  · exact h
  · exact min_le_left _ _

/-- An unforced call never lengthens the buffer. -/
theorem transcribe_unforced_length_le
    (h : e.transcribeSlidingWindow whisper false = .ok (res, e')) :
    e'.audioBuffer.length ≤ e.audioBuffer.length := by
  by_cases hne : e.audioBuffer = []
  · rcases transcribe_eq_ok.mp h with ⟨_, _, rfl⟩ | ⟨hne', _⟩
    · exact le_rfl
    · exact absurd hne hne'
  · obtain ⟨-, ⟨i, t1, -, -, -, -, hb⟩ | ⟨-, -, -, hb⟩⟩ := transcribe_unforced h hne
    · rw [hb, length_eraseCommitted]
      exact Nat.sub_le _ _
    · rw [hb]

end StreamingWhisperEngine

namespace Threads

/-- What a step does to the audio buffer and the members that follow it. -/
inductive BufferMove (t : Threads) : Event → Threads → Prop where
  | chunk {pcm : List ℚ} {now : ℤ} {e : StreamingWhisperEngine} {t' : Threads} :
      t.receiver = .audio pcm → t.session.engine = some e → t.session.configured = true →
      t'.session.engine = some (e.processAudioChunk pcm).1 →
      t'.session.bufferOverflowed = (e.processAudioChunk pcm).2 →
      t'.session.lastTranscribedSize = t.session.lastTranscribedSize →
      BufferMove t (.audio now) t'
  | config {initState : Bool} {now : ℤ} {e : StreamingWhisperEngine} {t' : Threads} :
      e.audioBuffer = [] → t'.session.engine = some e →
      t'.session.bufferOverflowed = t.session.bufferOverflowed →
      t'.session.lastTranscribedSize = 0 → BufferMove t (.install initState now) t'
  | cycle {whisper : WhisperFull} {e e' : StreamingWhisperEngine} {res : TranscribeResult}
      {t' : Threads} : t.session.engine = some e →
      Session.minBufferSamples ≤ e.audioBuffer.length →
      e.transcribeSlidingWindow whisper false = .ok (res, e') →
      t'.session = t.session.applyResult e.audioBuffer.length res e' →
      BufferMove t (.flushReturn whisper) t'
  | forced {whisper : WhisperFull} {t' : Threads} : BufferMove t (.endReturn whisper) t'
  | gone {ev : Event} {t' : Threads} : ev = .release ∨ ev = .joined →
      t'.session.engine = none → BufferMove t ev t'
  | same {ev : Event} {t' : Threads} : t.session.SameBuffer t'.session →
      (∀ now, ev = .audio now → t.session.engine = none ∨ t.session.configured = false) →
      (∀ whisper e, ev = .flushReturn whisper → t.session.engine = some e →
        (e.infer whisper).result ≠ 0) → BufferMove t ev t'

variable {P : Platform} {t t' : Threads} {ev : Event} {s s' : Session}

/-- An event of neither kind that edits the buffer. -/
theorem BufferMove.of_same (h : t.session.SameBuffer t'.session)
    (haudio : ∀ now, ev ≠ .audio now := by rintro _ ⟨⟩)
    (hflush : ∀ whisper, ev ≠ .flushReturn whisper := by rintro _ ⟨⟩) : BufferMove t ev t' :=
  .same h (fun now he => absurd he (haudio now)) fun whisper _ he _ => absurd he (hflush whisper)

theorem step_bufferMove (hc : Consistent t) (hs : t.step P ev = some t') :
    BufferMove t ev t' := by
  cases step_moves hs with
  | text message validate _ =>
    rw [Session.handleJsonMessage_eq]
    exact .of_same ⟨rfl, rfl, rfl⟩
  | binary data now _ =>
    rw [Session.handleBinaryMessage_eq]
    exact .of_same ⟨rfl, rfl, rfl⟩
  | write o out =>
    rw [Session.perform_eq]
    exact .of_same ⟨rfl, rfl, rfl⟩
  | @audio s f pcm now hf =>
    rcases Session.processAudioChunk_cases s pcm now with
      ⟨hn, hr⟩ | ⟨e, out, he, hcf, hr, _⟩ <;> rw [hr]
    · exact .same ⟨rfl, rfl, rfl⟩ (fun _ _ => hn) (by rintro _ _ ⟨⟩)
    · exact .chunk rfl he hcf rfl rfl rfl
  | install ctx vadThold initState now hf =>
    rcases Session.installEngine_cases _ ctx vadThold initState now with
      ⟨_, x, hr⟩ | ⟨_, e, _, he, hr⟩ <;> rw [hr]
    · exact .of_same ⟨rfl, rfl, rfl⟩
    · exact .config he rfl rfl rfl
  | endReturn whisper _ => exact .forced
  | endThrow whisper x _ => exact .forced
  | release _ => exact .gone (.inl rfl) hc.releaseModel.1
  | joined => exact .gone (.inr rfl) hc.releaseModel.1
  | @flushReturn s s' r n whisper m hw =>
    obtain ⟨e, he, hsize, hmin⟩ := hc.inferring n rfl
    rcases Session.flushCycle_eq_ok hw with ⟨hn, _⟩ | ⟨e₁, res, e', he₁, htr, rfl, _⟩
    · rw [hn] at he
      cases he
    · obtain rfl : e₁ = e := Option.some.inj (he₁.symm.trans he)
      subst hsize
      exact .cycle he hmin htr rfl
  | @flushThrow s r n whisper x hw =>
    refine .same ⟨rfl, rfl, rfl⟩ (by rintro _ ⟨⟩) ?_
    rintro _ e ⟨⟩ he hres
    obtain ⟨res, hok⟩ :=
      (StreamingWhisperEngine.transcribe_isOk_iff e whisper false).mpr (.inr hres)
    simp only at he
    simp [Session.flushCycle, he, hok] at hw
  | flushSend m =>
    rw [Session.sendMessage_eq]
    exact .of_same ⟨rfl, rfl, rfl⟩
  | _ => exact .of_same ⟨rfl, rfl, rfl⟩

/-- The buffer is never longer than 30 s. -/
def Bounded (t : Threads) : Prop := t.session.bufferSize ≤ maxBufferSamples

theorem bufferSize_of_engine {e : StreamingWhisperEngine} (h : s.engine = some e) :
    s.bufferSize = e.audioBuffer.length := by
  rw [Session.bufferSize, h]
  rfl

theorem bufferSize_of_none (h : s.engine = none) : s.bufferSize = 0 := by
  rw [Session.bufferSize, h]

theorem bufferSize_congr (h : s'.engine = s.engine) : s'.bufferSize = s.bufferSize := by
  rw [Session.bufferSize, h, Session.bufferSize]

theorem Bounded.step (h : Bounded t) (hc : Consistent t) (hend : ev.beforeEnd = true)
    (hs : t.step P ev = some t') : Bounded t' := by
  unfold Bounded at h ⊢
  cases step_bufferMove hc hs with
  | chunk _ he _ he' _ _ =>
    rw [bufferSize_of_engine he] at h
    rw [bufferSize_of_engine he']
    exact StreamingWhisperEngine.processAudioChunk_length_le h
  | config hnil he' _ _ =>
    rw [bufferSize_of_engine he', hnil]
    exact Nat.zero_le _
  | cycle he _ htr heq =>
    rw [bufferSize_of_engine he] at h
    rw [heq, bufferSize_of_engine rfl]
    exact (StreamingWhisperEngine.transcribe_unforced_length_le htr).trans h
  | forced => cases hend
  | gone _ hnone =>
    rw [bufferSize_of_none hnone]
    exact Nat.zero_le _
  | same h' _ _ => rwa [bufferSize_congr h'.engine]

theorem bounded_of_run {params : SessionParams} {start : ℤ} {tr : List (Threads × Event)}
    (hrun : Run (step P) (init params start) tr t) (hend : ∀ p ∈ tr, p.2.beforeEnd = true) :
    Throughout Bounded tr t := by
  refine (hrun.throughout_iff (I := Consistent) (P := Bounded)
    (D := fun _ ev => ev.beforeEnd = true) (G := fun _ _ => True) (consistent_init params start)
    (Nat.zero_le _) hend (fun _ _ _ h hs => h.step hs) ?_).mpr (fun _ _ => trivial)
  intro t ev t' hc h hend hs
  exact iff_of_true (h.step hc hend hs) trivial

end Threads

end JotaTranscriber
