import Mathlib.Data.List.DropRight
import JotaTranscriber.Transition.Run
import JotaTranscriber.Whisper.Engine

/-! # The window of the engine

Any sequence of calls on one engine: chunks of any size, transcriptions with
any outcome, trims. The buffer is always the end of what the preprocessor has
let through, never more than 30 s of it, and the encoder context covers it.
-/

namespace JotaTranscriber

open Transition

namespace StreamingWhisperEngine

/-- The chunk as the preprocessor leaves it. -/
def prepped (e : StreamingWhisperEngine) (pcm : List ℚ) : List ℚ :=
  (AudioPreprocessor.process pcm e.hpPrevRaw e.hpPrevFiltered).1

variable {e e' : StreamingWhisperEngine} {pcm : List ℚ} {whisper : WhisperFull} {force : Bool}
  {res : TranscribeResult}

@[simp] theorem length_prepped : (e.prepped pcm).length = pcm.length :=
  AudioPreprocessor.length_process _ _ _

/-- At the high-water mark nothing changes, the filter state included. -/
theorem processAudioChunk_of_full (h : highWaterMark ≤ e.audioBuffer.length) :
    e.processAudioChunk pcm = (e, true) := if_pos h

/-- Below it, the buffer is the end of what it would be without the cap. -/
theorem processAudioChunk_audioBuffer (h : e.audioBuffer.length < highWaterMark) :
    (e.processAudioChunk pcm).1.audioBuffer =
      (e.audioBuffer ++ e.prepped pcm).rtake
        (min maxBufferSamples (e.audioBuffer.length + pcm.length)) := by
  have hlen : (e.prepped pcm).length = pcm.length := length_prepped
  have hdrop : (e.processAudioChunk pcm).1.audioBuffer =
      if maxBufferSamples < e.audioBuffer.length + (e.prepped pcm).length then
        if maxBufferSamples ≤ (e.prepped pcm).length then
          (e.prepped pcm).drop ((e.prepped pcm).length - maxBufferSamples)
        else
          e.audioBuffer.drop (e.audioBuffer.length + (e.prepped pcm).length - maxBufferSamples) ++
            e.prepped pcm
      else e.audioBuffer ++ e.prepped pcm := by
    rw [processAudioChunk, if_neg (not_le.mpr h)]
    rfl
  rw [hdrop, List.rtake, List.length_append, ← hlen]
  split
  · rw [min_eq_left (by omega)]
    split
    · -- the chunk alone fills the window
      have hskip : e.audioBuffer.length + (e.prepped pcm).length - maxBufferSamples =
          e.audioBuffer.length + ((e.prepped pcm).length - maxBufferSamples) := by omega
      rw [hskip, List.drop_length_add_append]
    · rw [List.drop_append_of_le_length (by omega)]
  · rw [min_eq_right (by omega), Nat.sub_self, List.drop_zero]

theorem eraseCommitted_suffix (force : Bool) (t1 : ℤ) (buffer : List ℚ) :
    eraseCommitted force t1 buffer <:+ buffer := by
  unfold eraseCommitted
  dsimp only
  split
  · split
    · exact List.drop_suffix _ _
    · exact List.nil_suffix
  · split
    · exact List.nil_suffix
    · exact List.suffix_refl _

/-- A transcription takes audio from the front only. -/
theorem transcribe_suffix (h : e.transcribeSlidingWindow whisper force = .ok (res, e')) :
    e'.audioBuffer <:+ e.audioBuffer := by
  rcases transcribe_eq_ok.mp h with ⟨-, -, rfl⟩ | ⟨-, -, hc⟩
  · exact List.suffix_refl _
  · rcases commitWindow_cases (e.lockLanguage (e.infer whisper).lang) (e.infer whisper).segments
      force with ⟨k, t, -, -, hw⟩ | ⟨-, hw⟩
    · rw [hw, Prod.mk.injEq] at hc
      obtain ⟨-, rfl⟩ := hc
      rw [lockLanguage_audioBuffer]
      exact eraseCommitted_suffix _ _ _
    · rw [hw, Prod.mk.injEq] at hc
      obtain ⟨-, rfl⟩ := hc
      exact (lockLanguage_audioBuffer _).symm ▸ List.suffix_refl _

theorem reset_suffix (keepSamples : ℕ) : (e.reset keepSamples).audioBuffer <:+ e.audioBuffer := by
  unfold reset
  split
  · exact List.nil_suffix
  · exact List.drop_suffix _ _

/-- One encoder token for 320 samples, rounded up. -/
theorem audioCtx_eq (size : ℕ) : audioCtx size = max ⌈(size : ℚ) / 320⌉ 64 := by
  unfold audioCtx
  congr 2
  ring

/-- The encoder context stays within whisper's 1500 tokens, and covers the buffer. -/
theorem audioCtx_bounds {size : ℕ} (h : size ≤ maxBufferSamples) :
    64 ≤ audioCtx size ∧ audioCtx size ≤ 1500 ∧ (size : ℤ) ≤ 320 * audioCtx size := by
  have hmax : (size : ℚ) ≤ 480000 := by exact_mod_cast h
  have hceil : (size : ℚ) / 320 ≤ ⌈(size : ℚ) / 320⌉ := Int.le_ceil _
  rw [audioCtx_eq]
  refine ⟨le_max_right _ _, max_le ?_ (by decide), ?_⟩
  · rw [Int.ceil_le]
    push_cast
    linarith
  · have hcover : (size : ℤ) ≤ 320 * ⌈(size : ℚ) / 320⌉ := by
      have : (size : ℚ) ≤ 320 * ⌈(size : ℚ) / 320⌉ := by linarith
      exact_mod_cast this
    have := le_max_left ⌈(size : ℚ) / 320⌉ 64
    omega

end StreamingWhisperEngine

inductive EngineCall where
  | processAudioChunk (pcm : List ℚ)
  | transcribeSlidingWindow (whisper : WhisperFull) (forceCommit : Bool)
  | reset (keepSamples : ℕ)

/-- An engine, and the chunks it has accepted as the preprocessor left them, one after the
other. -/
structure EngineUse where
  engine : StreamingWhisperEngine
  accepted : List ℚ := []

namespace EngineUse

/-- A call. A transcription that throws leaves the engine as it is. -/
def step (U : EngineUse) : EngineCall → Option EngineUse
  | .processAudioChunk pcm =>
    let r := U.engine.processAudioChunk pcm
    some { engine := r.1
           accepted := if r.2 then U.accepted else U.accepted ++ U.engine.prepped pcm }
  | .transcribeSlidingWindow whisper forceCommit =>
    match U.engine.transcribeSlidingWindow whisper forceCommit with
    | .ok (_, e) => some { U with engine := e }
    | .error _ => some U
  | .reset keepSamples => some { U with engine := U.engine.reset keepSamples }

/-- The buffer is the end of the accepted audio, and at most 30 s of it. -/
structure Windowed (U : EngineUse) : Prop where
  suffix : U.engine.audioBuffer <:+ U.accepted
  length_le : U.engine.audioBuffer.length ≤ maxBufferSamples

variable {U U' : EngineUse} {call : EngineCall} {e : StreamingWhisperEngine}
  {tr : List (EngineUse × EngineCall)}

theorem Windowed.of_suffix (h : Windowed U) (hs : e.audioBuffer <:+ U.engine.audioBuffer) :
    Windowed { U with engine := e } where
  suffix := hs.trans h.suffix
  length_le := hs.length_le.trans h.length_le

theorem Windowed.processAudioChunk (h : Windowed U) {pcm : List ℚ}
    (hs : U.step (.processAudioChunk pcm) = some U') : Windowed U' := by
  obtain rfl := Option.some.inj hs
  by_cases hfull : highWaterMark ≤ U.engine.audioBuffer.length
  · rw [StreamingWhisperEngine.processAudioChunk_of_full hfull]
    exact h
  · have happend : U.engine.audioBuffer ++ U.engine.prepped pcm <:+
        U.accepted ++ U.engine.prepped pcm := by
      obtain ⟨front, hfront⟩ := h.suffix
      exact ⟨front, by rw [← List.append_assoc, hfront]⟩
    constructor
    · simp only [StreamingWhisperEngine.processAudioChunk_dropped, hfull, decide_false,
        Bool.false_eq_true, if_false,
        StreamingWhisperEngine.processAudioChunk_audioBuffer (not_le.mp hfull)]
      exact (List.drop_suffix _ _).trans happend
    · rw [StreamingWhisperEngine.processAudioChunk_size, if_neg hfull]
      exact min_le_left _ _

theorem Windowed.step (h : Windowed U) (hs : U.step call = some U') : Windowed U' := by
  cases call with
  | processAudioChunk pcm => exact h.processAudioChunk hs
  | transcribeSlidingWindow whisper forceCommit =>
    simp only [EngineUse.step] at hs
    split at hs
    · rename_i htr
      obtain rfl := Option.some.inj hs
      exact h.of_suffix (StreamingWhisperEngine.transcribe_suffix htr)
    · obtain rfl := Option.some.inj hs
      exact h
  | reset keepSamples =>
    obtain rfl := Option.some.inj hs
    exact h.of_suffix (StreamingWhisperEngine.reset_suffix keepSamples)

theorem Windowed.of_run (h₀ : e.audioBuffer = [])
    (hrun : Run EngineUse.step { engine := e } tr U) : Windowed U := by
  have hstart : Windowed { engine := e } := by
    constructor <;> simp [h₀]
  exact hrun.invariant hstart fun _ _ _ h hs => h.step hs

/-- After any calls on an engine that starts with an empty buffer: the buffer is the end of the
accepted audio and at most 30 s of it; the next chunk leaves the end of the buffer and itself, or
nothing changes at the high-water mark; and the encoder context covers the buffer. -/
theorem windowed_of_run (h₀ : e.audioBuffer = [])
    (hrun : Run EngineUse.step { engine := e } tr U) :
    Windowed U ∧
      (∀ pcm, (U.engine.audioBuffer.length < highWaterMark →
          (U.engine.processAudioChunk pcm).1.audioBuffer =
            (U.engine.audioBuffer ++ U.engine.prepped pcm).rtake
              (min maxBufferSamples (U.engine.audioBuffer.length + pcm.length))) ∧
        (highWaterMark ≤ U.engine.audioBuffer.length →
          (U.engine.processAudioChunk pcm).1 = U.engine)) ∧
      64 ≤ U.engine.fullParams.audioCtx ∧ U.engine.fullParams.audioCtx ≤ 1500 ∧
      (U.engine.audioBuffer.length : ℤ) ≤ 320 * U.engine.fullParams.audioCtx := by
  have h := Windowed.of_run h₀ hrun
  refine ⟨h, ?_, StreamingWhisperEngine.audioCtx_bounds h.length_le⟩
  intro pcm
  constructor
  · exact StreamingWhisperEngine.processAudioChunk_audioBuffer
  · intro hfull
    rw [StreamingWhisperEngine.processAudioChunk_of_full hfull]

end EngineUse

namespace Demo

/-- A chunk of two samples and a trim to one sample. -/
theorem windowed_of_two_samples : ∃ tr U,
    exec EngineUse.step { engine := { ctx := 0 } } [.processAudioChunk [1, -1], .reset 1] =
      some (tr, U) ∧ U.engine.audioBuffer.length = 1 ∧ EngineUse.Windowed U := by
  have hrun : exec EngineUse.step { engine := { ctx := 0 } }
      [.processAudioChunk [1, -1], .reset 1] = some (_, _) := rfl
  refine ⟨_, _, hrun, ?_, (EngineUse.windowed_of_run rfl (Run.of_exec hrun)).1⟩
  simp [StreamingWhisperEngine.reset, StreamingWhisperEngine.processAudioChunk_size, highWaterMark,
    maxBufferSamples]

end Demo

end JotaTranscriber
