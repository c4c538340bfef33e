import Mathlib.Algebra.Order.Floor.Defs
import Mathlib.Data.Rat.Floor
import JotaTranscriber.Text.Json
import JotaTranscriber.Whisper.AudioPreprocessor

/-! # The streaming engine

The audio buffer of one session and the three operations that edit it: adding
a chunk, transcribing the window, and trimming. `whisper_full_with_state` is a
parameter of each call, since its answer depends on decoder state that is not
part of the program: nothing is assumed about the segments it returns.
-/

namespace JotaTranscriber

/-- A `whisper_context*`. Two loads of a model never yield the same one. -/
abbrev WhisperContext := ℕ

structure Segment where
  text : Option Bytes
  t1 : ℤ
  deriving DecidableEq, Repr

/-- What one inference leaves in the decoder state: the code returned, the segments, and the name
of the language it detected. -/
structure WhisperReply where
  result : ℤ
  segments : List Segment
  lang : Option Bytes
  deriving DecidableEq, Repr

/-- The fields of `whisper_full_params` that depend on the engine. -/
structure WhisperFullParams where
  language : Bytes
  nThreads : ℤ
  /-- Beam search with this beam, or greedy sampling. -/
  beamSize : Option ℤ
  temperature : ℚ
  temperatureInc : ℚ
  noSpeechThold : ℚ
  logprobThold : ℚ
  audioCtx : ℤ
  initialPrompt : Option Bytes
  deriving DecidableEq, Repr

abbrev WhisperFull := WhisperFullParams → List ℚ → WhisperReply

def highWaterMark : ℕ := 16000 * 20
def maxBufferSamples : ℕ := 16000 * 30
def maxWindowSamples : ℕ := 16000 * 10

structure StreamingWhisperEngine where
  ctx : WhisperContext
  audioBuffer : List ℚ := []
  language : Bytes := lit "es"
  initialPrompt : Bytes := []
  nThreads : ℤ := 4
  beamSize : ℤ := 5
  vadThold : ℚ := 0
  temperature : ℚ := 2 / 10
  temperatureInc : ℚ := 2 / 10
  noSpeechThold : ℚ := 3 / 10
  logprobThold : ℚ := -1
  hpPrevRaw : ℚ := 0
  hpPrevFiltered : ℚ := 0
  deriving DecidableEq, Repr

structure TranscribeResult where
  partialText : Bytes := []
  committedText : Bytes := []
  deriving DecidableEq, Repr

/-- The texts of some segments, in order; a null text adds nothing. -/
def joinTexts (segments : List Segment) : Bytes := segments.flatMap fun g => g.text.getD []

/-- The time, in units of 10 ms, where the last 2 s of the window begin. -/
def overlapBounds (size : ℕ) : ℤ := ((size : ℤ) - 32000).tdiv 160

/-- The backward search: the last of the first `n` segments that ends before the bound. -/
def searchBack (segments : List Segment) (bound : ℤ) : ℕ → Option (ℕ × ℤ)
  | 0 => none
  | i + 1 =>
    match segments[i]? with
    | some g => if g.t1 < bound then some (i, g.t1) else searchBack segments bound i
    | none => searchBack segments bound i

/-- `commit_up_to_segment` with `commit_t1`; nothing stands for the index -1. -/
def commitPoint (forceCommit : Bool) (size : ℕ) (segments : List Segment) : Option (ℕ × ℤ) :=
  if forceCommit then
    if segments.length = 0 then none else some (segments.length - 1, 0)
  else
    match searchBack segments (overlapBounds size) segments.length with
    | some c => some c
    | none =>
      -- a window without a break: everything except the very last segment
      if h : 1 < segments.length then
        some (segments.length - 2, segments[segments.length - 2].t1)
      else none

/-- The shift of the audio buffer after a commit. -/
def eraseCommitted (forceCommit : Bool) (commitT1 : ℤ) (buffer : List ℚ) : List ℚ :=
  if 0 < commitT1 then
    let samplesToErase := (commitT1 * 160).toNat
    if samplesToErase < buffer.length then buffer.drop samplesToErase else []
  else if forceCommit then [] else buffer

namespace StreamingWhisperEngine

/-- The constructor. It throws on a null context, and when `whisper_init_state` fails. -/
def new (sharedCtx : Option WhisperContext) (initState : Bool) :
    Except Exn StreamingWhisperEngine :=
  match sharedCtx with
  | none => .error (.runtimeError (lit "[StreamingWhisperEngine] Null whisper context"))
  | some ctx =>
    if initState then .ok { ctx }
    else .error (.runtimeError (lit "[StreamingWhisperEngine] Failed to create whisper state"))

def setThreads (e : StreamingWhisperEngine) (n : ℤ) : StreamingWhisperEngine :=
  if 0 < n then { e with nThreads := n } else e

def setBeamSize (e : StreamingWhisperEngine) (n : ℤ) : StreamingWhisperEngine :=
  if 0 < n then { e with beamSize := n } else e

def getBufferSize (e : StreamingWhisperEngine) : ℕ := e.audioBuffer.length

/-- Add a chunk. The result tells whether the chunk was dropped at the high-water mark. -/
def processAudioChunk (e : StreamingWhisperEngine) (pcm : List ℚ) :
    StreamingWhisperEngine × Bool :=
  if highWaterMark ≤ e.audioBuffer.length then (e, true)
  else
    let (prepped, prevRaw, prevFiltered) :=
      AudioPreprocessor.process pcm e.hpPrevRaw e.hpPrevFiltered
    let newTotalSize := e.audioBuffer.length + prepped.length
    let buffer :=
      if maxBufferSamples < newTotalSize then
        if maxBufferSamples ≤ prepped.length then
          prepped.drop (prepped.length - maxBufferSamples)
        else e.audioBuffer.drop (newTotalSize - maxBufferSamples) ++ prepped
      else e.audioBuffer ++ prepped
    ({ e with audioBuffer := buffer, hpPrevRaw := prevRaw, hpPrevFiltered := prevFiltered }, false)

/-- The encoder context for a buffer: one token for 20 ms, and at least 64. -/
def audioCtx (size : ℕ) : ℤ := max ⌈(size : ℚ) / 16000 * 50⌉ 64

def fullParams (e : StreamingWhisperEngine) : WhisperFullParams where
  language := e.language
  nThreads := e.nThreads
  beamSize := if 1 < e.beamSize then some e.beamSize else none
  temperature := e.temperature
  temperatureInc := e.temperatureInc
  noSpeechThold := if 0 < e.vadThold then e.vadThold else e.noSpeechThold
  logprobThold := e.logprobThold
  audioCtx := audioCtx e.audioBuffer.length
  initialPrompt := if e.initialPrompt = [] then none else some e.initialPrompt

/-- The language `auto` gives way to the first language detected. -/
def lockLanguage (e : StreamingWhisperEngine) (lang : Option Bytes) : StreamingWhisperEngine :=
  if e.language = lit "auto" then
    match lang with
    | some detected => if detected = lit "auto" then e else { e with language := detected }
    | none => e
  else e

/-- The answer of whisper to a call on the buffer as it stands. -/
def infer (e : StreamingWhisperEngine) (whisper : WhisperFull) : WhisperReply :=
  whisper e.fullParams e.audioBuffer

/-- What follows a successful inference: the commit decision, the two texts and the erase. -/
def commitWindow (e : StreamingWhisperEngine) (segments : List Segment) (forceCommit : Bool) :
    TranscribeResult × StreamingWhisperEngine :=
  match
    if forceCommit ∨ maxWindowSamples ≤ e.audioBuffer.length then
      commitPoint forceCommit e.audioBuffer.length segments
    else none with
  | some (commitUpTo, commitT1) =>
    ({ committedText := joinTexts (segments.take (commitUpTo + 1))
       partialText := joinTexts (segments.drop (commitUpTo + 1)) },
      { e with audioBuffer := eraseCommitted forceCommit commitT1 e.audioBuffer })
  | none => ({ partialText := joinTexts segments }, e)

def transcribeSlidingWindow (e : StreamingWhisperEngine) (whisper : WhisperFull)
    (forceCommit : Bool) : Except Exn (TranscribeResult × StreamingWhisperEngine) :=
  if e.audioBuffer = [] then .ok ({}, e)
  else if (e.infer whisper).result ≠ 0 then
    .error (.runtimeError (lit "Whisper transcription failed with code: " ++
      lit (toString (e.infer whisper).result)))
  else
    .ok ((e.lockLanguage (e.infer whisper).lang).commitWindow (e.infer whisper).segments
      forceCommit)

def reset (e : StreamingWhisperEngine) (keepSamples : ℕ) : StreamingWhisperEngine :=
  if keepSamples = 0 ∨ e.audioBuffer.length ≤ keepSamples then { e with audioBuffer := [] }
  else { e with audioBuffer := e.audioBuffer.drop (e.audioBuffer.length - keepSamples) }

variable {e e' : StreamingWhisperEngine} {whisper : WhisperFull} {force : Bool}
  {res : TranscribeResult} {pcm : List ℚ}

@[simp] theorem lockLanguage_audioBuffer (lang : Option Bytes) :
    (e.lockLanguage lang).audioBuffer = e.audioBuffer := by
  unfold lockLanguage
  split
  · split
    · split <;> rfl
    · rfl
  · rfl

@[simp] theorem lockLanguage_ctx (lang : Option Bytes) : (e.lockLanguage lang).ctx = e.ctx := by
  unfold lockLanguage
  split
  · split
    · split <;> rfl
    · rfl
  · rfl

@[simp] theorem processAudioChunk_ctx : (e.processAudioChunk pcm).1.ctx = e.ctx := by
  unfold processAudioChunk
  split <;> rfl

/-- A chunk on a full buffer is dropped; otherwise the buffer grows by it, up to 30 s. -/
theorem processAudioChunk_size :
    (e.processAudioChunk pcm).1.audioBuffer.length =
      if highWaterMark ≤ e.audioBuffer.length then e.audioBuffer.length
      else min maxBufferSamples (e.audioBuffer.length + pcm.length) := by
  unfold processAudioChunk
  split
  · rfl
  · simp only [AudioPreprocessor.length_process]
    split
    · split <;> simp only [List.length_drop, List.length_append,
        AudioPreprocessor.length_process] <;> omega
    · simp only [List.length_append, AudioPreprocessor.length_process]
      omega

theorem processAudioChunk_dropped :
    (e.processAudioChunk pcm).2 = decide (highWaterMark ≤ e.audioBuffer.length) := by
  unfold processAudioChunk
  split <;> simp [*]

/-- The two outcomes of a successful inference. -/
theorem commitWindow_cases (e : StreamingWhisperEngine) (segments : List Segment) (force : Bool) :
    (∃ k t, (force = true ∨ maxWindowSamples ≤ e.audioBuffer.length) ∧
        commitPoint force e.audioBuffer.length segments = some (k, t) ∧
        e.commitWindow segments force =
          ({ committedText := joinTexts (segments.take (k + 1))
             partialText := joinTexts (segments.drop (k + 1)) },
            { e with audioBuffer := eraseCommitted force t e.audioBuffer })) ∨
      ((force = true ∨ maxWindowSamples ≤ e.audioBuffer.length →
          commitPoint force e.audioBuffer.length segments = none) ∧
        e.commitWindow segments force = ({ partialText := joinTexts segments }, e)) := by
  unfold commitWindow
  split
  · rename_i k t hc
    split at hc
    · exact .inl ⟨k, t, ‹_›, hc, rfl⟩
    · cases hc
  · rename_i hc
    exact .inr ⟨fun hf => by rwa [if_pos hf] at hc, rfl⟩

@[simp] theorem commitWindow_ctx {segments : List Segment} :
    (e.commitWindow segments force).2.ctx = e.ctx := by
  rcases commitWindow_cases e segments force with
    ⟨_, _, _, _, h⟩ | ⟨_, h⟩ <;> rw [h]

/-- A call that returns normally found no audio, or whisper succeeded on it. -/
theorem transcribe_eq_ok :
    e.transcribeSlidingWindow whisper force = .ok (res, e') ↔
      (e.audioBuffer = [] ∧ res = {} ∧ e' = e) ∨
      (e.audioBuffer ≠ [] ∧ (e.infer whisper).result = 0 ∧
        (res, e') = (e.lockLanguage (e.infer whisper).lang).commitWindow
          (e.infer whisper).segments force) := by
  unfold transcribeSlidingWindow
  split
  · simp [*, eq_comm]
  · split <;> simp_all [eq_comm]

/-- The call throws exactly when it reaches whisper and whisper fails. -/
theorem transcribe_isOk_iff (e : StreamingWhisperEngine) (whisper : WhisperFull) (force : Bool) :
    (∃ r, e.transcribeSlidingWindow whisper force = .ok r) ↔
      (e.audioBuffer = [] ∨ (e.infer whisper).result = 0) := by
  unfold transcribeSlidingWindow
  split
  · simp [*]
  · split <;> simp_all

theorem transcribe_ctx (h : e.transcribeSlidingWindow whisper force = .ok (res, e')) :
    e'.ctx = e.ctx := by
  rcases transcribe_eq_ok.mp h with ⟨_, _, rfl⟩ | ⟨_, _, hc⟩
  · rfl
  · rw [show e' = _ from congrArg Prod.snd hc, commitWindow_ctx, lockLanguage_ctx]

/-- A forced call commits every text, and keeps audio only when there is no segment. -/
theorem transcribe_forced (h : e.transcribeSlidingWindow whisper true = .ok (res, e'))
    (hne : e.audioBuffer ≠ []) :
    res.committedText = joinTexts (e.infer whisper).segments ∧
      (e'.audioBuffer = [] ∨ (e.infer whisper).segments = []) := by
  rcases transcribe_eq_ok.mp h with ⟨he, _⟩ | ⟨_, _, hc⟩
  · exact absurd he hne
  rcases commitWindow_cases (e.lockLanguage (e.infer whisper).lang) (e.infer whisper).segments
    true with ⟨k, t, _, hk, hw⟩ | ⟨hk, hw⟩
  all_goals
    rw [hw, Prod.mk.injEq] at hc
    obtain ⟨rfl, rfl⟩ := hc
  · simp only [commitPoint, if_true] at hk
    split at hk
    · cases hk
    · simp only [Option.some.injEq, Prod.mk.injEq] at hk
      obtain ⟨rfl, rfl⟩ := hk
      rw [List.take_of_length_le (by omega)]
      exact ⟨rfl, .inl (by simp [eraseCommitted])⟩
  · have hs : (e.infer whisper).segments = [] := by simpa [commitPoint] using hk (.inl rfl)
    exact ⟨by rw [hs]; rfl, .inr hs⟩

end StreamingWhisperEngine

end JotaTranscriber
