import Mathlib.Tactic.Positivity
import Mathlib.Tactic.FieldSimp
import JotaTranscriber.Signal.HighPass
import JotaTranscriber.Whisper.EngineRun

/-! # What the preprocessor does to a stream

The filter sees one stream, however it is cut into chunks; only the gain
belongs to a chunk. The gain is at least one and at most four, lifts no peak
beyond 0.9, and keeps the order of the peaks. A stream of samples in [-1, 1]
leaves samples of at most 2 * 0.969 in the buffer, however long it is.
-/

namespace JotaTranscriber

open Transition Signal

namespace AudioPreprocessor

variable {prevRaw prevFiltered p : ℚ} {pcm : List ℚ}

/-- The loop of `process` is the high-pass filter, with the peak of its output on the side. -/
theorem filterLoop_eq (hp : 0 ≤ p) : filterLoop prevRaw prevFiltered p pcm =
    (highPass alpha prevRaw prevFiltered pcm, (highPassState alpha prevRaw prevFiltered pcm).1,
      (highPassState alpha prevRaw prevFiltered pcm).2,
      max p (peak (highPass alpha prevRaw prevFiltered pcm))) := by
  induction pcm generalizing prevRaw prevFiltered p with
  | nil => simp [filterLoop, highPass, highPassState, peak, hp]
  | cons raw pcm ih =>
    rw [filterLoop, ih (hp.trans (le_max_left _ _)), highPass, highPassState, peak, max_assoc]

/-- The filtered chunk before the gain. -/
theorem filterLoop_fst :
    (filterLoop prevRaw prevFiltered 0 pcm).1 = highPass alpha prevRaw prevFiltered pcm := by
  rw [filterLoop_eq le_rfl]

/-- The gain on a chunk with this peak. -/
def gain (p : ℚ) : ℚ := if 2 / 100 < p ∧ p < 9 / 10 then min (9 / 10 / p) 4 else 1

theorem one_le_gain (p : ℚ) : 1 ≤ gain p := by
  unfold gain
  split
  · rename_i h
    have hpos : 0 < p := by linarith [h.1]
    exact le_min ((one_le_div hpos).mpr h.2.le) (by norm_num)
  · exact le_rfl

theorem gain_le_four (p : ℚ) : gain p ≤ 4 := by
  unfold gain
  split
  · exact min_le_right _ _
  · norm_num

theorem gain_nonneg (p : ℚ) : 0 ≤ gain p := zero_le_one.trans (one_le_gain p)

/-- A chunk leaves the preprocessor filtered, times its gain. -/
theorem process_eq : process pcm prevRaw prevFiltered =
    ((highPass alpha prevRaw prevFiltered pcm).map
        (· * gain (peak (highPass alpha prevRaw prevFiltered pcm))),
      highPassState alpha prevRaw prevFiltered pcm) := by
  have hmax : max 0 (peak (highPass alpha prevRaw prevFiltered pcm)) =
      peak (highPass alpha prevRaw prevFiltered pcm) := max_eq_right peak_nonneg
  rw [process, filterLoop_eq le_rfl, hmax]
  simp only [gain]
  split
  · rfl
  · simp

/-! ## Chunks of one stream -/

/-- One call of `process` after the other, on the same filter state. -/
def processAll : List (List ℚ) → ℚ → ℚ → List (List ℚ) × ℚ × ℚ
  | [], prevRaw, prevFiltered => ([], prevRaw, prevFiltered)
  | chunk :: chunks, prevRaw, prevFiltered =>
    let r := process chunk prevRaw prevFiltered
    let rest := processAll chunks r.2.1 r.2.2
    (r.1 :: rest.1, rest.2)

theorem length_processAll (chunks : List (List ℚ)) :
    (processAll chunks prevRaw prevFiltered).1.length = chunks.length := by
  induction chunks generalizing prevRaw prevFiltered with
  | nil => rfl
  | cons chunk chunks ih => simp only [processAll, List.length_cons, ih]

theorem processAll_snd (chunks : List (List ℚ)) :
    (processAll chunks prevRaw prevFiltered).2 =
      highPassState alpha prevRaw prevFiltered chunks.flatten := by
  induction chunks generalizing prevRaw prevFiltered with
  | nil => rfl
  | cons chunk chunks ih =>
    rw [List.flatten_cons, highPassState_append, processAll, ih, process_eq]

/-- The output of a chunk is that of its own call, on the state the chunks before it leave. -/
theorem processAll_getElem? (before : List (List ℚ)) (chunk : List ℚ) (after : List (List ℚ)) :
    (processAll (before ++ chunk :: after) prevRaw prevFiltered).1[before.length]? =
      some (process chunk (highPassState alpha prevRaw prevFiltered before.flatten).1
        (highPassState alpha prevRaw prevFiltered before.flatten).2).1 := by
  induction before generalizing prevRaw prevFiltered with
  | nil => rfl
  | cons first before ih =>
    rw [List.cons_append, processAll, List.flatten_cons, highPassState_append, process_eq]
    simpa using ih

/-- The block of the filtered stream that belongs to a chunk. -/
theorem highPass_block (before after : List ℚ) (chunk : List ℚ) :
    ((highPass alpha prevRaw prevFiltered (before ++ (chunk ++ after))).drop before.length).take
        chunk.length =
      highPass alpha (highPassState alpha prevRaw prevFiltered before).1
        (highPassState alpha prevRaw prevFiltered before).2 chunk := by
  rw [highPass_append, highPass_append, List.drop_left' length_highPass,
    List.take_left' length_highPass]

/-- However a stream is cut into chunks: the filter state at the end is that of one call on the
whole stream, and each chunk leaves its block of the filtered stream times a gain of its own between
one and four. -/
theorem process_chunks (chunks : List (List ℚ)) (prevRaw prevFiltered : ℚ) :
    (processAll chunks prevRaw prevFiltered).2 =
        (process chunks.flatten prevRaw prevFiltered).2 ∧
      (processAll chunks prevRaw prevFiltered).1.length = chunks.length ∧
      ∀ before chunk after, chunks = before ++ chunk :: after →
        ∃ g, 1 ≤ g ∧ g ≤ 4 ∧
          (processAll chunks prevRaw prevFiltered).1[before.length]? =
            some ((((filterLoop prevRaw prevFiltered 0 chunks.flatten).1.drop
              before.flatten.length).take chunk.length).map (· * g)) := by
  refine ⟨?_, length_processAll chunks, ?_⟩
  · rw [processAll_snd, process_eq]
  · rintro before chunk after rfl
    refine ⟨gain (peak (highPass alpha (highPassState alpha prevRaw prevFiltered before.flatten).1
      (highPassState alpha prevRaw prevFiltered before.flatten).2 chunk)), one_le_gain _,
      gain_le_four _, ?_⟩
    rw [processAll_getElem?, process_eq, filterLoop_fst, List.flatten_append, List.flatten_cons,
      highPass_block]

/-! ## The peak of a chunk -/

/-- The peak of the output for the peak of the filtered chunk. -/
def outputPeak (p : ℚ) : ℚ := if 2 / 100 < p ∧ p < 9 / 10 then min (9 / 10) (4 * p) else p

theorem mul_gain (p : ℚ) : p * gain p = outputPeak p := by
  unfold gain outputPeak
  split
  · rename_i h
    have hpos : 0 < p := by linarith [h.1]
    rw [mul_min_of_nonneg _ _ hpos.le, mul_div_cancel₀ _ hpos.ne', mul_comm p 4]
  · exact mul_one p

theorem outputPeak_mono : Monotone outputPeak := by
  intro p q hpq
  unfold outputPeak
  split
  · rename_i hp
    split
    · exact min_le_min_left _ (by linarith)
    · rename_i hq
      have hloud : 9 / 10 ≤ q := by
        by_contra hlt
        exact hq ⟨by linarith [hp.1], not_le.mp hlt⟩
      exact (min_le_left _ _).trans hloud
  · split
    · rename_i hp hq
      have hquiet : p ≤ 2 / 100 := by
        by_contra hlt
        exact hp ⟨not_le.mp hlt, by linarith [hq.2]⟩
      exact le_min (by linarith) (by linarith [hq.1])
    · exact hpq

theorem peak_process_eq : peak (process pcm prevRaw prevFiltered).1 =
    outputPeak (peak (highPass alpha prevRaw prevFiltered pcm)) := by
  rw [process_eq, peak_map_mul (gain_nonneg _), mul_gain]

/-- The peak of what leaves the preprocessor, by the peak of the filtered chunk: nothing is
attenuated, no peak is lifted more than four times or beyond 0.9, and louder chunks stay louder. -/
theorem peak_process (pcm : List ℚ) (prevRaw prevFiltered : ℚ) :
    peak (process pcm prevRaw prevFiltered).1 =
        outputPeak (peak (filterLoop prevRaw prevFiltered 0 pcm).1) ∧
      (∃ g, 1 ≤ g ∧ g ≤ 4 ∧ (process pcm prevRaw prevFiltered).1 =
        (filterLoop prevRaw prevFiltered 0 pcm).1.map (· * g)) ∧
      (peak (process pcm prevRaw prevFiltered).1 ≤ 9 / 10 ∨
        (process pcm prevRaw prevFiltered).1 = (filterLoop prevRaw prevFiltered 0 pcm).1) ∧
      Monotone outputPeak := by
  rw [filterLoop_fst]
  refine ⟨peak_process_eq, ⟨_, one_le_gain _, gain_le_four _, by rw [process_eq]⟩, ?_,
    outputPeak_mono⟩
  by_cases hlifted : 2 / 100 < peak (highPass alpha prevRaw prevFiltered pcm) ∧
      peak (highPass alpha prevRaw prevFiltered pcm) < 9 / 10
  · left
    rw [peak_process_eq, outputPeak, if_pos hlifted]
    exact min_le_left _ _
  · right
    rw [process_eq, gain, if_neg hlifted]
    simp

/-- A filtered chunk within twice `alpha` stays there with its gain. -/
theorem abs_process_le (hpcm : ∀ x ∈ pcm, |x| ≤ 1) (h : |prevFiltered - prevRaw| ≤ 1) :
    ∀ y ∈ (process pcm prevRaw prevFiltered).1, |y| ≤ 2 * alpha := by
  have h0 : 0 ≤ alpha := by norm_num [alpha]
  have h1 : alpha ≤ 1 := by norm_num [alpha]
  have hfiltered := abs_highPass_le h0 h1 hpcm h
  rw [mul_one] at hfiltered
  have hpeak : peak (highPass alpha prevRaw prevFiltered pcm) ≤ 2 * alpha :=
    peak_le (by norm_num [alpha]) hfiltered
  intro y hy
  calc |y| ≤ peak (process pcm prevRaw prevFiltered).1 := abs_le_peak hy
    _ = outputPeak (peak (highPass alpha prevRaw prevFiltered pcm)) := peak_process_eq
    _ ≤ outputPeak (2 * alpha) := outputPeak_mono hpeak
    _ = 2 * alpha := by norm_num [outputPeak, alpha]

end AudioPreprocessor

namespace StreamingWhisperEngine

variable {e e' : StreamingWhisperEngine} {whisper : WhisperFull} {force : Bool}
  {res : TranscribeResult}

/-- The filter state after a chunk that is not dropped. -/
theorem processAudioChunk_filter (h : e.audioBuffer.length < highWaterMark) (pcm : List ℚ) :
    ((e.processAudioChunk pcm).1.hpPrevRaw, (e.processAudioChunk pcm).1.hpPrevFiltered) =
      highPassState AudioPreprocessor.alpha e.hpPrevRaw e.hpPrevFiltered pcm := by
  rw [processAudioChunk, if_neg (not_le.mpr h), AudioPreprocessor.process_eq]

theorem lockLanguage_filter (lang : Option Bytes) :
    (e.lockLanguage lang).hpPrevRaw = e.hpPrevRaw ∧
      (e.lockLanguage lang).hpPrevFiltered = e.hpPrevFiltered := by
  unfold lockLanguage
  split
  · split
    · split <;> exact ⟨rfl, rfl⟩
    · exact ⟨rfl, rfl⟩
  · exact ⟨rfl, rfl⟩

/-- A transcription leaves the filter alone. -/
theorem transcribe_filter (h : e.transcribeSlidingWindow whisper force = .ok (res, e')) :
    e'.hpPrevRaw = e.hpPrevRaw ∧ e'.hpPrevFiltered = e.hpPrevFiltered := by
  rcases transcribe_eq_ok.mp h with ⟨-, -, rfl⟩ | ⟨-, -, hc⟩
  · exact ⟨rfl, rfl⟩
  · rw [show e' = _ from congrArg Prod.snd hc]
    rcases commitWindow_cases (e.lockLanguage (e.infer whisper).lang) (e.infer whisper).segments
      force with ⟨k, t, -, -, hw⟩ | ⟨-, hw⟩ <;> rw [hw] <;> exact lockLanguage_filter _

theorem reset_filter (keepSamples : ℕ) : (e.reset keepSamples).hpPrevRaw = e.hpPrevRaw ∧
    (e.reset keepSamples).hpPrevFiltered = e.hpPrevFiltered := by
  unfold reset
  split <;> exact ⟨rfl, rfl⟩

end StreamingWhisperEngine

namespace EngineUse

variable {U U' : EngineUse} {call : EngineCall} {e : StreamingWhisperEngine}
  {tr : List (EngineUse × EngineCall)}

/-- The samples of a chunk lie in [-1, 1]. -/
def InRange : EngineCall → Prop
  | .processAudioChunk pcm => ∀ x ∈ pcm, |x| ≤ 1
  | _ => True

/-- The filter output stays close to its input, and everything accepted is bounded. -/
structure Bounded (U : EngineUse) : Prop where
  lag : |U.engine.hpPrevFiltered - U.engine.hpPrevRaw| ≤ 1
  prevFiltered : |U.engine.hpPrevFiltered| ≤ 2 * AudioPreprocessor.alpha
  accepted : ∀ x ∈ U.accepted, |x| ≤ 2 * AudioPreprocessor.alpha

theorem Bounded.of_filter (h : Bounded U) (hraw : e.hpPrevRaw = U.engine.hpPrevRaw)
    (hfiltered : e.hpPrevFiltered = U.engine.hpPrevFiltered) : Bounded { U with engine := e } where
  lag := by
    rw [hraw, hfiltered]
    exact h.lag
  prevFiltered := by
    rw [hfiltered]
    exact h.prevFiltered
  accepted := h.accepted

theorem Bounded.processAudioChunk (h : Bounded U) {pcm : List ℚ} (hpcm : ∀ x ∈ pcm, |x| ≤ 1)
    (hs : U.step (.processAudioChunk pcm) = some U') : Bounded U' := by
  obtain rfl := Option.some.inj hs
  by_cases hfull : highWaterMark ≤ U.engine.audioBuffer.length
  · rw [StreamingWhisperEngine.processAudioChunk_of_full hfull]
    exact h
  · have hkept : (U.engine.processAudioChunk pcm).2 = false := by
      rw [StreamingWhisperEngine.processAudioChunk_dropped]
      exact decide_eq_false hfull
    have hstate := StreamingWhisperEngine.processAudioChunk_filter (not_le.mp hfull) pcm
    obtain ⟨hraw, hfiltered⟩ := Prod.mk.inj hstate
    have h0 : (0 : ℚ) ≤ AudioPreprocessor.alpha := by norm_num [AudioPreprocessor.alpha]
    have h1 : AudioPreprocessor.alpha ≤ 1 := by norm_num [AudioPreprocessor.alpha]
    constructor
    · rw [hraw, hfiltered]
      exact abs_highPassState_sub_le h0 h1 hpcm h.lag
    · have hbound := abs_highPassState_le h0 h1 hpcm h.lag (by rw [mul_one]; exact h.prevFiltered)
      rwa [hfiltered, ← mul_one (2 * AudioPreprocessor.alpha)]
    · rw [hkept]
      exact List.forall_mem_append.mpr
        ⟨h.accepted, AudioPreprocessor.abs_process_le hpcm h.lag⟩

theorem Bounded.step (h : Bounded U) (hcall : InRange call) (hs : U.step call = some U') :
    Bounded U' := by
  cases call with
  | processAudioChunk pcm => exact h.processAudioChunk hcall hs
  | transcribeSlidingWindow whisper forceCommit =>
    simp only [EngineUse.step] at hs
    split at hs
    · rename_i htr
      obtain rfl := Option.some.inj hs
      exact h.of_filter (StreamingWhisperEngine.transcribe_filter htr).1
        (StreamingWhisperEngine.transcribe_filter htr).2
    · obtain rfl := Option.some.inj hs
      exact h
  | reset keepSamples =>
    obtain rfl := Option.some.inj hs
    exact h.of_filter (StreamingWhisperEngine.reset_filter keepSamples).1
      (StreamingWhisperEngine.reset_filter keepSamples).2

/-- From a zero filter state and an empty buffer on: whatever is called, as long as the samples
given lie in [-1, 1], the last filter output and all that was ever put in the buffer stay within
twice `alpha`. -/
theorem samples_bounded_of_run (hbuffer : e.audioBuffer = []) (hraw : e.hpPrevRaw = 0)
    (hfiltered : e.hpPrevFiltered = 0) (hrun : Run EngineUse.step { engine := e } tr U)
    (hcalls : ∀ p ∈ tr, InRange p.2) :
    |U.engine.hpPrevFiltered| ≤ 2 * (969 / 1000) ∧
      (∀ x ∈ U.accepted, |x| ≤ 2 * (969 / 1000)) ∧
      ∀ x ∈ U.engine.audioBuffer, |x| ≤ 2 * (969 / 1000) := by
  have hstart : Bounded { engine := e } := by
    constructor <;> norm_num [hraw, hfiltered, AudioPreprocessor.alpha]
  have h : Bounded U := hrun.invariant_of_eachStep (I := fun _ U => Bounded U)
    (G := fun _ _ call => InRange call) hstart (fun _ _ _ _ _ h hcall hs => h.step hcall hs)
    (.of_forall fun p hp _ => hcalls p hp)
  refine ⟨h.prevFiltered, h.accepted, ?_⟩
  intro x hx
  exact h.accepted x ((Windowed.of_run hbuffer hrun).suffix.subset hx)

end EngineUse

namespace Demo

/-- A chunk that goes from one end of the range to the other. -/
theorem bounded_of_two_samples : ∃ tr U,
    exec EngineUse.step { engine := { ctx := 0 } } [.processAudioChunk [1, -1]] = some (tr, U) ∧
      U.accepted.length = 2 ∧ ∀ x ∈ U.accepted, |x| ≤ 2 * (969 / 1000) := by
  have hrun : exec EngineUse.step { engine := { ctx := 0 } } [.processAudioChunk [1, -1]] =
      some (_, _) := rfl
  have hcalls : ∀ p ∈ [(({ engine := { ctx := 0 } } : EngineUse),
      EngineCall.processAudioChunk [1, -1])], EngineUse.InRange p.2 := by
    simp [EngineUse.InRange]
  have hbounded := EngineUse.samples_bounded_of_run rfl rfl rfl (Run.of_exec hrun) hcalls
  refine ⟨_, _, hrun, ?_, hbounded.2.1⟩
  simp [StreamingWhisperEngine.processAudioChunk_dropped, highWaterMark]

end Demo

end JotaTranscriber
