import JotaTranscriber.Session.Buffer
import JotaTranscriber.Session.Saturation
import JotaTranscriber.Transition.Since

/-! # The buffer-full warning

`buffer_overflowed_` tells whether a warning has been issued since the buffer
was last below the high-water mark, whenever the buffer is at the mark: each
stretch of dropped chunks gets one warning. The cap of 30 s is not covered by
it: a chunk that is long enough to jump from below the mark past the cap
discards audio in silence.
-/

namespace JotaTranscriber

open Transition

namespace Threads

/-- The buffer is at the high-water mark. -/
def Saturated (t : Threads) : Prop := highWaterMark ≤ t.session.bufferSize

/-- The engine is given the chunk that the receive loop holds. -/
def Hands (t : Threads) (e : StreamingWhisperEngine) (pcm : List ℚ) : Event → Prop
  | .audio _ => t.receiver = .audio pcm ∧ t.session.engine = some e ∧
      t.session.configured = true
  | _ => False

/-- The engine drops a chunk at the high-water mark. -/
def Drops (t : Threads) (ev : Event) : Prop :=
  ∃ e pcm, t.Hands e pcm ev ∧ (e.processAudioChunk pcm).2 = true

/-- A buffer-full warning is issued. -/
def warns (t : Threads) : Event → Bool
  | .audio now =>
    match t.receiver with
    | .audio pcm => (t.session.processAudioChunk pcm now).2 = [.message Session.bufferFullWarning]
    | _ => false
  | _ => false

/-- Audio is discarded: the buffer gets shorter than it was with the chunk. -/
def Discards (t : Threads) (ev : Event) : Prop :=
  ∃ e pcm, t.Hands e pcm ev ∧
    (e.processAudioChunk pcm).1.audioBuffer.length < e.audioBuffer.length + pcm.length

/-- A chunk on a buffer below the high-water mark that goes past the cap. -/
def Overruns (t : Threads) (ev : Event) : Prop :=
  ∃ e pcm, t.Hands e pcm ev ∧ e.audioBuffer.length < highWaterMark ∧
    maxBufferSamples < e.audioBuffer.length + pcm.length

/-- A warning has been issued since the buffer was last below the high-water mark. -/
def Warned (tr : List (Threads × Event)) (t : Threads) : Prop :=
  Since (fun t ev => t.warns ev = true) Saturated tr t

variable {P : Platform} {t t' : Threads} {ev : Event} {e e' : StreamingWhisperEngine}
  {pcm pcm' : List ℚ} {tr : List (Threads × Event)}

theorem Hands.unique (h : t.Hands e pcm ev) (h' : t.Hands e' pcm' ev) : e' = e ∧ pcm' = pcm := by
  cases ev with
  | audio now =>
    obtain ⟨hr, he, -⟩ := h
    obtain ⟨hr', he', -⟩ := h'
    rw [hr] at hr'
    rw [he] at he'
    cases hr'
    cases he'
    exact ⟨rfl, rfl⟩
  | _ => exact False.elim h

theorem Hands.bufferSize (h : t.Hands e pcm ev) : t.session.bufferSize = e.audioBuffer.length := by
  cases ev with
  | audio now => exact bufferSize_of_engine h.2.1
  | _ => exact False.elim h

/-- A warning is issued for a chunk that is dropped with the flag down. -/
theorem Hands.warns_iff (h : t.Hands e pcm ev) :
    t.warns ev = true ↔ t.Saturated ∧ t.session.bufferOverflowed = false := by
  cases ev with
  | audio now =>
    have hsize := h.bufferSize
    obtain ⟨hr, he, hc⟩ := h
    have hdropped : (e.processAudioChunk pcm).2 = decide (highWaterMark ≤ e.audioBuffer.length) :=
      StreamingWhisperEngine.processAudioChunk_dropped
    simp only [warns, hr, Session.processAudioChunk, he, hc, hdropped, Saturated, hsize]
    simp
  | _ => exact False.elim h

theorem warns_of_not_hands (h : ∀ e pcm, ¬ t.Hands e pcm ev) : t.warns ev = false := by
  cases ev with
  | audio now =>
    simp only [warns]
    split
    · rename_i pcm hr
      rcases Session.processAudioChunk_cases t.session pcm now with ⟨-, hp⟩ | ⟨e, -, he, hc, -⟩
      · rw [hp]
        rfl
      · exact absurd ⟨hr, he, hc⟩ (h e pcm)
    · rfl
  | _ => rfl

/-- The receive loop goes on to write the warning. -/
theorem writing_of_warns (h : t.warns ev = true) (hs : t.step P ev = some t') :
    t'.receiver = .writing [.message Session.bufferFullWarning] := by
  cases step_moves hs with
  | audio pcm now _ => simpa [warns] using h
  | _ => cases h

theorem saturated_of_warns (h : t.warns ev = true) : t.Saturated := by
  by_cases hhands : ∃ e pcm, t.Hands e pcm ev
  · obtain ⟨e, pcm, hhands⟩ := hhands
    exact (hhands.warns_iff.mp h).1
  · push Not at hhands
    rw [warns_of_not_hands hhands] at h
    cases h

theorem Hands.drops_iff (h : t.Hands e pcm ev) : t.Drops ev ↔ t.Saturated := by
  rw [Saturated, h.bufferSize]
  constructor
  · rintro ⟨e', pcm', h', hdropped⟩
    obtain ⟨rfl, rfl⟩ := h.unique h'
    simpa [StreamingWhisperEngine.processAudioChunk_dropped] using hdropped
  · intro hfull
    exact ⟨e, pcm, h, by simp [StreamingWhisperEngine.processAudioChunk_dropped, hfull]⟩

/-- A chunk that is not dropped is cut only by the cap. -/
theorem Hands.discards_iff (h : t.Hands e pcm ev) (hlow : ¬ t.Saturated) :
    t.Discards ev ↔ t.Overruns ev := by
  rw [Saturated, h.bufferSize, not_le] at hlow
  constructor
  · rintro ⟨e', pcm', h', hshort⟩
    obtain ⟨rfl, rfl⟩ := h.unique h'
    rw [StreamingWhisperEngine.processAudioChunk_size, if_neg (by omega)] at hshort
    exact ⟨e', pcm', h, hlow, by omega⟩
  · rintro ⟨e', pcm', h', -, hlong⟩
    obtain ⟨rfl, rfl⟩ := h.unique h'
    refine ⟨e', pcm', h, ?_⟩
    rw [StreamingWhisperEngine.processAudioChunk_size, if_neg (by omega)]
    omega

theorem Overruns.not_saturated (h : t.Overruns ev) : ¬ t.Saturated := by
  obtain ⟨e, pcm, hhands, hlow, -⟩ := h
  rw [Saturated, hhands.bufferSize]
  omega

theorem Overruns.discards (h : t.Overruns ev) : t.Discards ev := by
  have hlow := h.not_saturated
  obtain ⟨e, pcm, hhands, hrest⟩ := h
  exact (hhands.discards_iff hlow).mpr ⟨e, pcm, hhands, hrest⟩

/-- At the high-water mark the flag tells whether the client has been warned. -/
def FlagTells (tr : List (Threads × Event)) (t : Threads) : Prop :=
  t.Saturated → (t.session.bufferOverflowed = true ↔ Warned tr t)

/-- A step that is no chunk of the engine warns of nothing: where the buffer is at the mark after
it, it was there before, and the flag has to be the same. -/
theorem FlagTells.quiet (h : FlagTells tr t) (hquiet : t.warns ev = false)
    (hsat : t'.Saturated → t.Saturated ∧ t'.session.bufferOverflowed = t.session.bufferOverflowed) :
    FlagTells (tr ++ [(t, ev)]) t' := by
  intro hs'
  obtain ⟨hs, hflag⟩ := hsat hs'
  rw [Warned, since_snoc, hflag, h hs]
  simp [hs', hquiet, Warned]

theorem FlagTells.chunk (h : FlagTells tr t) (hhands : t.Hands e pcm ev)
    (hflag : t'.session.bufferOverflowed = (e.processAudioChunk pcm).2) :
    FlagTells (tr ++ [(t, ev)]) t' := by
  intro hs'
  rw [Warned, since_snoc, hflag, StreamingWhisperEngine.processAudioChunk_dropped,
    hhands.warns_iff, decide_eq_true_iff, ← hhands.bufferSize]
  by_cases hs : t.Saturated
  · -- the chunk is dropped, with a warning now or before
    have hbefore := h hs
    rw [Warned] at hbefore
    cases hf : t.session.bufferOverflowed with
    | true =>
      rw [hf] at hbefore
      exact iff_of_true hs ⟨hs', .inr (hbefore.mp rfl)⟩
    | false => exact iff_of_true hs ⟨hs', .inl ⟨hs, rfl⟩⟩
  · -- the chunk is accepted and begins a stretch of its own
    apply iff_of_false hs
    rintro ⟨-, ⟨hs₁, -⟩ | hsince⟩
    · exact hs hs₁
    · exact hs hsince.1

theorem FlagTells.step (h : FlagTells tr t) (hc : Consistent t) (hend : ev.beforeEnd = true)
    (hs : t.step P ev = some t') : FlagTells (tr ++ [(t, ev)]) t' := by
  have hempty (hzero : t'.session.bufferSize = 0) : FlagTells (tr ++ [(t, ev)]) t' := by
    intro hs'
    rw [Saturated, hzero] at hs'
    exact absurd hs' (by decide)
  cases step_bufferMove hc hs with
  | chunk hr he hcf _ hflag _ => exact h.chunk ⟨hr, he, hcf⟩ hflag
  | config hnil he' _ _ =>
    apply hempty
    rw [bufferSize_of_engine he', hnil]
    rfl
  | @cycle whisper e e' res _ he _ htr heq =>
    apply h.quiet rfl
    intro hs'
    have hle := StreamingWhisperEngine.transcribe_unforced_length_le htr
    rw [Saturated, heq, bufferSize_of_engine rfl] at hs'
    constructor
    · rw [Saturated, bufferSize_of_engine he]
      exact hs'.trans hle
    · rw [heq]
      simp [Session.applyResult, StreamingWhisperEngine.getBufferSize, not_lt.mpr hs']
  | forced => cases hend
  | gone _ hnone => exact hempty (bufferSize_of_none hnone)
  | same h' haudio _ =>
    apply h.quiet
    · apply warns_of_not_hands
      intro e pcm hhands
      cases ev with
      | audio now =>
        rcases haudio now rfl with hnone | hnot
        · rw [hhands.2.1] at hnone
          cases hnone
        · rw [hhands.2.2] at hnot
          cases hnot
      | _ => exact hhands
    · intro hs'
      rw [Saturated, bufferSize_congr h'.engine] at hs'
      exact ⟨hs', h'.bufferOverflowed⟩

theorem flagTells_of_run {params : SessionParams} {start : ℤ}
    (hrun : Run (step P) (init params start) tr t) (hend : ∀ p ∈ tr, p.2.beforeEnd = true) :
    FlagTells tr t := by
  refine hrun.invariant_of_eachStep (I := FlagTells) (G := fun _ _ ev => ev.beforeEnd = true) ?_ ?_
    (.of_forall fun p hp _ => hend p hp)
  · intro hs
    exact absurd (show highWaterMark ≤ 0 from hs) (by decide)
  · intro tr t ev t' hrun h hend hs
    exact h.step (consistent_of_reachable ⟨tr, hrun⟩) hend hs

/-- A chunk is warned of exactly if it is dropped and the client has not been warned since the
buffer was last below the mark. -/
theorem FlagTells.edge (h : FlagTells tr t) (ev : Event) : Edge Drops Saturated warns tr t ev := by
  unfold Edge
  by_cases hhands : ∃ e pcm, t.Hands e pcm ev
  · obtain ⟨e, pcm, hhands⟩ := hhands
    rw [hhands.warns_iff, hhands.drops_iff]
    apply and_congr_right
    intro hs
    rw [← Bool.not_eq_true, h hs, Warned]
  · push Not at hhands
    apply iff_of_false
    · simp [warns_of_not_hands hhands]
    · rintro ⟨⟨e, pcm, hdrop, -⟩, -⟩
      exact hhands e pcm hdrop

/-- A chunk that discards audio is covered by a warning, now or before, unless it goes past the
cap from below the mark. -/
theorem FlagTells.discards_iff (h : FlagTells tr t) (ev : Event) :
    (t.Discards ev → t.warns ev = true ∨ Warned tr t) ↔ ¬ t.Overruns ev := by
  constructor
  · intro hwarned hover
    have hlow := hover.not_saturated
    rcases hwarned hover.discards with hw | hw
    · exact hlow (saturated_of_warns hw)
    · exact hlow hw.1
  · rintro hnot ⟨e, pcm, hhands, hshort⟩
    have hs : t.Saturated := by
      by_contra hlow
      exact hnot ((hhands.discards_iff hlow).mp ⟨e, pcm, hhands, hshort⟩)
    cases hf : t.session.bufferOverflowed with
    | true => exact .inr ((h hs).mp hf)
    | false => exact .inl (hhands.warns_iff.mpr ⟨hs, hf⟩)

end Threads

section Runs

variable {P : Platform} {params : SessionParams} {start : ℤ} {t : Threads}
  {tr : List (Threads × Event)}

/-- Before `end`, a warning is issued exactly for the chunks that are dropped with none issued
since the buffer was last below the high-water mark; so a stretch of a run at the mark with a
dropped chunk has exactly one. -/
theorem warns_iff_of_run (hrun : Run (Threads.step P) (Threads.init params start) tr t)
    (hend : ∀ p ∈ tr, p.2.beforeEnd = true) :
    EachStep (fun tr t ev => t.warns ev = true ↔ t.Drops ev ∧ ¬ Threads.Warned tr t) tr ∧
      ∀ tr₁ t₀ ev₀ tr₂, tr = tr₁ ++ (t₀, ev₀) :: tr₂ → ¬ t₀.Saturated →
        (∀ q ∈ tr₂, q.1.Saturated) → (∃ q ∈ tr₂, q.1.Drops q.2) →
        tr₂.countP (fun q => q.1.warns q.2) = 1 := by
  have hedge : EachStep (Edge Threads.Drops Threads.Saturated Threads.warns) tr := by
    rintro tr₁ t₁ ev tr₂ rfl
    obtain ⟨_, hrun₁, -⟩ := hrun.split_at
    exact (Threads.flagTells_of_run hrun₁ fun p hp => hend p (by simp [hp])).edge ev
  refine ⟨hedge, ?_⟩
  rintro tr₁ t₀ ev₀ tr₂ rfl hlow hall hdrop
  exact (hedge.countP_eq_one (fun _ _ => Threads.saturated_of_warns) hlow hall).2 hdrop

/-- Before `end`, all audio that is discarded is covered by a warning in the same stretch if and
only if no chunk goes past the cap from below the high-water mark. -/
theorem discards_warned_iff (hrun : Run (Threads.step P) (Threads.init params start) tr t)
    (hend : ∀ p ∈ tr, p.2.beforeEnd = true) :
    EachStep (fun tr t ev => t.Discards ev → t.warns ev = true ∨ Threads.Warned tr t) tr ↔
      ∀ p ∈ tr, ¬ p.1.Overruns p.2 := by
  apply hrun.eachStep_iff (Q := fun t ev => ¬ t.Overruns ev)
  rintro tr₁ t₁ ev tr₂ rfl hrun₁
  exact (Threads.flagTells_of_run hrun₁ fun p hp => hend p (by simp [hp])).discards_iff ev

end Runs

namespace Demo

/-- The receive loop holds a frame. -/
def handing (s : Session) (n : ℕ) : Threads where
  session := { s with bytesReceivedInWindow := s.bytesReceivedInWindow + (frame n).length }
  receiver := .audio (Session.samples platform (frame n))
  flusher := .waiting

theorem hands_handing {s : Session} {e : StreamingWhisperEngine} (h : Listening s e) (n : ℕ) :
    (handing s n).Hands e (Session.samples platform (frame n)) (.audio 0) :=
  ⟨rfl, h.engine, h.configured⟩

theorem length_frame_samples (n : ℕ) : (Session.samples platform (frame n)).length = n := by
  rw [Session.length_samples, frame_length, Nat.mul_div_cancel_left n (by decide)]

/-- A frame of one sample, on any buffer. -/
theorem handing_run {s : Session} {e : StreamingWhisperEngine} (h : Listening s e) : ∃ t,
    Run (Threads.step platform) ⟨s, .writing [], .waiting⟩
      [(⟨s, .writing [], .waiting⟩, .binary (frame 1) 0), (handing s 1, .audio 0)] t := by
  have hhandled : s.handleBinaryMessage platform (frame 1) 0 =
      ((handing s 1).session, (handing s 1).receiver) := by
    simp [Session.handleBinaryMessage, handing, frame_length, Session.maxFrameBytes, h.configured,
      h.window]
  have hbinary : Threads.step platform ⟨s, .writing [], .waiting⟩ (.binary (frame 1) 0) =
      some (handing s 1) := by
    simp only [Threads.step, Threads.receiverStep, h.isOpen, if_true, hhandled]
    rfl
  obtain ⟨t, haudio⟩ : ∃ t, Threads.step platform (handing s 1) (.audio 0) = some t := ⟨_, rfl⟩
  exact ⟨t, .cons hbinary (.single haudio)⟩

theorem frames_run : Run (Threads.step platform) (Threads.init params 0)
    (readyTrace ++ (Threads.frameTrace platform ready (frame 160000) 0 ++
      Threads.frameTrace platform (ready.withFrame platform engine (frame 160000) 0)
        (frame 160000) 0))
    ⟨full, .writing [], .waiting⟩ := by
  have h₁ := frame_run (n := 160000) listening_ready (by omega) (by omega) (by simp [highWaterMark])
  have h₂ := frame_run (n := 160000) (listening_ready.withFrame 160000) (by omega) (by omega)
    (by simp [halfEngine_size, highWaterMark])
  exact ready_run.append (h₁.append h₂)

/-- After twenty seconds of audio a frame is dropped with a warning. -/
theorem warns_of_full_buffer : ∃ tr t, Run (Threads.step platform) (Threads.init params 0) tr t ∧
    (∃ p ∈ tr, p.1.Drops p.2) ∧
    EachStep (fun tr t ev => t.warns ev = true ↔ t.Drops ev ∧ ¬ Threads.Warned tr t) tr := by
  obtain ⟨t, hframe⟩ := handing_run listening_full
  have hrun := frames_run.append hframe
  refine ⟨_, t, hrun, ⟨(handing full 1, .audio 0), by simp, ?_⟩, (warns_iff_of_run hrun ?_).1⟩
  · refine ⟨fullEngine, _, hands_handing listening_full 1, ?_⟩
    have hsize := fullEngine_size
    rw [StreamingWhisperEngine.getBufferSize] at hsize
    simp [StreamingWhisperEngine.processAudioChunk_dropped, hsize]
  · simp [readyTrace, Threads.frameTrace, Event.beforeEnd]

/-- A first frame of ten seconds loses nothing. -/
theorem discards_warned_of_one_frame : ∃ tr t,
    Run (Threads.step platform) (Threads.init params 0) tr t ∧ tr ≠ [] ∧
    EachStep (fun tr t ev => t.Discards ev → t.warns ev = true ∨ Threads.Warned tr t) tr := by
  have hrun := ready_run.append (frame_run (n := 160000) listening_ready (by omega) (by omega)
    (by simp [highWaterMark]))
  refine ⟨_, _, hrun, by simp [readyTrace], (discards_warned_iff hrun ?_).mpr ?_⟩
  · simp [readyTrace, Threads.frameTrace, Event.beforeEnd]
  · rintro p hp ⟨e, pcm, hhands, hlow, hlong⟩
    simp only [readyTrace, Threads.frameTrace, List.mem_append, List.mem_cons,
      List.not_mem_nil, or_false] at hp
    rcases hp with (rfl | rfl | rfl | rfl) | rfl | rfl
    any_goals exact hhands
    obtain ⟨rfl, rfl⟩ := (hands_handing listening_ready 160000).unique hhands
    rw [length_frame_samples, engine_audioBuffer] at hlong
    exact absurd hlong (by decide)

/-- A session with one frame of a megabyte in its buffer. -/
def almostFull : Session := ready.withFrame platform engine (frame 262144) 0

theorem listening_almostFull : Listening almostFull (fill engine 262144) :=
  listening_ready.withFrame 262144

theorem almostFull_size : (fill engine 262144).audioBuffer.length = 262144 := by
  rw [fill_size (by simp [highWaterMark])]
  simp [maxBufferSamples]

theorem almostFull_overruns : (handing almostFull 262144).Overruns (.audio 0) := by
  refine ⟨_, _, hands_handing listening_almostFull 262144, ?_, ?_⟩
  · rw [almostFull_size]
    decide
  · rw [almostFull_size, length_frame_samples]
    decide

/-- Two frames of a megabyte, sent at once: the second one takes the buffer from 262144 samples past
the cap, and nobody is warned of the samples that are lost. -/
theorem not_warned_of_two_large_frames : ∃ tr t,
    Run (Threads.step platform) (Threads.init params 0) tr t ∧
    (∀ p ∈ tr, p.2.beforeEnd = true) ∧
    ¬ EachStep (fun tr t ev => t.Discards ev → t.warns ev = true ∨ Threads.Warned tr t) tr := by
  have h₁ := frame_run (n := 262144) listening_ready (by omega) (by omega) (by simp [highWaterMark])
  have h₂ := frame_run (n := 262144) listening_almostFull (by omega) (by omega)
    (by simp [almostFull_size, highWaterMark])
  refine ⟨_, _, (ready_run.append h₁).append h₂,
    by simp [readyTrace, Threads.frameTrace, Event.beforeEnd], ?_⟩
  intro h
  have hlast := h (readyTrace ++ Threads.frameTrace platform ready (frame 262144) 0 ++
      [(⟨almostFull, .writing [], .waiting⟩, .binary (frame 262144) 0)])
    (handing almostFull 262144) (.audio 0) [] (by simp [Threads.frameTrace, handing])
  have hlow := almostFull_overruns.not_saturated
  rcases hlast almostFull_overruns.discards with hw | hw
  · exact hlow (Threads.saturated_of_warns hw)
  · exact hlow hw.1

end Demo

end JotaTranscriber
