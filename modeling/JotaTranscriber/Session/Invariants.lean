import JotaTranscriber.Session.Handlers
import JotaTranscriber.Session.Threads

/-! # What holds of a session in every reachable state

The lock excludes the two threads from whisper at once, a flush cycle keeps
the buffer it measured while it is inside whisper, and a session has an engine
from its first successful config until the model is released.
-/

namespace JotaTranscriber

open Transition

/-- The receive loop has run `releaseModel`. -/
def Receiver.released : Receiver → Bool
  | left | joining | destroyed => true
  | _ => false

theorem Flusher.ne_inferring {f : Flusher} (h : f.holdsLock = false) (n : ℕ) :
    f ≠ .inferring n := by
  rintro rfl
  cases h

/-- After its cycle the flush thread is outside whisper. -/
theorem Flusher.elim_holdsLock (m : Option Message) :
    (m.elim Flusher.waiting Flusher.sending).holdsLock = false := by
  cases m <;> rfl

namespace Threads

structure Consistent (t : Threads) : Prop where
  exclusive : t.receiver = .forcing → t.flusher.holdsLock = false
  inferring : ∀ n, t.flusher = .inferring n →
    ∃ e, t.session.engine = some e ∧ e.getBufferSize = n ∧ Session.minBufferSamples ≤ n
  acquired : t.session.engine.isSome = true → t.session.modelAcquired = true
  configured : t.session.configured = true → t.receiver.released = false →
    t.session.engine.isSome = true
  released : t.receiver.released = true → t.session.modelAcquired = false

variable {P : Platform} {t t' : Threads} {ev : Event} {s s' : Session} {r r' : Receiver}
  {f f' : Flusher}

theorem consistent_init (params : SessionParams) (now : ℤ) : Consistent (init params now) := by
  constructor <;> simp [init, Receiver.released]

/-- A step that keeps the engine and the two flags keeps the invariant. -/
theorem Consistent.frame (h : Consistent ⟨s, r, f⟩) (he : s'.engine = s.engine)
    (hm : s'.modelAcquired = s.modelAcquired) (hc : s'.configured = s.configured)
    (hx : r' = .forcing → f'.holdsLock = false)
    (hf : ∀ n, f' = .inferring n → f = .inferring n)
    (hr : r'.released = r.released) : Consistent ⟨s', r', f'⟩ where
  exclusive := hx
  inferring n hn := by
    simpa only [he] using h.inferring n (hf n hn)
  acquired := by
    simpa only [he, hm] using h.acquired
  configured hcf hrel := by
    simpa only [he] using h.configured (by simpa only [hc] using hcf) (hr.symm.trans hrel)
  released hrel := by
    simpa only [hm] using h.released (hr.symm.trans hrel)

/-- Outside whisper, a session with an engine and its reference is consistent. -/
theorem consistent_of_engine {e : StreamingWhisperEngine} (hf : f.holdsLock = false)
    (he : s.engine = some e) (hm : s.modelAcquired = true) (hr : r.released = false) :
    Consistent ⟨s, r, f⟩ where
  exclusive _ := hf
  inferring n hn := absurd hn (Flusher.ne_inferring hf n)
  acquired _ := hm
  configured _ _ := by rw [he]; rfl
  released hrel := by rw [hr] at hrel; cases hrel

/-- A session is released with neither engine nor reference. -/
theorem Consistent.releaseModel (h : Consistent ⟨s, r, f⟩) :
    s.releaseModel.engine = none ∧ s.releaseModel.modelAcquired = false := by
  unfold Session.releaseModel
  split
  · exact ⟨rfl, rfl⟩
  · rename_i hm
    refine ⟨?_, by simpa using hm⟩
    by_contra he
    exact hm (h.acquired (by simpa [Option.isSome_iff_ne_none] using he))

theorem Consistent.release (h : Consistent ⟨s, r, f⟩) (hf : f.holdsLock = false)
    (hr : r'.released = true) : Consistent ⟨s.releaseModel, r', f⟩ where
  exclusive _ := hf
  inferring n hn := absurd hn (Flusher.ne_inferring hf n)
  acquired he := by rw [h.releaseModel.1] at he; cases he
  configured _ hrel := by rw [hr] at hrel; cases hrel
  released _ := h.releaseModel.2

theorem Consistent.step (h : Consistent t) (hs : t.step P ev = some t') : Consistent t' := by
  cases step_moves hs with
  | text message validate _ =>
    obtain ⟨hforcing, hreleased⟩ := Session.handleJsonMessage_receiver P _ message validate
      (p := fun r => r ≠ .forcing ∧ r.released = false) (by decide) (by decide)
      (fun _ => ⟨by simp, rfl⟩) fun _ => ⟨by simp, rfl⟩
    rw [Session.handleJsonMessage_eq]
    exact h.frame rfl rfl rfl (fun hr => absurd hr hforcing) (fun _ hn => hn) hreleased
  | binary data now _ =>
    obtain ⟨hforcing, hreleased⟩ := Session.handleBinaryMessage_receiver P _ data now
      (p := fun r => r ≠ .forcing ∧ r.released = false)
      (fun _ => ⟨by simp, rfl⟩) fun _ => ⟨by simp, rfl⟩
    rw [Session.handleBinaryMessage_eq]
    exact h.frame rfl rfl rfl (fun hr => absurd hr hforcing) (fun _ hn => hn) hreleased
  | write o out =>
    rw [Session.perform_eq]
    exact h.frame rfl rfl rfl (by simp) (fun _ hn => hn) rfl
  | audio pcm now hf =>
    rcases Session.processAudioChunk_cases _ pcm now with
      ⟨_, hr⟩ | ⟨e, out, he, hcf, hr, _⟩ <;> rw [hr]
    · exact h.frame rfl rfl rfl (by simp) (fun _ hn => hn) rfl
    · exact consistent_of_engine hf rfl (h.acquired (by simp [he])) rfl
  | install ctx vadThold initState now hf =>
    rcases Session.installEngine_cases _ ctx vadThold initState now with
      ⟨_, x, hr⟩ | ⟨_, e, _, _, hr⟩ <;> rw [hr]
    · exact ⟨by simp, fun n hn => absurd hn (Flusher.ne_inferring hf n), fun _ => rfl,
        fun hcf _ => h.configured hcf rfl, by rintro ⟨⟩⟩
    · exact consistent_of_engine hf rfl rfl rfl
  | endLock hf => exact h.frame rfl rfl rfl (fun _ => hf) (fun _ hn => hn) rfl
  | @endReturn s s' f whisper hw =>
    rcases Session.handleEndLocked_eq_ok hw with ⟨_, rfl⟩ | ⟨e, res, e', he, _, rfl⟩
    · exact h.frame rfl rfl rfl (by simp) (fun _ hn => hn) rfl
    · exact consistent_of_engine (h.exclusive rfl) rfl (h.acquired (by simp [he])) rfl
  | endThrow whisper x _ => exact h.frame rfl rfl rfl (by simp) (fun _ hn => hn) rfl
  | release hf => exact h.release hf rfl
  | joined => exact h.release rfl rfl
  | flushSkip now slot => exact h
  | @flushLock s r now n hx hr =>
    refine ⟨fun h => absurd h hx, ?_, h.acquired, h.configured, h.released⟩
    rintro m ⟨⟩
    unfold Session.flushReady at hr
    split at hr
    · cases hr
    · split at hr
      · rename_i e he hc
        cases hr
        simp only [Session.flushTriggered, Bool.and_eq_true, decide_eq_true_eq] at hc
        exact ⟨e, he, rfl, hc.2.1⟩
      · cases hr
  | @flushReturn s s' r n whisper m hw =>
    have hf := Flusher.elim_holdsLock m
    rcases Session.flushCycle_eq_ok hw with ⟨_, rfl, _⟩ | ⟨e, res, e', he, _, rfl, _⟩
    · exact h.frame rfl rfl rfl (fun _ => hf) (fun k hk => absurd hk (Flusher.ne_inferring hf k))
        rfl
    · have hm := h.acquired (by simp [he])
      refine consistent_of_engine hf rfl hm ?_
      by_contra hrel
      exact absurd (hm.symm.trans (h.released (by simpa using hrel))) (by simp)
  | flushThrow n whisper x _ =>
    exact h.frame rfl rfl rfl (by simp [Flusher.holdsLock]) (by simp) rfl
  | flushSend m =>
    rw [Session.sendMessage_eq]
    exact h.frame rfl rfl rfl (by simp [Flusher.holdsLock]) (by simp) rfl
  | flushStop => exact h.frame rfl rfl rfl (by simp [Flusher.holdsLock]) (by simp) rfl
  | disconnect => exact h.frame rfl rfl rfl (by simp) (fun _ hn => hn) rfl
  | acquired ctx vadThold => exact h.frame rfl rfl rfl (by simp) (fun _ hn => hn) rfl
  | acquireFailed x vadThold => exact h.frame rfl rfl rfl (by simp) (fun _ hn => hn) rfl
  | destroy => exact h.frame rfl rfl rfl (by simp) (fun _ hn => hn) rfl

theorem Consistent.run {tr : List (Threads × Event)} (h : Consistent t)
    (hr : Run (Threads.step P) t tr t') : Consistent t' :=
  hr.invariant h fun _ _ _ h hs => h.step hs

theorem consistent_of_reachable {params : SessionParams} {now : ℤ}
    (h : Reachable (step P) (init params now) t) : Consistent t :=
  h.invariant (consistent_init params now) fun _ _ _ h hs => h.step hs

end Threads

end JotaTranscriber
