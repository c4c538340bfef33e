import JotaTranscriber.Session.Solo
import JotaTranscriber.Transition.Measure

/-! # The end of a session

Once `run` has released the model no inference is in progress and none starts,
so the join of the destructor waits for a thread that has at most a message to
write and its loop to leave.
-/

namespace JotaTranscriber

open Transition

/-- The destructor has told the flush thread to stop. -/
def Receiver.stopping : Receiver → Bool
  | joining | destroyed => true
  | _ => false

/-- The steps that are left to a flush thread told to stop. -/
def Flusher.remaining : Flusher → ℕ
  | sending _ => 2
  | waiting => 1
  | _ => 0

/-- Outside whisper, and without an exception. -/
def Flusher.quiet : Flusher → Bool
  | waiting | sending _ | stopped => true
  | inferring _ | thrown _ => false

/-- The steps that are left to a session whose destructor joins. -/
def Threads.remaining (t : Threads) : ℕ :=
  t.flusher.remaining + if t.receiver = .destroyed then 0 else 1

namespace Threads

variable {P : Platform} {params : SessionParams} {start : ℤ} {t t' : Threads} {ev : Event}
  {tr : List (Threads × Event)} {s s' : Session} {r r' : Receiver} {f f' : Flusher}

theorem ne_thrown_of_step (hs : t.step P ev = some t') (x : Exn) : t.flusher ≠ .thrown x := by
  intro h
  simp [step, h] at hs

/-- What holds of a session that has released the model. -/
structure Settled (t : Threads) : Prop where
  running : t.session.flushRunning = !t.receiver.stopping
  quiet : t.receiver.released = true → t.flusher.quiet = true
  stopped : t.receiver = .destroyed → t.flusher = .stopped

theorem settled_init : Settled (init params start) := by
  constructor <;> simp [init, Receiver.stopping, Receiver.released]

/-- A step of the receive loop before it releases the model. -/
theorem Settled.serve (h : Settled ⟨s, r, f⟩) (hs : s'.flushRunning = s.flushRunning)
    (hr : r.stopping = false) (hr' : r'.released = false) : Settled ⟨s', r', f⟩ where
  running := by
    have hstop : r'.stopping = false := by
      cases r' <;> first | rfl | cases hr'
    change s'.flushRunning = !r'.stopping
    rw [hs, show s.flushRunning = _ from h.running, hr, hstop]
  quiet hreleased := by
    rw [show r'.released = true from hreleased] at hr'
    cases hr'
  stopped hd := by
    rw [show r' = .destroyed from hd] at hr'
    cases hr'

/-- A step of the flush thread. -/
theorem Settled.flush (h : Settled ⟨s, r, f⟩) (hs : s'.flushRunning = s.flushRunning)
    (hq : r.released = true → f'.quiet = true) (hf : f ≠ .stopped) : Settled ⟨s', r, f'⟩ where
  running := hs.trans h.running
  quiet := hq
  stopped hd := absurd (h.stopped hd) hf

/-- No inference starts once the model is released. -/
theorem Consistent.engine_released (h : Consistent t) (hr : t.receiver.released = true) :
    t.session.engine = none := by
  by_contra hne
  have hacquired := h.acquired (Option.isSome_iff_ne_none.mpr hne)
  rw [h.released hr] at hacquired
  cases hacquired

theorem Consistent.flushReady_released (h : Consistent t) (hr : t.receiver.released = true)
    (now : ℤ) : t.session.flushReady now = none := by
  rw [Session.flushReady, h.engine_released hr]

theorem Consistent.ne_inferring_released (h : Consistent t) (hr : t.receiver.released = true)
    (n : ℕ) : t.flusher ≠ .inferring n := by
  intro hf
  obtain ⟨e, he, -, -⟩ := h.inferring n hf
  rw [h.engine_released hr] at he
  cases he

theorem Settled.step (h : Settled t) (hc : Consistent t) (hs : t.step P ev = some t') :
    Settled t' := by
  have hthrown := ne_thrown_of_step hs
  cases step_moves hs with
  | text message validate _ =>
    apply h.serve (by rw [Session.handleJsonMessage_eq]) rfl
    exact Session.handleJsonMessage_receiver P _ message validate
      (p := fun r => r.released = false) rfl rfl (fun _ => rfl) fun _ => rfl
  | binary data now _ =>
    apply h.serve (by rw [Session.handleBinaryMessage_eq]) rfl
    exact Session.handleBinaryMessage_receiver P _ data now
      (p := fun r => r.released = false) (fun _ => rfl) fun _ => rfl
  | write o out => exact h.serve (by rw [Session.perform_eq]) rfl rfl
  | audio pcm now _ => exact h.serve (by rw [Session.processAudioChunk_eq]) rfl rfl
  | install ctx v initState now _ =>
    rcases Session.installEngine_cases _ ctx v initState now with
      ⟨_, x, hr⟩ | ⟨_, e, _, _, hr⟩ <;> rw [hr] <;> exact h.serve rfl rfl rfl
  | endReturn whisper hw =>
    rcases Session.handleEndLocked_eq_ok hw with ⟨_, rfl⟩ | ⟨e, res, e', _, _, rfl⟩ <;>
      exact h.serve rfl rfl rfl
  | @release s f hlock =>
    rw [Session.releaseModel_eq]
    refine ⟨h.running, fun _ => ?_, by rintro ⟨⟩⟩
    cases f with
    | inferring n => cases hlock
    | thrown x => exact absurd rfl (hthrown x)
    | _ => rfl
  | destroy => exact ⟨rfl, fun _ => h.quiet rfl, by rintro ⟨⟩⟩
  | joined =>
    rw [Session.releaseModel_eq]
    exact ⟨h.running, fun _ => rfl, fun _ => rfl⟩
  | flushSkip now slot => exact h
  | flushLock now n _ hready =>
    refine h.flush rfl (fun hr => ?_) (by simp)
    rw [show _ = none from hc.flushReady_released hr now] at hready
    cases hready
  | @flushReturn s s' r n whisper m hw =>
    refine h.flush ?_ (fun _ => by cases m <;> rfl) (by simp)
    rcases Session.flushCycle_eq_ok hw with ⟨_, rfl, _⟩ | ⟨e, res, e', _, _, rfl, _⟩ <;> rfl
  | flushThrow n whisper x _ =>
    exact h.flush rfl (fun hr => absurd rfl (hc.ne_inferring_released hr n)) (by simp)
  | flushSend m =>
    rw [Session.sendMessage_eq]
    exact h.flush rfl (fun _ => rfl) (by simp)
  | flushStop => exact h.flush rfl (fun _ => rfl) (by simp)
  | _ => exact h.serve rfl rfl rfl

theorem settled_of_reachable (h : Reachable (step P) (init params start) t) : Settled t := by
  refine (h.invariant (I := fun t => Settled t ∧ Consistent t)
    ⟨settled_init, consistent_init params start⟩ ?_).1
  exact fun t ev t' h hs => ⟨h.1.step h.2 hs, h.2.step hs⟩

/-! ## The join -/

/-- A flush thread that was told to stop starts no cycle. -/
theorem flushRunning_of_flushLock {now : ℤ} {slot : Bool}
    (hs : t.step P (.flushLock now slot) = some t') : t.session.flushRunning = true := by
  obtain ⟨s, r, f⟩ := t
  cases f with
  | waiting =>
    by_contra hstop
    simp [step, flusherStep, hstop] at hs
  | _ => cases hs

/-- Each step after the destructor has told the thread to stop is one of those that are left. -/
theorem step_remaining (h : Settled t) (hc : Consistent t) (hr : t.receiver.stopping = true)
    (hs : t.step P ev = some t') : t'.receiver.stopping = true ∧ t'.remaining < t.remaining := by
  have hstopped : t.session.flushRunning = false := by rw [h.running, hr]; rfl
  have hreleased : t.receiver.released = true := by
    revert hr
    cases t.receiver <;> simp [Receiver.stopping, Receiver.released]
  have hmoves := step_moves hs
  cases hmoves with
  | joined => exact ⟨rfl, by simp [remaining, Flusher.remaining]⟩
  | flushSkip now slot =>
    rw [flushRunning_of_flushLock hs] at hstopped
    cases hstopped
  | flushLock now n _ _ =>
    rw [flushRunning_of_flushLock hs] at hstopped
    cases hstopped
  | flushReturn n whisper m _ => exact absurd rfl (hc.ne_inferring_released hreleased n)
  | flushThrow n whisper x _ => exact absurd rfl (hc.ne_inferring_released hreleased n)
  | flushSend m => exact ⟨hr, by simp [remaining, Flusher.remaining]⟩
  | flushStop => exact ⟨hr, by simp [remaining, Flusher.remaining]⟩
  | _ => cases hr

theorem run_remaining (h : Settled t) (hc : Consistent t) (hr : t.receiver.stopping = true)
    (hrun : Run (step P) t tr t') :
    (Settled t' ∧ Consistent t') ∧ t'.receiver.stopping = true ∧
      tr.length + t'.remaining ≤ t.remaining := by
  have hstep (t : Threads) (e : Event) (t' : Threads)
      (ht : (Settled t ∧ Consistent t) ∧ t.receiver.stopping = true)
      (hs : t.step P e = some t') :
      ((Settled t' ∧ Consistent t') ∧ t'.receiver.stopping = true) ∧
        t'.remaining + 1 ≤ t.remaining := by
    obtain ⟨⟨hset, hcons⟩, hstop⟩ := ht
    obtain ⟨hstop', hlt⟩ := step_remaining hset hcons hstop hs
    exact ⟨⟨⟨hset.step hcons hs, hcons.step hs⟩, hstop'⟩, hlt⟩
  have hend := hrun.invariant ⟨⟨h, hc⟩, hr⟩ fun t e t' ht hs => (hstep t e t' ht hs).1
  exact ⟨hend.1, hend.2, hrun.length_le ⟨⟨h, hc⟩, hr⟩
    (fun t e t' ht hs => (hstep t e t' ht hs).1) fun t e t' ht hs => (hstep t e t' ht hs).2⟩

/-- A session that is not destroyed yet has a step. -/
theorem exists_step_of_joining (h : Settled t) (hr : t.receiver = .joining) :
    ∃ ev t', t.step P ev = some t' := by
  obtain ⟨s, r, f⟩ := t
  obtain rfl : r = .joining := hr
  have hrun : s.flushRunning = false := h.running
  have hquiet : f.quiet = true := h.quiet rfl
  cases f with
  | waiting => exact ⟨.flushStop, _, by simp [step, flusherStep, hrun]; rfl⟩
  | sending m => exact ⟨.flushSend, _, rfl⟩
  | stopped => exact ⟨.joined, _, rfl⟩
  | inferring n => cases hquiet
  | thrown x => cases hquiet

end Threads

section Runs

variable {P : Platform} {params : SessionParams} {start : ℤ} {t t' : Threads}
  {tr : List (Threads × Event)}

end Runs

namespace Demo

end Demo

end JotaTranscriber
