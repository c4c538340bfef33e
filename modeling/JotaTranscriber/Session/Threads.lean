import JotaTranscriber.Session.Basic
import JotaTranscriber.Transition.Run

/-! # The two threads of a session

The receive loop and the flush thread interleave at the sections they run
under `state_mutex_` and at their writes on the socket. A flush cycle holds the
lock while it is inside whisper, and so does the forced call of `handleEnd`.
An event carries what the rest of the server answers: the verdict on a token,
the context from the model cache, whether a slot was free, the segments.
-/

namespace JotaTranscriber

/-- Where the flush thread stands. -/
inductive Flusher where
  /-- Before its next `try_lock`. -/
  | waiting
  /-- Inside whisper, with the lock and a slot; it read this buffer size before. -/
  | inferring (currentSize : ℕ)
  /-- It has unlocked and is about to write this message. -/
  | sending (m : Message)
  | stopped
  /-- An exception has left the thread function, which ends the process. -/
  | thrown (x : Exn)
  deriving DecidableEq, Repr

structure Threads where
  session : Session
  receiver : Receiver
  flusher : Flusher

inductive Event where
  | text (message : Bytes) (validate : Bytes → Bool)
  | binary (data : Bytes) (now : ℤ)
  | audio (now : ℤ)
  | acquired (r : Except Exn WhisperContext)
  | install (initState : Bool) (now : ℤ)
  | endLock
  | endReturn (whisper : WhisperFull)
  | write
  /-- `ws_.read` throws. -/
  | disconnect
  | release
  | destroy
  | joined
  | flushLock (now : ℤ) (slot : Bool)
  | flushReturn (whisper : WhisperFull)
  | flushSend
  | flushStop

def Flusher.holdsLock : Flusher → Bool
  | inferring _ => true
  | _ => false

namespace Threads

def init (params : SessionParams) (now : ℤ) : Threads where
  session := { params, rateLimitStart := now, lastAudioTime := now }
  receiver := .writing []
  flusher := .waiting

/-- A step of the receive loop. -/
def receiverStep (P : Platform) (t : Threads) (ev : Event) : Option Threads :=
  match t.receiver, ev with
  | .writing [], .text message validate =>
    if t.session.ws.closed = none then
      let (session, receiver) := t.session.handleJsonMessage P message validate
      some { t with session, receiver }
    else none
  | .writing [], .binary data now =>
    if t.session.ws.closed = none then
      let (session, receiver) := t.session.handleBinaryMessage P data now
      some { t with session, receiver }
    else none
  | .writing [], .disconnect => some { t with receiver := .leaving }
  | .writing (o :: out), .write =>
    let (session, more) := t.session.perform o
    some { t with session, receiver := .writing (more ++ out) }
  | .audio pcm, .audio now =>
    if t.flusher.holdsLock then none
    else
      let (session, out) := t.session.processAudioChunk pcm now
      some { t with session, receiver := .writing out }
  | .acquiring vadThold, .acquired (.ok ctx) =>
    some { t with receiver := .installing ctx vadThold }
  | .acquiring _, .acquired (.error x) => some { t with receiver := .writing (configFailed x) }
  | .installing ctx vadThold, .install initState now =>
    if t.flusher.holdsLock then none
    else
      let (session, out) := t.session.installEngine ctx vadThold initState now
      some { t with session, receiver := .writing out }
  | .ending, .endLock =>
    if t.flusher.holdsLock then none else some { t with receiver := .forcing }
  | .forcing, .endReturn whisper =>
    match t.session.handleEndLocked whisper with
    | .ok session => some { t with session, receiver := .writing Session.endOutputs }
    | .error _ => some { t with receiver := .leaving }
  | .leaving, .release =>
    if t.flusher.holdsLock then none
    else some { t with session := t.session.releaseModel, receiver := .left }
  | .left, .destroy =>
    some { t with session := { t.session with flushRunning := false }, receiver := .joining }
  | .joining, .joined =>
    if t.flusher = .stopped then
      some { t with session := t.session.releaseModel, receiver := .destroyed }
    else none
  | _, _ => none

/-- A step of the flush thread. A cycle that does not get the lock or a slot, or that finds too
little audio, goes back to sleep. -/
def flusherStep (t : Threads) (ev : Event) : Option Threads :=
  match t.flusher, ev with
  | .waiting, .flushLock now slot =>
    if !t.session.flushRunning then none
    else if t.receiver = .forcing then some t
    else
      match t.session.flushReady now with
      | none => some t
      | some currentSize =>
        if slot then some { t with flusher := .inferring currentSize } else some t
  | .inferring currentSize, .flushReturn whisper =>
    match t.session.flushCycle currentSize whisper with
    | .error x => some { t with flusher := .thrown x }
    | .ok (session, none) => some { t with session, flusher := .waiting }
    | .ok (session, some m) => some { t with session, flusher := .sending m }
  | .sending m, .flushSend =>
    some { t with session := t.session.sendMessage m, flusher := .waiting }
  | .waiting, .flushStop =>
    if t.session.flushRunning then none else some { t with flusher := .stopped }
  | _, _ => none

/-- After an exception has left the flush thread there is no next step. -/
def step (P : Platform) (t : Threads) (ev : Event) : Option Threads :=
  match t.flusher, ev with
  | .thrown _, _ => none
  | _, .flushLock .. | _, .flushReturn _ | _, .flushSend | _, .flushStop => t.flusherStep ev
  | _, _ => t.receiverStep P ev

/-- All that one step can do. -/
inductive Moves (P : Platform) : Threads → Event → Threads → Prop where
  | text {s : Session} {f : Flusher} (message : Bytes) (validate : Bytes → Bool) :
      s.ws.closed = none →
      Moves P ⟨s, .writing [], f⟩ (.text message validate)
        ⟨(s.handleJsonMessage P message validate).1, (s.handleJsonMessage P message validate).2, f⟩
  | binary {s : Session} {f : Flusher} (data : Bytes) (now : ℤ) : s.ws.closed = none →
      Moves P ⟨s, .writing [], f⟩ (.binary data now)
        ⟨(s.handleBinaryMessage P data now).1, (s.handleBinaryMessage P data now).2, f⟩
  | disconnect {s : Session} {f : Flusher} :
      Moves P ⟨s, .writing [], f⟩ .disconnect ⟨s, .leaving, f⟩
  | write {s : Session} {f : Flusher} (o : Output) (out : List Output) :
      Moves P ⟨s, .writing (o :: out), f⟩ .write
        ⟨(s.perform o).1, .writing ((s.perform o).2 ++ out), f⟩
  | audio {s : Session} {f : Flusher} (pcm : List ℚ) (now : ℤ) : f.holdsLock = false →
      Moves P ⟨s, .audio pcm, f⟩ (.audio now)
        ⟨(s.processAudioChunk pcm now).1, .writing (s.processAudioChunk pcm now).2, f⟩
  | acquired {s : Session} {f : Flusher} (ctx : WhisperContext) (vadThold : ℚ) :
      Moves P ⟨s, .acquiring vadThold, f⟩ (.acquired (.ok ctx)) ⟨s, .installing ctx vadThold, f⟩
  | acquireFailed {s : Session} {f : Flusher} (x : Exn) (vadThold : ℚ) :
      Moves P ⟨s, .acquiring vadThold, f⟩ (.acquired (.error x)) ⟨s, .writing (configFailed x), f⟩
  | install {s : Session} {f : Flusher} (ctx : WhisperContext) (vadThold : ℚ)
      (initState : Bool) (now : ℤ) : f.holdsLock = false →
      Moves P ⟨s, .installing ctx vadThold, f⟩ (.install initState now)
        ⟨(s.installEngine ctx vadThold initState now).1,
          .writing (s.installEngine ctx vadThold initState now).2, f⟩
  | endLock {s : Session} {f : Flusher} : f.holdsLock = false →
      Moves P ⟨s, .ending, f⟩ .endLock ⟨s, .forcing, f⟩
  | endReturn {s s' : Session} {f : Flusher} (whisper : WhisperFull) :
      s.handleEndLocked whisper = .ok s' →
      Moves P ⟨s, .forcing, f⟩ (.endReturn whisper) ⟨s', .writing Session.endOutputs, f⟩
  | endThrow {s : Session} {f : Flusher} (whisper : WhisperFull) (x : Exn) :
      s.handleEndLocked whisper = .error x →
      Moves P ⟨s, .forcing, f⟩ (.endReturn whisper) ⟨s, .leaving, f⟩
  | release {s : Session} {f : Flusher} : f.holdsLock = false →
      Moves P ⟨s, .leaving, f⟩ .release ⟨s.releaseModel, .left, f⟩
  | destroy {s : Session} {f : Flusher} :
      Moves P ⟨s, .left, f⟩ .destroy ⟨{ s with flushRunning := false }, .joining, f⟩
  | joined {s : Session} :
      Moves P ⟨s, .joining, .stopped⟩ .joined ⟨s.releaseModel, .destroyed, .stopped⟩
  | flushSkip {s : Session} {r : Receiver} (now : ℤ) (slot : Bool) :
      Moves P ⟨s, r, .waiting⟩ (.flushLock now slot) ⟨s, r, .waiting⟩
  | flushLock {s : Session} {r : Receiver} (now : ℤ) (currentSize : ℕ) : r ≠ .forcing →
      s.flushReady now = some currentSize →
      Moves P ⟨s, r, .waiting⟩ (.flushLock now true) ⟨s, r, .inferring currentSize⟩
  | flushReturn {s s' : Session} {r : Receiver} (currentSize : ℕ) (whisper : WhisperFull)
      (m : Option Message) : s.flushCycle currentSize whisper = .ok (s', m) →
      Moves P ⟨s, r, .inferring currentSize⟩ (.flushReturn whisper)
        ⟨s', r, m.elim .waiting .sending⟩
  | flushThrow {s : Session} {r : Receiver} (currentSize : ℕ) (whisper : WhisperFull) (x : Exn) :
      s.flushCycle currentSize whisper = .error x →
      Moves P ⟨s, r, .inferring currentSize⟩ (.flushReturn whisper) ⟨s, r, .thrown x⟩
  | flushSend {s : Session} {r : Receiver} (m : Message) :
      Moves P ⟨s, r, .sending m⟩ .flushSend ⟨s.sendMessage m, r, .waiting⟩
  | flushStop {s : Session} {r : Receiver} :
      Moves P ⟨s, r, .waiting⟩ .flushStop ⟨s, r, .stopped⟩

variable {P : Platform} {t t' : Threads} {ev : Event}

theorem moves_of_receiverStep (h : t.receiverStep P ev = some t') : Moves P t ev t' := by
  obtain ⟨s, r, f⟩ := t
  unfold receiverStep at h
  split at h
  all_goals simp only [Option.ite_none_right_eq_some, Option.ite_none_left_eq_some,
    Option.some.injEq, reduceCtorEq, Bool.not_eq_true] at *
  all_goals subst_vars
  · obtain ⟨hc, rfl⟩ := h; exact .text _ _ hc
  · obtain ⟨hc, rfl⟩ := h; exact .binary _ _ hc
  · exact .disconnect
  · exact .write _ _
  · obtain ⟨hf, rfl⟩ := h; exact .audio _ _ hf
  · exact .acquired _ _
  · exact .acquireFailed _ _
  · obtain ⟨hf, rfl⟩ := h; exact .install _ _ _ _ hf
  · obtain ⟨hf, rfl⟩ := h; exact .endLock hf
  · split at h <;> simp only [Option.some.injEq] at h <;> subst h
    · exact .endReturn _ ‹_›
    · exact .endThrow _ _ ‹_›
  · obtain ⟨hf, rfl⟩ := h; exact .release hf
  · exact .destroy
  · obtain ⟨rfl, rfl⟩ := h; exact .joined

theorem moves_of_flusherStep (h : t.flusherStep ev = some t') : Moves P t ev t' := by
  obtain ⟨s, r, f⟩ := t
  unfold flusherStep at h
  split at h
  · split at h
    · cases h
    · split at h
      · cases h; subst_vars; exact .flushSkip _ _
      · split at h
        · cases h; subst_vars; exact .flushSkip _ _
        · split at h <;> cases h <;> subst_vars
          · exact .flushLock _ _ ‹_› ‹_›
          · exact .flushSkip _ _
  · split at h <;> cases h <;> subst_vars
    · exact .flushThrow _ _ _ ‹_›
    · exact .flushReturn _ _ none ‹_›
    · exact .flushReturn _ _ (some _) ‹_›
  · cases h; subst_vars; exact .flushSend _
  · split at h <;> cases h; subst_vars; exact .flushStop
  · cases h

/-- Every step is one of the moves. -/
theorem step_moves (h : t.step P ev = some t') : Moves P t ev t' := by
  unfold step at h
  split at h
  · cases h
  all_goals first
    | exact moves_of_flusherStep h
    | exact moves_of_receiverStep h

end Threads

end JotaTranscriber
