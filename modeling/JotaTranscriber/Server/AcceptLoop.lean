import JotaTranscriber.Server.ConnectionLimiter
import JotaTranscriber.Transition.Run

/-! # The accept loop

Main accepts connections and starts a thread for each, a thread of its own runs
the `io_context` whose only work is to wait for a signal, and the session
threads serve. An event carries what the system answers: what `accept` reports,
the address of the peer or none when it is gone, whether a thread was started.
-/

namespace JotaTranscriber

inductive AcceptError where
  | operationAborted
  | interrupted
  | other
  deriving DecidableEq, Repr

/-- Where main stands. -/
inductive AcceptLoop where
  /-- `ioc_thread` has been started, and `async_wait` has not been called. -/
  | starting
  /-- Before `acceptor.is_open()`. -/
  | checking
  | accepting
  | accepted
  | rejecting
  /-- The client has a slot, and no thread yet. -/
  | admitted (clientIp : Bytes)
  /-- The loop has ended, and the session threads are joined. -/
  | joining
  /-- An exception has left the loop. It passes joinable threads, which ends the process. -/
  | thrown
  deriving DecidableEq, Repr

/-- Where `ioc.run()` stands. -/
inductive IoContext where
  | notStarted
  | running
  /-- The signal handler has closed the acceptor. -/
  | handling
  | returned
  deriving DecidableEq, Repr

/-- Where `handleSession` stands. -/
inductive Stage where
  /-- In the TLS handshake, or reading and answering the HTTP request. -/
  | reading
  /-- The `StreamingSession` is constructed, and registered with the tracker. -/
  | running
  /-- It is destroyed. -/
  | leaving
  /-- The guard has released the slot. -/
  | returned
  deriving DecidableEq, Repr

structure SessionThread where
  clientIp : Bytes
  stage : Stage := .reading
  /-- `shutdown` has been called on the session. -/
  shut : Bool := false
  deriving DecidableEq, Repr

namespace SessionThread

/-- The connection is being served. -/
def isServed (t : SessionThread) : Bool := t.stage = .reading || t.stage = .running

/-- The guard holds a slot. -/
def holdsSlot (t : SessionThread) : Bool := t.stage ≠ .returned

/-- What `shutdownAll` does. -/
def shutdown (t : SessionThread) : SessionThread :=
  if t.stage = .running then { t with shut := true } else t

def construct (t : SessionThread) : Option SessionThread :=
  if t.stage = .reading then some { t with stage := .running } else none

def destroy (t : SessionThread) : Option SessionThread :=
  if t.stage = .running then some { t with stage := .leaving } else none

/-- The end of `handleSession`: after the session, or before there is one, by an answer to the
HTTP request or by an exception. -/
def finish (t : SessionThread) : Option SessionThread :=
  if t.stage = .reading ∨ t.stage = .leaving then some { t with stage := .returned } else none

end SessionThread

structure Listener where
  limiter : ConnectionLimiter
  main : AcceptLoop := .starting
  acceptorOpen : Bool := true
  ioc : IoContext := .notStarted
  /-- A signal was delivered. -/
  signalled : Bool := false
  sessionThreads : List SessionThread := []

inductive ListenerEvent where
  /-- `signals.async_wait`. -/
  | asyncWait
  | isOpen
  | accept (result : Except AcceptError Unit)
  /-- `remote_endpoint`, which throws when there is no peer any more, and `tryAcquire`. -/
  | remoteEndpoint (peer : Option Bytes)
  /-- `socket.close()`, or an exception from it. -/
  | close (closed : Bool)
  /-- `session_threads.emplace_back`, or an exception from it. -/
  | spawn (started : Bool)
  /-- `ioc_thread` calls `ioc.run()`. -/
  | iocRun
  | signal
  | closeAcceptor
  | shutdownAll
  | construct (i : ℕ)
  | destroy (i : ℕ)
  | finish (i : ℕ)

/-- Main is in the loop. -/
def AcceptLoop.inLoop : AcceptLoop → Bool
  | checking | accepting | accepted | rejecting | admitted _ => true
  | starting | joining | thrown => false

/-- The address whose slot main holds. -/
def AcceptLoop.slot : AcceptLoop → List Bytes
  | admitted clientIp => [clientIp]
  | _ => []

namespace Listener

def init (maxTotal maxPerIp : ℕ) : Listener := { limiter := { maxTotal, maxPerIp } }

/-- What follows a report of `accept`. -/
def afterAccept : Except AcceptError Unit → AcceptLoop
  | .ok _ => .accepted
  | .error .operationAborted => .joining
  | .error .interrupted => .joining
  | .error .other => .checking

/-- A step of main. -/
def mainStep (s : Listener) (ev : ListenerEvent) : Option Listener :=
  match s.main, ev with
  | .starting, .asyncWait => some { s with main := .checking }
  | .checking, .isOpen => some { s with main := if s.acceptorOpen then .accepting else .joining }
  | .accepting, .accept result => some { s with main := afterAccept result }
  | .accepted, .remoteEndpoint none => some { s with main := .thrown }
  | .accepted, .remoteEndpoint (some clientIp) =>
    let (limiter, slot) := s.limiter.tryAcquire clientIp
    some { s with limiter, main := if slot then .admitted clientIp else .rejecting }
  | .rejecting, .close closed => some { s with main := if closed then .checking else .thrown }
  | .admitted clientIp, .spawn true =>
    some { s with sessionThreads := s.sessionThreads ++ [{ clientIp }], main := .checking }
  | .admitted clientIp, .spawn false =>
    some { s with limiter := s.limiter.release clientIp, main := .checking }
  | _, _ => none

/-- A step of `ioc_thread`, or the signal it waits for. `ioc.run()` returns at once when nothing
waits yet, and after the handler. -/
def iocStep (s : Listener) (ev : ListenerEvent) : Option Listener :=
  match s.ioc, ev with
  | .notStarted, .iocRun =>
    some { s with ioc := if s.main = .starting then .returned else .running }
  | _, .signal =>
    if s.main.inLoop = true ∧ s.signalled = false then some { s with signalled := true } else none
  | .running, .closeAcceptor =>
    if s.signalled then some { s with ioc := .handling, acceptorOpen := false } else none
  | .handling, .shutdownAll =>
    some { s with ioc := .returned, sessionThreads := s.sessionThreads.map .shutdown }
  | _, _ => none

/-- The `i`-th session thread makes a step. -/
def advance (s : Listener) (i : ℕ) (f : SessionThread → Option SessionThread) :
    Option Listener :=
  s.sessionThreads[i]?.bind fun t =>
    (f t).map fun t' => { s with sessionThreads := s.sessionThreads.set i t' }

/-- A step of a session thread. -/
def threadStep (s : Listener) (ev : ListenerEvent) : Option Listener :=
  match ev with
  | .construct i => s.advance i SessionThread.construct
  | .destroy i => s.advance i SessionThread.destroy
  | .finish i =>
    s.sessionThreads[i]?.bind fun t =>
      (s.advance i SessionThread.finish).map fun s =>
        { s with limiter := s.limiter.release t.clientIp }
  | _ => none

def step (s : Listener) (ev : ListenerEvent) : Option Listener :=
  if s.main = .thrown then none
  else match ev with
  | .construct _ | .destroy _ | .finish _ => s.threadStep ev
  | .iocRun | .signal | .closeAcceptor | .shutdownAll => s.iocStep ev
  | _ => s.mainStep ev

/-- All that one step can do. -/
inductive Moves (s : Listener) : ListenerEvent → Listener → Prop where
  | asyncWait : s.main = .starting → Moves s .asyncWait { s with main := .checking }
  | isOpen : s.main = .checking →
      Moves s .isOpen { s with main := if s.acceptorOpen then .accepting else .joining }
  | accept (result : Except AcceptError Unit) : s.main = .accepting →
      Moves s (.accept result) { s with main := afterAccept result }
  | peerGone : s.main = .accepted → Moves s (.remoteEndpoint none) { s with main := .thrown }
  | remoteEndpoint (clientIp : Bytes) : s.main = .accepted →
      Moves s (.remoteEndpoint (some clientIp))
        { s with
          limiter := (s.limiter.tryAcquire clientIp).1
          main := if (s.limiter.tryAcquire clientIp).2 then .admitted clientIp else .rejecting }
  | close (closed : Bool) : s.main = .rejecting →
      Moves s (.close closed) { s with main := if closed then .checking else .thrown }
  | spawn (clientIp : Bytes) : s.main = .admitted clientIp →
      Moves s (.spawn true)
        { s with sessionThreads := s.sessionThreads ++ [{ clientIp }], main := .checking }
  | spawnFails (clientIp : Bytes) : s.main = .admitted clientIp →
      Moves s (.spawn false)
        { s with limiter := s.limiter.release clientIp, main := .checking }
  | iocRun : s.ioc = .notStarted →
      Moves s .iocRun { s with ioc := if s.main = .starting then .returned else .running }
  | signal : s.main.inLoop = true → s.signalled = false →
      Moves s .signal { s with signalled := true }
  | closeAcceptor : s.ioc = .running → s.signalled = true →
      Moves s .closeAcceptor { s with ioc := .handling, acceptorOpen := false }
  | shutdownAll : s.ioc = .handling →
      Moves s .shutdownAll
        { s with ioc := .returned, sessionThreads := s.sessionThreads.map .shutdown }
  | construct (i : ℕ) {t : SessionThread} : s.sessionThreads[i]? = some t → t.stage = .reading →
      Moves s (.construct i)
        { s with sessionThreads := s.sessionThreads.set i { t with stage := .running } }
  | destroy (i : ℕ) {t : SessionThread} : s.sessionThreads[i]? = some t → t.stage = .running →
      Moves s (.destroy i)
        { s with sessionThreads := s.sessionThreads.set i { t with stage := .leaving } }
  | finish (i : ℕ) {t : SessionThread} : s.sessionThreads[i]? = some t →
      t.stage = .reading ∨ t.stage = .leaving →
      Moves s (.finish i)
        { s with
          limiter := s.limiter.release t.clientIp
          sessionThreads := s.sessionThreads.set i { t with stage := .returned } }

variable {s s' : Listener} {ev : ListenerEvent}

theorem moves_of_mainStep (h : s.mainStep ev = some s') : Moves s ev s' := by
  unfold mainStep at h
  split at h
  all_goals simp only [Option.some.injEq, reduceCtorEq] at h
  all_goals subst h
  · exact .asyncWait ‹_›
  · exact .isOpen ‹_›
  · exact .accept _ ‹_›
  · exact .peerGone ‹_›
  · exact .remoteEndpoint _ ‹_›
  · exact .close _ ‹_›
  · exact .spawn _ ‹_›
  · exact .spawnFails _ ‹_›

theorem moves_of_iocStep (h : s.iocStep ev = some s') : Moves s ev s' := by
  unfold iocStep at h
  split at h
  all_goals simp only [Option.ite_none_right_eq_some, Option.some.injEq, reduceCtorEq] at h
  · subst h; exact .iocRun ‹_›
  · obtain ⟨⟨hloop, hfirst⟩, rfl⟩ := h; exact .signal hloop hfirst
  · obtain ⟨hsignal, rfl⟩ := h; exact .closeAcceptor ‹_› hsignal
  · subst h; exact .shutdownAll ‹_›

theorem advance_eq_some {i : ℕ} {f : SessionThread → Option SessionThread}
    (h : s.advance i f = some s') : ∃ t t', s.sessionThreads[i]? = some t ∧ f t = some t' ∧
      s' = { s with sessionThreads := s.sessionThreads.set i t' } := by
  obtain ⟨t, ht, h⟩ := Option.bind_eq_some_iff.mp h
  obtain ⟨t', hf, rfl⟩ := Option.map_eq_some_iff.mp h
  exact ⟨t, t', ht, hf, rfl⟩

theorem moves_of_threadStep (h : s.threadStep ev = some s') : Moves s ev s' := by
  cases ev with
  | construct i =>
    obtain ⟨t, t', ht, hf, rfl⟩ := advance_eq_some h
    obtain ⟨hstage, ⟨⟩⟩ := Option.ite_none_right_eq_some.mp hf
    exact .construct i ht hstage
  | destroy i =>
    obtain ⟨t, t', ht, hf, rfl⟩ := advance_eq_some h
    obtain ⟨hstage, ⟨⟩⟩ := Option.ite_none_right_eq_some.mp hf
    exact .destroy i ht hstage
  | finish i =>
    obtain ⟨t, ht, h⟩ := Option.bind_eq_some_iff.mp h
    obtain ⟨s₁, hadvance, rfl⟩ := Option.map_eq_some_iff.mp h
    obtain ⟨t₁, t', ht₁, hf, rfl⟩ := advance_eq_some hadvance
    obtain rfl : t = t₁ := by rwa [ht, Option.some.injEq] at ht₁
    obtain ⟨hstage, ⟨⟩⟩ := Option.ite_none_right_eq_some.mp hf
    exact .finish i ht hstage
  | _ => cases h

/-- Every step is one of the moves, and none is made after an exception. -/
theorem step_moves (h : s.step ev = some s') : s.main ≠ .thrown ∧ Moves s ev s' := by
  unfold step at h
  split at h
  · cases h
  · refine ⟨‹_›, ?_⟩
    split at h
    · exact moves_of_threadStep h
    · exact moves_of_threadStep h
    · exact moves_of_threadStep h
    · exact moves_of_iocStep h
    · exact moves_of_iocStep h
    · exact moves_of_iocStep h
    · exact moves_of_iocStep h
    · exact moves_of_mainStep h

end Listener

end JotaTranscriber
