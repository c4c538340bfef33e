import Mathlib.Data.Fintype.Sum
import Mathlib.Tactic.DeriveFintype
import JotaTranscriber.Locking.Order

/-! # The locks of the server

What each function of the server does with mutexes and threads, on any path
through it: a branch is a choice, a loop takes any number of turns, and a call
of a library that may throw may raise. The mutexes have an order which every
function keeps, so no set of threads of the server waits for one another.
-/

namespace JotaTranscriber.LockOrder

open Locking Locking.Cmd Transition

/-- The mutexes of a server with `n` sessions. -/
inductive ServerMutex (n : ℕ) where
  /-- `ConnectionLimiter::mutex_`. -/
  | connections
  | tracker
  | cache
  | inference
  | authCache
  | log
  | state (i : Fin n)
  | write (i : Fin n)
  /-- `buffer_mutex_` of the engine of a session. -/
  | buffer (i : Fin n)
  deriving DecidableEq

inductive ServerThread (n : ℕ) where
  | main
  | ioc
  | watchdog
  | session (i : Fin n)
  | flush (i : Fin n)
  /-- The unload timer armed when a session releases the model. -/
  | timer (i : Fin n)
  deriving DecidableEq, Fintype

abbrev ServerCmd (n : ℕ) := Cmd (ServerMutex n) (ServerThread n)

variable {n : ℕ}

/-! ## Functions with a mutex of their own -/

def log : ServerCmd n := .locked .log .skip

def connectionTryAcquire : ServerCmd n := .locked .connections .skip
def connectionRelease : ServerCmd n := .locked .connections .skip
def connectionMetrics : ServerCmd n := .locked .connections .skip

def setMaxConcurrency : ServerCmd n := .locked .inference .skip
def inferenceTryAcquire : ServerCmd n := .locked .inference .skip
def inferenceRelease : ServerCmd n := .locked .inference .skip
def inferenceMetrics : ServerCmd n := .locked .inference .skip
def hasCapacity : ServerCmd n := .locked .inference .skip

def trackerAdd : ServerCmd n := .locked .tracker .skip
def trackerRemove : ServerCmd n := .locked .tracker .skip

/-- `shutdown` cancels the socket of a session, without a lock. -/
def shutdownAll : ServerCmd n := .locked .tracker (.loop .skip)

def cacheConfigure : ServerCmd n := .locked .cache .skip
def cacheAcquire : ServerCmd n := .locked .cache .mayRaise
def cacheRelease (i : Fin n) : ServerCmd n := .locked .cache (.perhaps (.start (.timer i)))
def cacheMetrics : ServerCmd n := .locked .cache .skip

/-- A timer thread, after its sleep. -/
def unloadTimer : ServerCmd n := .locked .cache .skip

/-! ## Authentication -/

def authCacheGet : ServerCmd n := .locked .authCache .skip
def authCachePut : ServerCmd n := .locked .authCache .skip

/-- `ApiAuthClient::validate`. -/
def apiValidate : ServerCmd n :=
  .choose log (.block [log,
    .handled
      (.block [.mayRaise, log,
        -- 401 or 403, 200, or any other status
        .choose log (.choose (.handled (.block [.mayRaise, log]) log) log)])
      log])

/-- `AuthManager::validate`. -/
def authValidate : ServerCmd n :=
  .choose .skip (.choose log (.block [authCacheGet,
    .choose log (.block [log, apiValidate, .choose log (.block [log, authCachePut])])]))

/-! ## The engine -/

def newEngine : ServerCmd n := .block [.mayRaise, log]

/-- `StreamingWhisperEngine::processAudioChunk`. -/
def engineProcessAudioChunk (i : Fin n) : ServerCmd n := .locked (.buffer i) .skip

def getBufferSize (i : Fin n) : ServerCmd n := .locked (.buffer i) .skip

def transcribeSlidingWindow (i : Fin n) : ServerCmd n :=
  .locked (.buffer i) (.perhaps (.block [.mayRaise, .perhaps log, .perhaps log]))

/-! ## A session -/

def sendMessage (i : Fin n) : ServerCmd n :=
  .handled (.block [.mayRaise, .locked (.write i) .mayRaise]) log

def sendError (i : Fin n) : ServerCmd n := sendMessage i
def sendReady (i : Fin n) : ServerCmd n := sendMessage i

def releaseModel (i : Fin n) : ServerCmd n :=
  .locked (.state i) (.perhaps (.block [cacheRelease i, log]))

/-- `StreamingSession::processAudioChunk`. -/
def processAudioChunk (i : Fin n) : ServerCmd n :=
  .block [.locked (.state i) (.perhaps (engineProcessAudioChunk i)),
    .perhaps (.block [log, sendMessage i])]

def handleBinaryMessage (i : Fin n) : ServerCmd n :=
  .choose log (.choose (.block [log, sendError i])
    (.handled (.block [.mayRaise, processAudioChunk i]) (.block [log, sendError i])))

/-- `handleConfig` after the authentication. -/
def configure (i : Fin n) : ServerCmd n :=
  .block [.mayRaise, log, cacheAcquire, .locked (.state i) newEngine, log, sendReady i]

/-- A refusal of the authentication; `ws_.close` may throw. -/
def refuse (i : Fin n) : ServerCmd n := .block [log, sendError i, .mayRaise]

def handleConfig (i : Fin n) : ServerCmd n :=
  .block [log, .handled
    (.choose (configure i) (.choose (refuse i)
      (.block [log, authValidate, .choose (refuse i) (.block [log, configure i])])))
    (.block [log, sendError i])]

def handleEnd (i : Fin n) : ServerCmd n :=
  .block [log,
    .locked (.state i) (.block [.perhaps (transcribeSlidingWindow i), .perhaps log]),
    log, sendMessage i, .handled (.block [.mayRaise, log]) log]

def handleJsonMessage (i : Fin n) : ServerCmd n :=
  .choose (.block [log, sendError i]) (.block [.mayRaise, log,
    .choose (handleConfig i) (.choose (handleEnd i) (.block [log, sendError i]))])

/-- The loop is left by an exception only. -/
def run (i : Fin n) : ServerCmd n :=
  .block [
    .handled
      (.block [.mayRaise, log, .mayRaise, .start (.flush i),
        .loop (.block [.mayRaise, .choose (handleJsonMessage i) (handleBinaryMessage i)]), .raise])
      log,
    releaseModel i]

def newSession : ServerCmd n := .block [log, trackerAdd]

def destroySession (i : Fin n) : ServerCmd n :=
  .block [.join (.flush i), trackerRemove, releaseModel i]

/-- A flush cycle under `state_mutex_`. -/
def flushCycle (i : Fin n) : ServerCmd n :=
  .perhaps (.block [getBufferSize i, .perhaps (.block [log, inferenceTryAcquire,
    .choose log (.block [transcribeSlidingWindow i, inferenceRelease, .perhaps (getBufferSize i),
      .perhaps log, .perhaps (getBufferSize i), .perhaps log])])])

/-- A cycle that has a message unlocks to send it, and locks again until its turn ends. -/
def flushLoop (i : Fin n) : ServerCmd n :=
  .loop (.block [.tryLocked (.state i) (flushCycle i),
    .perhaps (.block [sendMessage i, .locked (.state i) .skip])])

/-! ## The process -/

/-- `/metrics`, `/health` and `/ready`. -/
def handleHttpRequest : ServerCmd n :=
  .choose (.block [inferenceMetrics, cacheMetrics, connectionMetrics, .mayRaise])
    (.choose .mayRaise (.block [hasCapacity, .mayRaise]))

def handleSession (i : Fin n) : ServerCmd n :=
  .block [
    .handled
      (.block [.mayRaise, .choose handleHttpRequest
        (.block [newSession, run i, destroySession i])])
      log,
    connectionRelease]

/-- The work of `ioc_thread`, if a signal comes. -/
def iocRun : ServerCmd n := .perhaps (.block [log, shutdownAll])

def watchdog : ServerCmd n := .block [.loop .skip, .perhaps (.block [log, .exit])]

/-- A turn of the accept loop that starts no thread. An exception of `remote_endpoint` or `close`
passes joinable threads, which ends the process. -/
def refusedTurn : ServerCmd n :=
  .choose log (.block [.perhaps .exit, connectionTryAcquire,
    .choose (.block [log, .perhaps .exit]) (.block [log, connectionRelease, log])])

/-- The sessions are started one after the other. -/
def acceptLoop : List (Fin n) → ServerCmd n
  | [] => .loop refusedTurn
  | i :: is =>
    .block [.loop refusedTurn, .perhaps (.block [.perhaps .exit, connectionTryAcquire, log,
      .start (.session i), acceptLoop is])]

def main : ServerCmd n :=
  .block [
    .loop log, cacheConfigure, setMaxConcurrency,
    -- the TLS context or the acceptor cannot be made
    .perhaps (.block [log, .exit]),
    .loop log, .start .ioc, acceptLoop (List.finRange n), log, .start .watchdog,
    .block ((List.finRange n).map fun i => .join (.session i)), .join .ioc, log, .exit]

def program : ServerThread n → ServerCmd n
  | .main => main
  | .ioc => iocRun
  | .watchdog => watchdog
  | .session i => handleSession i
  | .flush i => flushLoop i
  | .timer _ => unloadTimer

/-! ## The order -/

def rank : ServerMutex n → ℕ
  | .connections | .tracker | .state _ | .write _ => 3
  | .cache | .inference | .authCache | .buffer _ => 4
  | .log => 5

/-- Main joins the sessions and `ioc_thread`, and a session its flush thread. -/
def floor : ServerThread n → ℕ
  | .main => 0
  | .ioc | .session _ => 1
  | .watchdog | .flush _ | .timer _ => 2

/-- The command takes its locks upwards, all of them above the rank `k`. -/
abbrev Upwards (k : ℕ) (c : ServerCmd n) : Prop := c.Ordered rank floor k

variable {k : ℕ} {i : Fin n}

/-- A section that takes no other lock. -/
theorem upwards_section {l : ServerMutex n} (h : k < rank l) :
    Upwards k (.locked l .skip) := ⟨h, trivial⟩

theorem upwards_log (h : k < 5) : Upwards k (log : ServerCmd n) := upwards_section h

theorem upwards_apiValidate : Upwards 4 (apiValidate : ServerCmd n) := by
  have hlog : Upwards 4 (log : ServerCmd n) := upwards_log (by decide)
  simp [apiValidate, Cmd.Ordered, hlog]

theorem upwards_authValidate : Upwards 3 (authValidate : ServerCmd n) := by
  have hlog : Upwards 3 (log : ServerCmd n) := upwards_log (by decide)
  have hapi : Upwards 3 (apiValidate : ServerCmd n) := upwards_apiValidate.mono (by decide)
  have hget : Upwards 3 (authCacheGet : ServerCmd n) := upwards_section (by simp [rank])
  have hput : Upwards 3 (authCachePut : ServerCmd n) := upwards_section (by simp [rank])
  simp [authValidate, Cmd.Ordered, hlog, hapi, hget, hput]

theorem upwards_transcribeSlidingWindow : Upwards 3 (transcribeSlidingWindow i) := by
  have hlog : Upwards 4 (log : ServerCmd n) := upwards_log (by decide)
  refine ⟨by simp [rank], ?_⟩
  simp [hlog, rank]

theorem upwards_sendMessage : Upwards 2 (sendMessage i) := by
  have hlog : Upwards 2 (log : ServerCmd n) := upwards_log (by decide)
  simp [sendMessage, Cmd.Ordered, hlog, rank]

theorem upwards_releaseModel : Upwards 2 (releaseModel i) := by
  have hlog : Upwards 3 (log : ServerCmd n) := upwards_log (by decide)
  have hrelease : Upwards 3 (cacheRelease i) := ⟨by simp [rank], by simp [Cmd.Ordered]⟩
  refine ⟨by simp [rank], ?_⟩
  simp [hlog, hrelease, rank]

theorem upwards_processAudioChunk : Upwards 2 (processAudioChunk i) := by
  have hlog : Upwards 2 (log : ServerCmd n) := upwards_log (by decide)
  have hengine : Upwards 3 (engineProcessAudioChunk i) := upwards_section (show 3 < 4 by decide)
  simp [processAudioChunk, Cmd.Ordered, hlog, hengine, upwards_sendMessage, rank]

theorem upwards_handleBinaryMessage : Upwards 2 (handleBinaryMessage i) := by
  have hlog : Upwards 2 (log : ServerCmd n) := upwards_log (by decide)
  have hsend : Upwards 2 (sendError i) := upwards_sendMessage
  simp [handleBinaryMessage, Cmd.Ordered, hlog, hsend, upwards_processAudioChunk]

theorem upwards_configure : Upwards 2 (configure i) := by
  have hlog : Upwards 2 (log : ServerCmd n) := upwards_log (by decide)
  have hengine : Upwards 3 (newEngine : ServerCmd n) := by
    simp [newEngine, upwards_log]
  have hsend : Upwards 2 (sendReady i) := upwards_sendMessage
  have hacquire : Upwards 2 (cacheAcquire : ServerCmd n) := ⟨by simp [rank], by simp⟩
  simp [configure, Cmd.Ordered, hlog, hengine, hsend, hacquire, rank]

theorem upwards_handleConfig : Upwards 2 (handleConfig i) := by
  have hlog : Upwards 2 (log : ServerCmd n) := upwards_log (by decide)
  have hsend : Upwards 2 (sendError i) := upwards_sendMessage
  have hrefuse : Upwards 2 (refuse i) := by simp [refuse, hlog, hsend]
  have hauth : Upwards 2 (authValidate : ServerCmd n) := upwards_authValidate.mono (by decide)
  simp [handleConfig, Cmd.Ordered, hlog, hsend, hrefuse, hauth, upwards_configure]

theorem upwards_handleEnd : Upwards 2 (handleEnd i) := by
  have hlog : Upwards 2 (log : ServerCmd n) := upwards_log (by decide)
  have hlog' : Upwards 3 (log : ServerCmd n) := upwards_log (by decide)
  simp [handleEnd, Cmd.Ordered, hlog, hlog', upwards_sendMessage, upwards_transcribeSlidingWindow,
    rank]

theorem upwards_handleJsonMessage : Upwards 2 (handleJsonMessage i) := by
  have hlog : Upwards 2 (log : ServerCmd n) := upwards_log (by decide)
  have hsend : Upwards 2 (sendError i) := upwards_sendMessage
  simp [handleJsonMessage, Cmd.Ordered, hlog, hsend, upwards_handleConfig, upwards_handleEnd]

theorem upwards_run : Upwards 2 (run i) := by
  have hlog : Upwards 2 (log : ServerCmd n) := upwards_log (by decide)
  simp [run, Cmd.Ordered, hlog, upwards_handleJsonMessage, upwards_handleBinaryMessage,
    upwards_releaseModel]

theorem upwards_destroySession : Upwards 1 (destroySession i) := by
  have hjoin : Upwards 1 (.join (.flush i)) := show 1 < 2 by decide
  have hremove : Upwards 1 (trackerRemove : ServerCmd n) := upwards_section (by simp [rank])
  have hrelease : Upwards 1 (releaseModel i) := upwards_releaseModel.mono (by decide)
  simp [destroySession, hjoin, hremove, hrelease]

theorem upwards_handleSession : Upwards 1 (handleSession i) := by
  have hlog : Upwards 1 (log : ServerCmd n) := upwards_log (by decide)
  have hhttp : Upwards 1 (handleHttpRequest : ServerCmd n) := by
    simp [handleHttpRequest, Cmd.Ordered, inferenceMetrics, cacheMetrics, connectionMetrics,
      hasCapacity, rank]
  have hnew : Upwards 1 (newSession : ServerCmd n) := by
    simp [newSession, hlog, trackerAdd, Cmd.Ordered, rank]
  have hrun : Upwards 1 (run i) := upwards_run.mono (by decide)
  have hconnection : Upwards 1 (connectionRelease : ServerCmd n) := upwards_section (by simp [rank])
  simp [handleSession, Cmd.Ordered, hlog, hhttp, hnew, hrun, hconnection, upwards_destroySession]

theorem upwards_flushLoop : Upwards 2 (flushLoop i) := by
  have hlog : Upwards 3 (log : ServerCmd n) := upwards_log (by decide)
  have hcycle : Upwards 3 (flushCycle i) := by
    simp [flushCycle, Cmd.Ordered, hlog, getBufferSize, inferenceTryAcquire, inferenceRelease,
      upwards_transcribeSlidingWindow, rank]
  simp [flushLoop, Cmd.Ordered, hcycle, upwards_sendMessage, rank]

theorem upwards_acceptLoop (is : List (Fin n)) : Upwards 0 (acceptLoop is) := by
  have hlog : Upwards 0 (log : ServerCmd n) := upwards_log (by decide)
  have hacquire : Upwards 0 (connectionTryAcquire : ServerCmd n) := upwards_section (by simp [rank])
  have hrelease : Upwards 0 (connectionRelease : ServerCmd n) := upwards_section (by simp [rank])
  have hturn : Upwards 0 (refusedTurn : ServerCmd n) := by
    simp [refusedTurn, Cmd.Ordered, hlog, hacquire, hrelease]
  induction is with
  | nil => exact hturn
  | cons i is ih => simp [acceptLoop, Cmd.Ordered, hlog, hacquire, hturn, ih]

theorem upwards_main : Upwards 0 (main : ServerCmd n) := by
  have hlog : Upwards 0 (log : ServerCmd n) := upwards_log (by decide)
  have hconfigure : Upwards 0 (cacheConfigure : ServerCmd n) := upwards_section (by simp [rank])
  have hset : Upwards 0 (setMaxConcurrency : ServerCmd n) := upwards_section (by simp [rank])
  simp [main, Cmd.Ordered, hlog, hconfigure, hset, upwards_acceptLoop, floor]

/-- Every thread keeps to the order. -/
theorem upwards_program (t : ServerThread n) : Upwards (floor t) (program t) := by
  cases t with
  | main => exact upwards_main
  | ioc =>
    have hlog : Upwards 1 (log : ServerCmd n) := upwards_log (by decide)
    simp [program, iocRun, shutdownAll, Cmd.Ordered, hlog, rank, floor]
  | watchdog =>
    have hlog : Upwards 2 (log : ServerCmd n) := upwards_log (by decide)
    simp [program, watchdog, Cmd.Ordered, hlog, floor]
  | session i => exact upwards_handleSession
  | flush i => exact upwards_flushLoop
  | timer i => exact upwards_section (by simp [rank, floor])

/-- In every state of a run every mutex has at most one holder, and every thread that has not ended
can make a step or waits, through a chain of threads, for one that can. -/
theorem no_deadlock {S : ServerThread n → Thread (ServerMutex n) (ServerThread n)}
    {tr : List ((ServerThread n → Thread (ServerMutex n) (ServerThread n)) ×
      (ServerThread n × Bool))}
    (hrun : Run step (init program .main) tr S) (hlive : ¬ Ended S) :
    Exclusive S ∧ ∀ t, (S t).started = true → ¬ (S t).Finished →
      ∃ u, Relation.ReflTransGen (WaitsFor S) t u ∧ CanStep S u :=
  ⟨exclusive_of_run hrun, fun _ hs hnot =>
    exists_canStep (orderly_of_run upwards_program hrun) hlive hs hnot⟩

end JotaTranscriber.LockOrder

namespace JotaTranscriber.Demo

open LockOrder Locking Transition

/-- Main has ended its loop without a connection, and joins `ioc_thread`. -/
def mainJoins : List (ServerThread 1 × Bool) := List.replicate 35 (.main, false)

theorem main_waits_for_ioc : ∃ tr S, exec step (init program .main) mainJoins = some (tr, S) ∧
    WaitsFor S .main .ioc ∧
      ∃ u, Relation.ReflTransGen (WaitsFor S) .main u ∧ CanStep S u := by
  obtain ⟨tr, S, hexec, hlive, hstarted, hrunning, hwait⟩ : ∃ tr S,
      exec step (init program .main) mainJoins = some (tr, S) ∧ ¬ Ended S ∧
        (S .main).started = true ∧ ¬ (S .main).Finished ∧ WaitsFor S .main .ioc :=
    ⟨_, _, rfl, by decide, rfl, by decide, .join rfl rfl rfl (by decide)⟩
  exact ⟨tr, S, hexec, hwait, (no_deadlock (Run.of_exec hexec) hlive).2 .main hstarted hrunning⟩

end JotaTranscriber.Demo
