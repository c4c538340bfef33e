import JotaTranscriber.Server.Restrict
import JotaTranscriber.Server.ServerConfig
import JotaTranscriber.Server.Slots

/-! # The process

The accept loop starts a thread for each connection, and the session of a
connection lives in that thread: it takes steps from its construction to its
destruction, which waits until its destructor is through. An exception that
leaves main or a flush thread ends the whole process. Every run of the process
is a run of the accept loop, and a run of the sessions on the cache and the
limiter that they share.
-/

namespace JotaTranscriber

open Transition

/-- What `handleSession` hands to a session. -/
def ServerConfig.sessionParams (config : ServerConfig) (sessionId : Bytes) : SessionParams where
  modelPath := config.modelPath
  sessionId
  authEnabled := config.authApiUrl ≠ [] || config.authToken ≠ []
  whisperBeamSize := config.whisperBeamSize
  whisperThreads := config.whisperThreads
  whisperInitialPrompt := config.whisperInitialPrompt
  whisperTemperature := config.whisperTemperature
  whisperTemperatureInc := config.whisperTemperatureInc
  whisperNoSpeechThold := config.whisperNoSpeechThold
  whisperLogprobThold := config.whisperLogprobThold

/-- The session of the `i`-th session thread is the `i`-th of the server. -/
structure Process where
  listener : Listener
  server : Server ℕ

inductive ProcessEvent where
  | listener (ev : ListenerEvent)
  | server (ev : ServerEvent ℕ)

namespace Process

/-- Main, before the accept loop; the sessions get an id and read the clock when they are
constructed. -/
def init (config : ServerConfig) (sessionId : ℕ → Bytes) (start : ℕ → ℤ) : Process where
  listener := .init config.maxConnections.toNat config.maxConnectionsPerIp.toNat
  server := .init (fun i => config.sessionParams (sessionId i)) start config.modelCacheTtl
    config.maxConcurrentInference

/-- The session is constructed and not destroyed. -/
def Lives (p : Process) (i : ℕ) : Prop :=
  ∃ t, p.listener.sessionThreads[i]? = some t ∧ t.stage = .running

instance (p : Process) (i : ℕ) : Decidable (p.Lives i) :=
  match h : p.listener.sessionThreads[i]? with
  | some t => decidable_of_iff (t.stage = .running) (by simp [Lives, h])
  | none => isFalse (by simp [Lives, h])

/-- A session is destroyed when its destructor has released the model. -/
def Allows (p : Process) : ListenerEvent → Prop
  | .destroy i => (p.server.sessions i).receiver = .destroyed
  | _ => True

instance (p : Process) : (ev : ListenerEvent) → Decidable (p.Allows ev)
  | .destroy i => inferInstanceAs (Decidable ((p.server.sessions i).receiver = .destroyed))
  | .asyncWait | .isOpen | .accept _ | .remoteEndpoint _ | .close _ | .spawn _ | .iocRun
  | .signal | .closeAcceptor | .shutdownAll | .construct _ | .finish _ => isTrue trivial

def step (P : Platform) (p : Process) : ProcessEvent → Option Process
  | .listener ev =>
    if p.server.terminated = false ∧ p.Allows ev then
      (p.listener.step ev).map fun listener => { p with listener }
    else none
  | .server ev =>
    if p.listener.main ≠ .thrown ∧ ev.session.all fun i => decide (p.Lives i) then
      (p.server.step P ev).map fun server => { p with server }
    else none

variable {P : Platform} {p p' : Process} {ev : ProcessEvent} {tr : List (Process × ProcessEvent)}
  {config : ServerConfig} {sessionId : ℕ → Bytes} {start : ℕ → ℤ}

/-- All that one step can do. -/
inductive Moves (P : Platform) (p : Process) : ProcessEvent → Process → Prop where

  | listener {ev : ListenerEvent} {s' : Listener} : p.Allows ev → p.listener.step ev = some s' →
      Moves P p (.listener ev) { p with listener := s' }

  | server {ev : ServerEvent ℕ} {S' : Server ℕ} : (∀ i, ev.session = some i → p.Lives i) →
      p.server.step P ev = some S' → Moves P p (.server ev) { p with server := S' }

theorem step_moves (h : p.step P ev = some p') : Moves P p ev p' := by
  cases ev with
  | listener ev =>
    obtain ⟨⟨-, hallows⟩, hmap⟩ := Option.ite_none_right_eq_some.mp h
    obtain ⟨s', hs, rfl⟩ := Option.map_eq_some_iff.mp hmap
    exact .listener hallows hs
  | server ev =>
    obtain ⟨⟨-, hlives⟩, hmap⟩ := Option.ite_none_right_eq_some.mp h
    obtain ⟨S', hs, rfl⟩ := Option.map_eq_some_iff.mp hmap
    refine .server (fun i hi => ?_) hs
    simpa [hi] using hlives

/-! ## Its two parts -/

def listenerEvent : ProcessEvent → Option ListenerEvent
  | .listener ev => some ev
  | .server _ => none

def serverEvent : ProcessEvent → Option (ServerEvent ℕ)
  | .listener _ => none
  | .server ev => some ev

def listenerTrace : List (Process × ProcessEvent) → List (Listener × ListenerEvent) :=
  project listener fun _ => listenerEvent

def serverTrace : List (Process × ProcessEvent) → List (Server ℕ × ServerEvent ℕ) :=
  project server fun _ => serverEvent

/-- A run of the process is a run of the accept loop. -/
theorem run_listener (hrun : Run (step P) (init config sessionId start) tr p) :
    Run Listener.step (init config sessionId start).listener (listenerTrace tr) p.listener := by
  refine hrun.project fun q _ q' hstep => ?_
  obtain ⟨q, ev⟩ := q
  cases step_moves hstep with
  | listener _ hs => exact .inr ⟨_, rfl, hs⟩
  | server _ _ => exact .inl ⟨rfl, rfl⟩

/-- A run of the process is a run of the sessions. -/
theorem run_server (hrun : Run (step P) (init config sessionId start) tr p) :
    Run (Server.step P) (init config sessionId start).server (serverTrace tr) p.server := by
  refine hrun.project fun q _ q' hstep => ?_
  obtain ⟨q, ev⟩ := q
  cases step_moves hstep with
  | listener _ _ => exact .inl ⟨rfl, rfl⟩
  | server _ hs => exact .inr ⟨_, rfl, hs⟩

end Process

end JotaTranscriber
