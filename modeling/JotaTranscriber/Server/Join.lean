import JotaTranscriber.Server.Occupancy
import JotaTranscriber.Server.Shutdown

/-! # The end of the process

After the accept loop main starts a watchdog, joins the session threads one by
one, stops the `io_context`, joins its thread and disarms the watchdog, which
exits the process when its time is up before.
-/

namespace JotaTranscriber

open Transition

/-- Where main stands after the accept loop. -/
inductive JoinStage where
  /-- The watchdog is not started; main may not have left the loop. -/
  | unwatched
  /-- The session threads before the `k`-th one are joined. -/
  | joining (k : ℕ)
  /-- `ioc.stop()` was called. -/
  | stopped
  | iocJoined
  /-- `all_joined` is set: the shutdown is graceful. -/
  | complete
  /-- The watchdog could not be started, and the exception passes joinable threads. -/
  | thrown
  deriving DecidableEq, Repr

/-- Where the watchdog stands. -/
inductive Watchdog where
  | notStarted
  /-- Before it reads the clock for its deadline. -/
  | starting
  /-- Before it looks at `all_joined`. -/
  | polling (deadline : ℤ)
  /-- Before it compares the clock with its deadline. -/
  | comparing (deadline : ℤ)
  /-- It has called `std::exit`. -/
  | exited
  | returned
  deriving DecidableEq, Repr

structure Shutdown where
  process : Process
  timeoutSec : ℤ
  main : JoinStage := .unwatched
  watchdog : Watchdog := .notStarted
  /-- `ioc.run()` has returned because the context was stopped. -/
  iocReturned : Bool := false

inductive ShutdownEvent where
  | process (ev : ProcessEvent)
  /-- The watchdog is constructed, or an exception. -/
  | watch (started : Bool)
  /-- The join of the next session thread returns. -/
  | join
  | stop
  | iocReturn
  /-- `ioc_thread.join()` returns. -/
  | joinIoc
  | disarm
  | deadline (now : ℤ)
  | poll
  | compare (now : ℤ)

/-- The session threads that main has joined. -/
def JoinStage.hasJoined : JoinStage → ℕ → Prop
  | joining k, i => i < k
  | stopped, _ | iocJoined, _ | complete, _ => True
  | unwatched, _ | thrown, _ => False

/-- `ioc.stop()` was called. -/
def JoinStage.stopsIoc : JoinStage → Bool
  | stopped | iocJoined | complete => true
  | unwatched | joining _ | thrown => false

/-- `ioc_thread` is joined. -/
def JoinStage.joinsIoc : JoinStage → Bool
  | iocJoined | complete => true
  | unwatched | joining _ | stopped | thrown => false

namespace Shutdown

def init (config : ServerConfig) (sessionId : ℕ → Bytes) (start : ℕ → ℤ) : Shutdown where
  process := .init config sessionId start
  timeoutSec := config.shutdownTimeoutSec

/-- No thread takes a step any more. -/
def ended (e : Shutdown) : Bool :=
  e.process.server.terminated || decide (e.process.listener.main = .thrown) ||
    decide (e.main = .thrown) || decide (e.watchdog = .exited)

/-- `ioc_thread` can be joined. -/
def iocDone (e : Shutdown) : Bool :=
  e.iocReturned || decide (e.process.listener.ioc = .returned)

/-- A context that has returned runs no handler. -/
def allows (e : Shutdown) : ProcessEvent → Bool
  | .listener .iocRun | .listener .closeAcceptor => !e.iocReturned
  | _ => true

/-- A step of main. -/
def mainStep (e : Shutdown) (ev : ShutdownEvent) : Option Shutdown :=
  match e.main, ev with
  | .unwatched, .watch started =>
    if e.process.listener.main = .joining then
      some (if started then { e with main := .joining 0, watchdog := .starting }
        else { e with main := .thrown })
    else none
  | .joining k, .join =>
    if e.process.listener.sessionThreads[k]?.any (·.stage = .returned) then
      some { e with main := .joining (k + 1) }
    else none
  | .joining k, .stop =>
    if k = e.process.listener.sessionThreads.length then some { e with main := .stopped } else none
  | .stopped, .joinIoc => if e.iocDone then some { e with main := .iocJoined } else none
  | .iocJoined, .disarm => some { e with main := .complete }
  | _, _ => none

/-- A step of the watchdog, which sleeps for 100 ms after each comparison. -/
def watchdogStep (e : Shutdown) (ev : ShutdownEvent) : Option Shutdown :=
  match e.watchdog, ev with
  | .starting, .deadline now =>
    some { e with watchdog := .polling (now + e.timeoutSec * 1000000000) }
  | .polling deadline, .poll =>
    some { e with watchdog := if e.main = .complete then .returned else .comparing deadline }
  | .comparing deadline, .compare now =>
    some { e with watchdog := if deadline ≤ now then .exited else .polling deadline }
  | _, _ => none

/-- `ioc.run()` returns when the context is stopped, but not out of the signal handler. -/
def iocStep (e : Shutdown) : Option Shutdown :=
  if e.main.stopsIoc = true ∧ e.iocDone = false ∧ e.process.listener.ioc ≠ .handling then
    some { e with iocReturned := true }
  else none

def step (P : Platform) (e : Shutdown) (ev : ShutdownEvent) : Option Shutdown :=
  if e.ended then none
  else match ev with
  | .process ev =>
    if e.allows ev then (e.process.step P ev).map fun process => { e with process } else none
  | .iocReturn => e.iocStep
  | .deadline _ | .poll | .compare _ => e.watchdogStep ev
  | _ => e.mainStep ev

/-- All that one step can do. -/
inductive Moves (P : Platform) (e : Shutdown) : ShutdownEvent → Shutdown → Prop where

  | process {ev : ProcessEvent} {p' : Process} : e.allows ev = true →
      e.process.step P ev = some p' → Moves P e (.process ev) { e with process := p' }

  | watch : e.main = .unwatched → e.process.listener.main = .joining →
      Moves P e (.watch true) { e with main := .joining 0, watchdog := .starting }

  | watchFails : e.main = .unwatched → e.process.listener.main = .joining →
      Moves P e (.watch false) { e with main := .thrown }

  | join {k : ℕ} {t : SessionThread} : e.main = .joining k →
      e.process.listener.sessionThreads[k]? = some t → t.stage = .returned →
      Moves P e .join { e with main := .joining (k + 1) }

  | stop : e.main = .joining e.process.listener.sessionThreads.length →
      Moves P e .stop { e with main := .stopped }

  | iocReturn : e.main.stopsIoc = true → e.iocDone = false →
      e.process.listener.ioc ≠ .handling →
      Moves P e .iocReturn { e with iocReturned := true }

  | joinIoc : e.main = .stopped → e.iocDone = true →
      Moves P e .joinIoc { e with main := .iocJoined }

  | disarm : e.main = .iocJoined → Moves P e .disarm { e with main := .complete }

  | deadline (now : ℤ) : e.watchdog = .starting →
      Moves P e (.deadline now)
        { e with watchdog := .polling (now + e.timeoutSec * 1000000000) }

  | poll {deadline : ℤ} : e.watchdog = .polling deadline →
      Moves P e .poll
        { e with watchdog := if e.main = .complete then .returned else .comparing deadline }

  | compare {deadline : ℤ} (now : ℤ) : e.watchdog = .comparing deadline →
      Moves P e (.compare now)
        { e with watchdog := if deadline ≤ now then .exited else .polling deadline }

variable {P : Platform} {e e' : Shutdown} {ev : ShutdownEvent}
  {tr : List (Shutdown × ShutdownEvent)} {config : ServerConfig} {sessionId : ℕ → Bytes}
  {start : ℕ → ℤ}

theorem moves_of_mainStep (h : e.mainStep ev = some e') : Moves P e ev e' := by
  unfold mainStep at h
  split at h
  · rename_i started hm
    obtain ⟨hloop, ⟨⟩⟩ := Option.ite_none_right_eq_some.mp h
    cases started with
    | true => exact .watch hm hloop
    | false => exact .watchFails hm hloop
  · rename_i k hm
    obtain ⟨hany, ⟨⟩⟩ := Option.ite_none_right_eq_some.mp h
    obtain ⟨t, ht, hstage⟩ := (Option.any_eq_true _ _).mp hany
    exact .join hm ht (of_decide_eq_true hstage)
  · rename_i k hm
    obtain ⟨rfl, ⟨⟩⟩ := Option.ite_none_right_eq_some.mp h
    exact .stop hm
  · obtain ⟨hdone, ⟨⟩⟩ := Option.ite_none_right_eq_some.mp h
    exact .joinIoc ‹_› hdone
  · cases h
    exact .disarm ‹_›
  · cases h

theorem moves_of_watchdogStep (h : e.watchdogStep ev = some e') : Moves P e ev e' := by
  unfold watchdogStep at h
  split at h
  · cases h
    exact .deadline _ ‹_›
  · cases h
    exact .poll ‹_›
  · cases h
    exact .compare _ ‹_›
  · cases h

theorem step_moves (h : e.step P ev = some e') : e.ended = false ∧ Moves P e ev e' := by
  unfold step at h
  split at h
  · cases h
  · refine ⟨by simpa using ‹¬ e.ended = true›, ?_⟩
    split at h
    · obtain ⟨hallows, hmap⟩ := Option.ite_none_right_eq_some.mp h
      obtain ⟨p', hs, rfl⟩ := Option.map_eq_some_iff.mp hmap
      exact .process hallows hs
    · obtain ⟨⟨hstops, hdone, hquiet⟩, ⟨⟩⟩ := Option.ite_none_right_eq_some.mp h
      exact .iocReturn hstops hdone hquiet
    · exact moves_of_watchdogStep h
    · exact moves_of_watchdogStep h
    · exact moves_of_watchdogStep h
    · exact moves_of_mainStep h

def processEvent : ShutdownEvent → Option ProcessEvent
  | .process ev => some ev
  | _ => none

def processTrace : List (Shutdown × ShutdownEvent) → List (Process × ProcessEvent) :=
  project process fun _ => processEvent

/-- A run with the end of the process is a run of the process. -/
theorem run_process (hrun : Run (step P) (init config sessionId start) tr e) :
    Run (Process.step P) (.init config sessionId start) (processTrace tr) e.process := by
  have h₀ : Process.init config sessionId start = (init config sessionId start).process := rfl
  rw [h₀]
  refine hrun.project fun q _ q' hstep => ?_
  obtain ⟨q, ev⟩ := q
  cases (step_moves hstep).2 with
  | process _ hs => exact .inr ⟨_, rfl, hs⟩
  | _ => exact .inl ⟨rfl, rfl⟩

end Shutdown

/-! ## After the loop -/

namespace Listener

variable {s s' : Listener} {ev : ListenerEvent}

/-- No session starts after the loop. -/
theorem length_of_joining (hm : s.main = .joining) (hs : s.step ev = some s') :
    s'.sessionThreads.length = s.sessionThreads.length := by
  obtain ⟨-, hmoves⟩ := step_moves hs
  cases hmoves with
  | spawn clientIp hspawn =>
    rw [hm] at hspawn
    cases hspawn
  | _ => simp

theorem ioc_returned_of_step (h : s.ioc = .returned) (hs : s.step ev = some s') :
    s'.ioc = .returned := by
  obtain ⟨-, hmoves⟩ := step_moves hs
  cases hmoves with
  | iocRun hioc =>
    rw [h] at hioc
    cases hioc
  | closeAcceptor hioc _ =>
    rw [h] at hioc
    cases hioc
  | shutdownAll _ => rfl
  | _ => exact h

/-- Only the acceptor's close begins the handler. -/
theorem ioc_handling_of_step (h : s'.ioc = .handling) (hs : s.step ev = some s') :
    s.ioc = .handling ∨ ev = .closeAcceptor := by
  obtain ⟨-, hmoves⟩ := step_moves hs
  cases hmoves with
  | closeAcceptor _ _ => exact .inr rfl
  | iocRun _ =>
    dsimp only at h
    split at h <;> cases h
  | shutdownAll _ => cases h
  | _ => exact .inl h

end Listener

/-- An event of no session terminates nothing. -/
theorem Server.Moves.terminated_eq {ι : Type*} [DecidableEq ι] {P : Platform} {S S' : Server ι}
    {ev : ServerEvent ι} (h : Server.Moves P S ev S') (hev : ev.session = none) :
    S'.terminated = S.terminated := by
  cases h with
  | fire _ => rfl
  | _ => cases hev

namespace Shutdown

variable {P : Platform} {e e' : Shutdown} {ev : ShutdownEvent}
  {tr : List (Shutdown × ShutdownEvent)} {config : ServerConfig} {sessionId : ℕ → Bytes}
  {start : ℕ → ℤ}

/-- What main relies on where it stands. -/
structure Joined (e : Shutdown) : Prop where
  past : e.main ≠ .unwatched → e.process.listener.main = .joining
  le_length : ∀ k, e.main = .joining k → k ≤ e.process.listener.sessionThreads.length
  returned : ∀ i, e.main.hasJoined i → i < e.process.listener.sessionThreads.length →
    ∃ t, e.process.listener.sessionThreads[i]? = some t ∧ t.stage = .returned
  ioc : e.main.joinsIoc = true → e.iocDone = true
  quiet : e.iocReturned = true → e.process.listener.ioc ≠ .handling
  live : e.main = .complete → e.process.server.terminated = false

theorem joined_init : Joined (init config sessionId start) where
  past h := absurd rfl h
  le_length _ h := by cases h
  returned _ h := h.elim
  ioc h := by cases h
  quiet h := by cases h
  live h := by cases h

theorem hasJoined_ne {m : JoinStage} {i : ℕ} (h : m.hasJoined i) : m ≠ .unwatched := by
  rintro rfl
  exact h

/-- No session is left when main has got through. -/
theorem Joined.not_lives (h : Joined e) (hm : e.main = .complete) {i : ℕ} :
    ¬ e.process.Lives i := by
  rintro ⟨t, ht, hrunning⟩
  have hjoined : e.main.hasJoined i := by rw [hm]; trivial
  obtain ⟨t', ht', hreturned⟩ := h.returned i hjoined (List.getElem?_eq_some_iff.mp ht).1
  obtain rfl : t = t' := Option.some.inj (ht.symm.trans ht')
  rw [hrunning] at hreturned
  cases hreturned

/-- A step of the process leaves what main relies on. -/
theorem Joined.process {pev : ProcessEvent} {p' : Process} (h : Joined e)
    (hallows : e.allows pev = true) (hp : e.process.step P pev = some p') :
    Joined { e with process := p' } := by
  cases Process.step_moves hp with
  | @listener lev s' _ hl =>
    have hlength (hm : e.main ≠ .unwatched) : s'.sessionThreads.length = _ :=
      Listener.length_of_joining (h.past hm) hl
    refine ⟨fun hm => (Listener.step_joining_iff hl).mpr (.inl (h.past hm)), fun k hk => ?_,
      fun i hi hlt => ?_, fun hm => ?_, fun hioc hhandling => ?_, h.live⟩
    · have hne : e.main ≠ .unwatched := by rw [show e.main = _ from hk]; simp
      exact (h.le_length k hk).trans_eq (hlength hne).symm
    · obtain ⟨t, ht, hreturned⟩ := h.returned i hi (hlt.trans_eq (hlength (hasJoined_ne hi)))
      obtain ⟨t', ht', hstage⟩ := Listener.stage_of_step hl ht
      refine ⟨t', ht', ?_⟩
      rw [hreturned] at hstage
      rcases hstage with hsame | ⟨-, hstage⟩ | hstage | hstage
      · exact hsame
      all_goals cases hstage
    · have hdone := h.ioc hm
      simp only [iocDone, Bool.or_eq_true, decide_eq_true_eq] at hdone ⊢
      exact hdone.imp id fun hreturned => Listener.ioc_returned_of_step hreturned hl
    · rcases Listener.ioc_handling_of_step hhandling hl with hbefore | rfl
      · exact h.quiet hioc hbefore
      · have hnot : e.iocReturned = false := by simpa [allows] using hallows
        rw [show e.iocReturned = _ from hioc] at hnot
        cases hnot
  | @server sev S' hlives hserver =>
    refine ⟨h.past, h.le_length, h.returned, h.ioc, h.quiet, fun hm => ?_⟩
    have hsession : sev.session = none :=
      Option.eq_none_iff_forall_ne_some.mpr fun i hi => h.not_lives hm (hlives i hi)
    rw [(Server.step_moves hserver).2.terminated_eq hsession]
    exact h.live hm

theorem Joined.step (h : Joined e) (hs : e.step P ev = some e') : Joined e' := by
  obtain ⟨hended, hmoves⟩ := step_moves hs
  cases hmoves with
  | process hallows hp => exact h.process hallows hp
  | watch _ hloop =>
    exact ⟨fun _ => hloop, by rintro _ ⟨⟩; exact Nat.zero_le _,
      fun i hi => absurd hi (Nat.not_lt_zero i), by rintro ⟨⟩, h.quiet, by rintro ⟨⟩⟩
  | watchFails _ hloop =>
    exact ⟨fun _ => hloop, by rintro _ ⟨⟩, fun _ hi => hi.elim, by rintro ⟨⟩, h.quiet,
      by rintro ⟨⟩⟩
  | @join k t hm ht hstage =>
    have hlt := (List.getElem?_eq_some_iff.mp ht).1
    refine ⟨fun _ => h.past (by rw [hm]; simp), by rintro _ ⟨⟩; exact hlt, fun i hi hi' => ?_,
      by rintro ⟨⟩, h.quiet, by rintro ⟨⟩⟩
    rcases Nat.lt_succ_iff_lt_or_eq.mp hi with hbefore | rfl
    · exact h.returned i (by rw [hm]; exact hbefore) hi'
    · exact ⟨t, ht, hstage⟩
  | stop hm =>
    exact ⟨fun _ => h.past (by rw [hm]; simp), by rintro _ ⟨⟩,
      fun i _ hlt => h.returned i (by rw [hm]; exact hlt) hlt, by rintro ⟨⟩, h.quiet,
      by rintro ⟨⟩⟩
  | iocReturn _ _ hquiet =>
    exact ⟨h.past, h.le_length, h.returned, fun _ => rfl, fun _ => hquiet, h.live⟩
  | joinIoc hm hdone =>
    exact ⟨fun _ => h.past (by rw [hm]; simp), by rintro _ ⟨⟩,
      fun i _ => h.returned i (by rw [hm]; trivial), fun _ => hdone, h.quiet, by rintro ⟨⟩⟩
  | disarm hm =>
    refine ⟨fun _ => h.past (by rw [hm]; simp), by rintro _ ⟨⟩,
      fun i _ => h.returned i (by rw [hm]; trivial), fun _ => h.ioc (by rw [hm]; rfl), h.quiet,
      fun _ => ?_⟩
    simp only [ended, Bool.or_eq_false_iff] at hended
    exact hended.1.1.1
  | deadline _ _ => exact ⟨h.past, h.le_length, h.returned, h.ioc, h.quiet, h.live⟩
  | poll _ => exact ⟨h.past, h.le_length, h.returned, h.ioc, h.quiet, h.live⟩
  | compare _ _ => exact ⟨h.past, h.le_length, h.returned, h.ioc, h.quiet, h.live⟩

theorem joined_of_run (hrun : Run (step P) (init config sessionId start) tr e) : Joined e :=
  hrun.invariant joined_init fun _ _ _ h hs => h.step hs

end Shutdown

end JotaTranscriber
