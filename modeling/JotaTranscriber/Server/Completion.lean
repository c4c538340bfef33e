import JotaTranscriber.Server.Join
import JotaTranscriber.Transition.Measure

/-! # The two ways out

Main gets through only when nothing is held any more, and waits for nothing but
a session thread; the watchdog exits only when its time is up.
-/

namespace JotaTranscriber

open Transition

namespace Shutdown

variable {P : Platform} {e e' : Shutdown} {ev : ShutdownEvent}
  {tr : List (Shutdown × ShutdownEvent)} {config : ServerConfig} {sessionId : ℕ → Bytes}
  {start : ℕ → ℤ}

/-! ## The watchdog -/

/-- The deadline was computed from a clock reading of the run. -/
def DeadlineSet (timeoutSec : ℤ) (tr : List (Shutdown × ShutdownEvent)) (deadline : ℤ) : Prop :=
  ∃ now₀, (∃ q ∈ tr, q.2 = .deadline now₀) ∧ deadline = now₀ + timeoutSec * 1000000000

/-- The deadline had passed at a later reading. -/
def DeadlinePassed (timeoutSec : ℤ) (tr : List (Shutdown × ShutdownEvent)) : Prop :=
  ∃ tr₁ e now tr₂ deadline, tr = tr₁ ++ (e, .compare now) :: tr₂ ∧
    DeadlineSet timeoutSec tr₁ deadline ∧ deadline ≤ now

/-- What the run has read from the clock. -/
def Timed (timeoutSec : ℤ) (tr : List (Shutdown × ShutdownEvent)) : Watchdog → Prop
  | .polling deadline | .comparing deadline => DeadlineSet timeoutSec tr deadline
  | .exited => DeadlinePassed timeoutSec tr
  | .notStarted | .starting | .returned => True

theorem DeadlineSet.append {timeoutSec deadline : ℤ} {tr' : List (Shutdown × ShutdownEvent)}
    (h : DeadlineSet timeoutSec tr deadline) : DeadlineSet timeoutSec (tr ++ tr') deadline := by
  obtain ⟨now₀, ⟨q, hq, hev⟩, hdeadline⟩ := h
  exact ⟨now₀, ⟨q, List.mem_append_left _ hq, hev⟩, hdeadline⟩

theorem Timed.append {timeoutSec : ℤ} {w : Watchdog} {tr' : List (Shutdown × ShutdownEvent)}
    (h : Timed timeoutSec tr w) : Timed timeoutSec (tr ++ tr') w := by
  cases w with
  | polling deadline => exact DeadlineSet.append h
  | comparing deadline => exact DeadlineSet.append h
  | exited =>
    obtain ⟨tr₁, e, now, tr₂, deadline, rfl, hset, hle⟩ := h
    exact ⟨tr₁, e, now, tr₂ ++ tr', deadline, by simp, hset, hle⟩
  | _ => trivial

theorem timed_of_run (hrun : Run (step P) (init config sessionId start) tr e) :
    e.timeoutSec = config.shutdownTimeoutSec ∧
      Timed config.shutdownTimeoutSec tr e.watchdog := by
  induction hrun with
  | nil => exact ⟨rfl, trivial⟩
  | @snoc tr e _ ev _ hs ih =>
    obtain ⟨htimeout, htimed⟩ := ih
    cases (step_moves hs).2 with
    | watch _ _ => exact ⟨htimeout, trivial⟩
    | deadline now _ =>
      refine ⟨htimeout, now, ⟨(e, .deadline now), by simp, rfl⟩, ?_⟩
      rw [htimeout]
    | @poll deadline hw =>
      rw [hw] at htimed
      refine ⟨htimeout, ?_⟩
      dsimp only
      split
      · trivial
      · exact DeadlineSet.append htimed
    | @compare deadline now hw =>
      rw [hw] at htimed
      refine ⟨htimeout, ?_⟩
      dsimp only
      split
      · rename_i hle
        exact ⟨tr, e, now, [], deadline, rfl, htimed, hle⟩
      · exact DeadlineSet.append htimed
    | _ => exact ⟨htimeout, htimed.append⟩

/-! ## The way through -/

/-- The steps of main after the loop, and of `ioc_thread`. -/
def closes : ShutdownEvent → Bool
  | .watch _ | .join | .stop | .joinIoc | .disarm | .iocReturn => true
  | .process (.listener ev) =>
    match ev with
    | .iocRun | .closeAcceptor | .shutdownAll => true
    | _ => false
  | .process (.server _) | .deadline _ | .poll | .compare _ => false

/-- The steps that are left to main, with `n` session threads. -/
def mainRemaining (n : ℕ) : JoinStage → ℕ
  | .unwatched => n + 4
  | .joining k => n - k + 3
  | .stopped => 2
  | .iocJoined => 1
  | .complete | .thrown => 0

/-- The steps that are left to `ioc_thread`. -/
def iocRemaining (iocReturned : Bool) (ioc : IoContext) : ℕ :=
  if iocReturned then 0
  else match ioc with
  | .notStarted => 3
  | .running => 2
  | .handling => 1
  | .returned => 0

def remaining (e : Shutdown) : ℕ :=
  mainRemaining e.process.listener.sessionThreads.length e.main +
    iocRemaining e.iocReturned e.process.listener.ioc

theorem remaining_le (e : Shutdown) :
    e.remaining ≤ e.process.listener.sessionThreads.length + 7 := by
  have hmain : mainRemaining e.process.listener.sessionThreads.length e.main ≤
      e.process.listener.sessionThreads.length + 4 := by
    cases e.main <;> simp only [mainRemaining] <;> omega
  have hioc : iocRemaining e.iocReturned e.process.listener.ioc ≤ 3 := by
    unfold iocRemaining
    split
    · omega
    · cases e.process.listener.ioc <;> simp
  unfold remaining
  omega

/-- Each step of `ioc_thread` is one of those that are left. -/
theorem iocRemaining_step {lev : ListenerEvent} {s s' : Listener} (hs : s.step lev = some s')
    (hquiet : e.iocReturned = true → s.ioc ≠ .handling)
    (hallows : e.allows (.listener lev) = true) :
    iocRemaining e.iocReturned s'.ioc +
      (if closes (.process (.listener lev)) = true then 1 else 0) ≤
        iocRemaining e.iocReturned s.ioc := by
  obtain ⟨-, hmoves⟩ := Listener.step_moves hs
  cases hmoves with
  | iocRun hioc =>
    have hnot : e.iocReturned = false := by simpa [allows] using hallows
    rw [hnot, hioc]
    dsimp only
    split <;> simp [iocRemaining, closes]
  | closeAcceptor hioc _ =>
    have hnot : e.iocReturned = false := by simpa [allows] using hallows
    simp [hnot, hioc, iocRemaining, closes]
  | shutdownAll hioc =>
    have hnot : e.iocReturned = false := by
      by_contra hreturned
      exact hquiet (by simpa using hreturned) hioc
    simp [hnot, hioc, iocRemaining, closes]
  | _ => simp [closes]

/-- Each step of main after the loop and of `ioc_thread` is one of those that are left, and no other
step adds to them. -/
theorem remaining_step (h : Joined e) (hloop : e.process.listener.main = .joining)
    (hs : e.step P ev = some e') :
    e'.process.listener.main = .joining ∧
      e'.remaining + (if closes ev = true then 1 else 0) ≤ e.remaining := by
  unfold remaining
  cases (step_moves hs).2 with
  | process hallows hp =>
    cases Process.step_moves hp with
    | listener _ hl =>
      refine ⟨(Listener.step_joining_iff hl).mpr (.inl hloop), ?_⟩
      have hlength := Listener.length_of_joining hloop hl
      have hioc := iocRemaining_step hl h.quiet hallows
      dsimp only
      rw [hlength]
      omega
    | server _ _ => exact ⟨hloop, by simp [closes]⟩
  | watch hm _ => exact ⟨hloop, by simp only [hm, mainRemaining, closes, if_true]; omega⟩
  | watchFails hm _ => exact ⟨hloop, by simp only [hm, mainRemaining, closes, if_true]; omega⟩
  | join hm ht _ =>
    have hlt := (List.getElem?_eq_some_iff.mp ht).1
    exact ⟨hloop, by simp only [hm, mainRemaining, closes, if_true]; omega⟩
  | stop hm => exact ⟨hloop, by simp only [hm, mainRemaining, closes, if_true]; omega⟩
  | iocReturn _ hdone _ =>
    refine ⟨hloop, ?_⟩
    simp only [iocDone, Bool.or_eq_false_iff, decide_eq_false_iff_not] at hdone
    obtain ⟨hreturned, hioc⟩ := hdone
    have hleft : 0 < iocRemaining false e.process.listener.ioc := by
      revert hioc
      cases e.process.listener.ioc <;> simp [iocRemaining]
    have hnone : iocRemaining true e.process.listener.ioc = 0 := rfl
    simp only [hreturned, hnone, closes, if_true]
    omega
  | joinIoc hm _ => exact ⟨hloop, by simp only [hm, mainRemaining, closes, if_true]; omega⟩
  | disarm hm => exact ⟨hloop, by simp only [hm, mainRemaining, closes, if_true]; omega⟩
  | _ => exact ⟨hloop, by simp [closes]⟩

/-- Main waits for a session thread. -/
def Waits (e : Shutdown) : Prop :=
  ∃ k t, e.main = .joining k ∧ e.process.listener.sessionThreads[k]? = some t ∧
    t.stage ≠ .returned

/-- A step is possible that gets main on. -/
def Proceeds (P : Platform) (e : Shutdown) : Prop :=
  ∃ ev e', closes ev = true ∧ e.step P ev = some e'

theorem proceeds_of_mainStep (ev : ShutdownEvent) (hended : e.ended = false)
    (hev : ev = .watch true ∨ ev = .join ∨ ev = .stop ∨ ev = .joinIoc ∨ ev = .disarm)
    (hs : (e.mainStep ev).isSome = true) : Proceeds P e := by
  obtain ⟨e', hs⟩ := Option.isSome_iff_exists.mp hs
  refine ⟨ev, e', ?_, ?_⟩
  · rcases hev with rfl | rfl | rfl | rfl | rfl <;> rfl
  · rcases hev with rfl | rfl | rfl | rfl | rfl <;> simp [step, hended, hs]

/-- The stopped context returns, if its handler is done. -/
theorem proceeds_of_stopped (hended : e.ended = false) (hm : e.main = .stopped) :
    Proceeds P e := by
  by_cases hdone : e.iocDone = true
  · exact proceeds_of_mainStep .joinIoc hended (by simp)
      (by simp [mainStep, hm, hdone])
  by_cases hhandling : e.process.listener.ioc = .handling
  · -- the handler ends first
    have hlive := hended
    simp only [ended, Bool.or_eq_false_iff, decide_eq_false_iff_not] at hlive
    obtain ⟨⟨⟨hserver, hmain⟩, -⟩, -⟩ := hlive
    have hs : (e.step P (.process (.listener .shutdownAll))).isSome = true := by
      simp [step, hended, allows, Process.step, hserver, Process.Allows, Listener.step, hmain,
        Listener.iocStep, hhandling]
    obtain ⟨e', hs⟩ := Option.isSome_iff_exists.mp hs
    exact ⟨_, e', rfl, hs⟩
  · refine ⟨.iocReturn, { e with iocReturned := true }, rfl, ?_⟩
    simp [step, hended, iocStep, hm, JoinStage.stopsIoc, hdone, hhandling]

theorem proceeds_or_waits (h : Joined e) (hloop : e.process.listener.main = .joining)
    (hended : e.ended = false) : e.main = .complete ∨ Waits e ∨ Proceeds P e := by
  cases hm : e.main with
  | unwatched =>
    exact .inr (.inr (proceeds_of_mainStep (.watch true) hended (by simp)
      (by simp [mainStep, hm, hloop])))
  | joining k =>
    right
    rcases (h.le_length k hm).eq_or_lt with rfl | hlt
    · exact .inr (proceeds_of_mainStep .stop hended (by simp)
        (by simp [mainStep, hm]))
    · obtain ⟨t, ht⟩ : ∃ t, e.process.listener.sessionThreads[k]? = some t :=
        ⟨_, List.getElem?_eq_getElem hlt⟩
      by_cases hstage : t.stage = .returned
      · exact .inr (proceeds_of_mainStep .join hended (by simp)
          (by simp [mainStep, hm, ht, hstage]))
      · exact .inl ⟨k, t, hm, ht, hstage⟩
  | stopped => exact .inr (.inr (proceeds_of_stopped hended hm))
  | iocJoined =>
    exact .inr (.inr (proceeds_of_mainStep .disarm hended (by simp)
      (by simp [mainStep, hm])))
  | complete => exact .inl rfl
  | thrown => simp [ended, hm] at hended

/-! ## How the process ends -/

/-- In every run of the process: when main has got through, every session thread and `ioc_thread`
have returned and nothing is held but the references that leaked; and the watchdog exits only when
the time is up, by a clock reading after the one that its deadline was made of. -/
theorem graceful_or_forced (hrun : Run (step P) (init config sessionId start) tr e) :
    (e.main = .complete →
      (∀ t ∈ e.process.listener.sessionThreads, t.stage = .returned) ∧ e.iocDone = true ∧
      e.process.listener.limiter.total = 0 ∧ e.process.server.limiter.activeCount = 0 ∧
      e.process.audio = 0 ∧ e.process.server.cache.refCount = Process.leaked (processTrace tr)) ∧
    (e.watchdog = .exited → DeadlinePassed config.shutdownTimeoutSec tr) := by
  have h := joined_of_run hrun
  refine ⟨fun hm => ?_, fun hw => ?_⟩
  · have hreturned : ∀ t ∈ e.process.listener.sessionThreads, t.stage = .returned := by
      intro t ht
      obtain ⟨i, hi, rfl⟩ := List.mem_iff_getElem.mp ht
      obtain ⟨t', ht', hstage⟩ := h.returned i (by rw [hm]; trivial) hi
      rw [List.getElem?_eq_getElem hi, Option.some.injEq] at ht'
      rwa [ht']
    have hloop : e.process.listener.main = .joining := h.past (by rw [hm]; simp)
    have htotal := Process.total_eq_zero (run_process hrun) hreturned (by rw [hloop]; rfl)
    obtain ⟨haudio, hrefs, hactive⟩ := Process.drained_of_total (run_process hrun) htotal
    exact ⟨hreturned, h.ioc (by rw [hm]; rfl), htotal, hactive (h.live hm), haudio, hrefs⟩
  · have htimed := (timed_of_run hrun).2
    rwa [hw] at htimed

/-- Once the loop has ended, main and `ioc_thread` take at most seven steps more than there are
session threads, whatever the others do between them; and until main has got through or the process
ends, one of these steps is possible, or main waits for a session thread that has not returned. -/
theorem completes (h : Reachable (step P) (init config sessionId start) e)
    (hloop : e.process.listener.main = .joining) (hrun : Run (step P) e tr e') :
    tr.countP (fun q => closes q.2) ≤ e.process.listener.sessionThreads.length + 7 ∧
      (e'.ended = true ∨ e'.main = .complete ∨ Waits e' ∨ Proceeds P e') := by
  obtain ⟨tr₀, hrun₀⟩ := h
  have hstart : Joined e ∧ e.process.listener.main = .joining := ⟨joined_of_run hrun₀, hloop⟩
  have hkeep (s : Shutdown) (ev : ShutdownEvent) (s' : Shutdown)
      (hs : Joined s ∧ s.process.listener.main = .joining) (hstep : s.step P ev = some s') :
      Joined s' ∧ s'.process.listener.main = .joining :=
    ⟨hs.1.step hstep, (remaining_step hs.1 hs.2 hstep).1⟩
  constructor
  · have hcount := hrun.countP_le (A := fun q => closes q.2) (μ := remaining) hstart hkeep
      fun s ev s' hs hstep => (remaining_step hs.1 hs.2 hstep).2
    have hle := remaining_le e
    omega
  · obtain ⟨hjoined, hloop'⟩ := hrun.invariant hstart hkeep
    cases hended : e'.ended with
    | true => exact .inl rfl
    | false => exact .inr (proceeds_or_waits hjoined hloop' hended)

end Shutdown

namespace Demo

/-- The process is told to stop, and main leaves the loop. -/
def told : List ShutdownEvent :=
  [ListenerEvent.iocRun, .signal, .closeAcceptor, .shutdownAll, .isOpen].map fun ev =>
    .process (.listener ev)

/-- Main waits for its one client, who goes, and gets through. -/
def wayThrough : List ShutdownEvent :=
  [.watch true, .deadline 0, .poll, .compare 100000000] ++ leave.map ShutdownEvent.process ++
    [.join, .stop, .joinIoc, .disarm]

def closing : List ShutdownEvent := visit.map ShutdownEvent.process ++ told

def service : Shutdown := .init {} (fun _ => lit "session") fun _ => 0

/-- Nothing of the one visit is left at the end. -/
theorem graceful_after_one_visit : ∃ tr e, Run (Shutdown.step platform) service tr e ∧
    e.main = .complete ∧ e.process.listener.limiter.total = 0 ∧ e.process.audio = 0 := by
  have hexec : (exec (Shutdown.step platform) service (closing ++ wayThrough)).map
      (fun r => r.2.main) = some .complete := by decide +kernel
  obtain ⟨r, hr, hmain⟩ := Option.map_eq_some_iff.mp hexec
  have hrun := Run.of_exec hr
  obtain ⟨-, -, htotal, -, haudio, -⟩ := (Shutdown.graceful_or_forced hrun).1 hmain
  exact ⟨_, _, hrun, hmain, htotal, haudio⟩

/-- Main gets through within the steps that it has. -/
theorem completes_after_one_visit : ∃ e tr e', Reachable (Shutdown.step platform) service e ∧
    Run (Shutdown.step platform) e tr e' ∧ e'.main = .complete ∧
    tr.countP (fun q => Shutdown.closes q.2) ≤
      e.process.listener.sessionThreads.length + 7 := by
  have hexec : (exec (Shutdown.step platform) service closing).bind (fun r =>
      (exec (Shutdown.step platform) r.2 wayThrough).map fun r' =>
        (r.2.process.listener.main, r'.2.main)) = some (.joining, .complete) := by decide +kernel
  obtain ⟨r, hr, hrest⟩ := Option.bind_eq_some_iff.mp hexec
  obtain ⟨r', hr', heq⟩ := Option.map_eq_some_iff.mp hrest
  obtain ⟨hloop, hmain⟩ := Prod.mk.inj heq
  have hreach : Reachable (Shutdown.step platform) service r.2 := ⟨_, Run.of_exec hr⟩
  have hrun := Run.of_exec hr'
  exact ⟨_, _, _, hreach, hrun, hmain, (Shutdown.completes hreach hloop hrun).1⟩

end Demo

end JotaTranscriber
