import Mathlib.Algebra.BigOperators.Fin
import Mathlib.Algebra.BigOperators.Ring.Finset
import JotaTranscriber.Server.Inference
import JotaTranscriber.Server.Process
import JotaTranscriber.Server.SessionRuns
import JotaTranscriber.Session.Buffer
import JotaTranscriber.Session.Teardown

/-! # What the connections hold

A session has audio, a reference to the model or a slot for inference only
while its connection has a slot of the limiter: before its construction it has
nothing yet, and after its destruction nothing any more. So the limit on the
connections bounds what all sessions together hold, whatever the order of
their steps, and nothing is held once all have ended.
-/

namespace JotaTranscriber

open Transition

/-- The positions of a list whose element meets `p` are as many as the elements. -/
theorem sum_positions {α : Type*} (p : α → Bool) (l : List α) :
    ∑ i ∈ Finset.range l.length, (if l[i]?.any p = true then 1 else 0) = l.countP p := by
  induction l using List.reverseRecOn with
  | nil => rfl
  | append_singleton l a ih =>
    rw [List.length_append, List.length_singleton, Finset.sum_range_succ, List.countP_append,
      List.countP_singleton, ← ih]
    congr 1
    · apply Finset.sum_congr rfl
      intro i hi
      rw [List.getElem?_append_left (Finset.mem_range.mp hi)]
    · simp

theorem length_eraseCommitted_le {force : Bool} {t1 : ℤ} (buffer : List ℚ) :
    (eraseCommitted force t1 buffer).length ≤ buffer.length := by
  simp only [eraseCommitted]
  split_ifs <;> simp

namespace StreamingWhisperEngine

/-- A forced call never lengthens the buffer. -/
theorem transcribe_forced_length_le {e e' : StreamingWhisperEngine} {whisper : WhisperFull}
    {res : TranscribeResult} (h : e.transcribeSlidingWindow whisper true = .ok (res, e')) :
    e'.audioBuffer.length ≤ e.audioBuffer.length := by
  rcases transcribe_eq_ok.mp h with ⟨-, -, rfl⟩ | ⟨-, -, hc⟩
  · exact le_rfl
  rcases commitWindow_cases (e.lockLanguage (e.infer whisper).lang) (e.infer whisper).segments
    true with ⟨k, t, -, -, hw⟩ | ⟨-, hw⟩
  all_goals
    rw [hw, Prod.mk.injEq] at hc
    obtain ⟨-, rfl⟩ := hc
  · dsimp only
    rw [lockLanguage_audioBuffer]
    exact length_eraseCommitted_le e.audioBuffer
  · rw [lockLanguage_audioBuffer]

end StreamingWhisperEngine

namespace Threads

variable {P : Platform} {t t' : Threads} {ev : Event} {params : SessionParams} {start : ℤ}

/-- The forced call of `handleEnd` does not lengthen the buffer either. -/
theorem Bounded.next (h : Bounded t) (hc : Consistent t) (hs : t.step P ev = some t') :
    Bounded t' := by
  by_cases hend : ev.beforeEnd = true
  · exact h.step hc hend hs
  unfold Bounded at h ⊢
  cases step_moves hs with
  | @endReturn s s' f whisper hw =>
    rcases Session.handleEndLocked_eq_ok hw with ⟨hnone, rfl⟩ | ⟨e, res, e', he, htr, rfl⟩
    · rw [bufferSize_of_none (by exact hnone)]
      exact Nat.zero_le _
    · rw [bufferSize_of_engine (e := e') rfl]
      rw [bufferSize_of_engine he] at h
      exact (StreamingWhisperEngine.transcribe_forced_length_le htr).trans h
  | endThrow whisper x hw => exact h
  | _ => exact absurd rfl hend

/-- The buffer is never longer than 30 s, whatever the session does. -/
theorem bounded_of_reachable (h : Reachable (step P) (init params start) t) : Bounded t := by
  have hboth := h.invariant (I := fun t => Consistent t ∧ Bounded t)
    ⟨consistent_init params start, Nat.zero_le _⟩
    fun t ev t' hb hs => ⟨hb.1.step hs, hb.2.next hb.1 hs⟩
  exact hboth.2

end Threads

namespace Server

variable {ι : Type*} [DecidableEq ι] {P : Platform} {S S' : Server ι} {ev : ServerEvent ι} {i : ι}

theorem session_of_sessionEvent {e : Event} (h : S.sessionEvent i ev = some e) :
    ev.session = some i := by
  cases ev with
  | fire timer => cases h
  | _ =>
    obtain ⟨rfl, -⟩ := Option.ite_none_right_eq_some.mp h
    rfl

/-- A session that takes no step stays as it is. -/
theorem Moves.sessions_eq (h : Moves P S ev S') (hi : ev.session ≠ some i) :
    S'.sessions i = S.sessions i := by
  rcases h.step_session i with ⟨-, hsame⟩ | ⟨e, he, -⟩
  · exact hsame
  · exact absurd (session_of_sessionEvent he) hi

/-- The same steps leak among the sessions that take steps. -/
theorem countP_leaks_restrict {n : ℕ} {tr : List (Server ℕ × ServerEvent ℕ)}
    (hlt : ∀ q ∈ tr, ∀ i, q.2.session = some i → i < n) :
    (restrictTrace n tr).countP (fun q => Leaks q.1 q.2) = tr.countP fun q => Leaks q.1 q.2 := by
  induction tr with
  | nil => rfl
  | cons q tr ih =>
    rw [List.forall_mem_cons] at hlt
    obtain ⟨ev', hev', hmap⟩ := ServerEvent.exists_restrict hlt.1
    have hleaks : Leaks (q.1.comap Fin.val) ev' = Leaks q.1 q.2 := by
      rw [← hmap]
      cases ev' <;> rfl
    have hrest : restrictTrace n (q :: tr) = (q.1.comap Fin.val, ev') :: restrictTrace n tr := by
      simp [restrictTrace, project, hev']
    rw [hrest, List.countP_cons, List.countP_cons, ih hlt.2, hleaks]

end Server

namespace Listener

variable {s s' : Listener} {ev : ListenerEvent} {tr : List (Listener × ListenerEvent)}
  {maxTotal maxPerIp i : ℕ} {t : SessionThread}

theorem total_of_run (hrun : Run step (init maxTotal maxPerIp) tr s) :
    s.limiter.total = s.holders.length := by
  rw [(balanced_of_run hrun).total, Multiset.coe_card]

theorem total_le_of_run (hrun : Run step (init maxTotal maxPerIp) tr s) :
    s.limiter.total ≤ maxTotal := by
  rw [← (limits_of_run hrun).1]
  exact (balanced_of_run hrun).total_le

/-- A thread in its session leaves it only by the destructor, and one that has returned stays so. -/
theorem stage_of_step (hs : s.step ev = some s') (ht : s.sessionThreads[i]? = some t) :
    ∃ t', s'.sessionThreads[i]? = some t' ∧
      (t'.stage = t.stage ∨ (ev = .destroy i ∧ t.stage = .running) ∨
        t.stage = .reading ∨ t.stage = .leaving) := by
  obtain ⟨hi, -⟩ := List.getElem?_eq_some_iff.mp ht
  have hset {j : ℕ} {t₀ t' : SessionThread} (hj : s.sessionThreads[j]? = some t₀)
      (hself : i = j → (ev = .destroy i ∧ t₀.stage = .running) ∨
        t₀.stage = .reading ∨ t₀.stage = .leaving) :
      ∃ t'', (s.sessionThreads.set j t')[i]? = some t'' ∧
        (t''.stage = t.stage ∨ (ev = .destroy i ∧ t.stage = .running) ∨
          t.stage = .reading ∨ t.stage = .leaving) := by
    by_cases hij : i = j
    · subst hij
      obtain rfl : t₀ = t := Option.some.inj (hj.symm.trans ht)
      exact ⟨t', List.getElem?_set_self hi, .inr (hself rfl)⟩
    · exact ⟨t, by rwa [List.getElem?_set_ne (Ne.symm hij)], .inl rfl⟩
  obtain ⟨-, hmoves⟩ := step_moves hs
  cases hmoves with
  | spawn clientIp _ => exact ⟨t, (List.getElem?_append_left hi).trans ht, .inl rfl⟩
  | shutdownAll _ =>
    refine ⟨t.shutdown, by simp [ht], .inl ?_⟩
    unfold SessionThread.shutdown
    split <;> rfl
  | construct j hj hstage => exact hset hj fun _ => .inr (.inl hstage)
  | destroy j hj hstage =>
    exact hset hj fun hij => .inl ⟨congrArg ListenerEvent.destroy hij.symm, hstage⟩
  | finish j hj hstage => exact hset hj fun _ => .inr hstage
  | _ => exact ⟨t, ht, .inl rfl⟩

end Listener

namespace Process

variable {P : Platform} {p p' : Process} {ev : ProcessEvent} {tr : List (Process × ProcessEvent)}
  {config : ServerConfig} {sessionId : ℕ → Bytes} {start : ℕ → ℤ} {i : ℕ}

/-- Only its destruction ends a session. -/
theorem lives_of_step {lev : ListenerEvent} {s' : Listener} (hs : p.listener.step lev = some s')
    (hev : lev ≠ .destroy i) (h : p.Lives i) : Lives { p with listener := s' } i := by
  obtain ⟨t, ht, hrunning⟩ := h
  obtain ⟨t', ht', hstage⟩ := Listener.stage_of_step hs ht
  refine ⟨t', ht', ?_⟩
  rcases hstage with hsame | ⟨hdestroy, -⟩ | hstage | hstage
  · rw [hsame, hrunning]
  · exact absurd hdestroy hev
  · rw [hrunning] at hstage
    cases hstage
  · rw [hrunning] at hstage
    cases hstage

/-- A session that does not live has not begun, or is destroyed. -/
def Linked (config : ServerConfig) (sessionId : ℕ → Bytes) (start : ℕ → ℤ) (p : Process) : Prop :=
  ∀ i, ¬ p.Lives i → p.server.sessions i = (init config sessionId start).server.sessions i ∨
    (p.server.sessions i).receiver = .destroyed

theorem Linked.step (h : Linked config sessionId start p) (hs : p.step P ev = some p') :
    Linked config sessionId start p' := by
  intro i hi
  cases step_moves hs with
  | @listener lev s' hallows hlistener =>
    by_cases hev : lev = .destroy i
    · subst hev
      exact .inr hallows
    · exact h i fun hlives => hi (lives_of_step hlistener hev hlives)
  | server hlives hserver =>
    have hstill := (Server.step_moves hserver).2.sessions_eq fun hev => hi (hlives i hev)
    rw [hstill]
    exact h i hi

/-- A step of a session is a step of one whose thread was started. -/
theorem Moves.session_lt (h : Moves P p ev p') {sev : ServerEvent ℕ}
    (hev : serverEvent ev = some sev) (hi : sev.session = some i) :
    i < p.listener.sessionThreads.length := by
  cases h with
  | listener _ _ => cases hev
  | server hlives _ =>
    cases hev
    obtain ⟨t, ht, -⟩ := hlives i hi
    exact (List.getElem?_eq_some_iff.mp ht).1

theorem Moves.length_le (h : Moves P p ev p') :
    p.listener.sessionThreads.length ≤ p'.listener.sessionThreads.length := by
  cases h with
  | listener _ hs =>
    have := Listener.step_length hs
    dsimp only
    omega
  | server _ _ => exact le_rfl

/-- The steps of a run are steps of sessions whose threads it has started. -/
theorem session_lt_of_run (hrun : Run (step P) (init config sessionId start) tr p) :
    ∀ q ∈ serverTrace tr, ∀ i, q.2.session = some i → i < p.listener.sessionThreads.length := by
  induction hrun with
  | nil => intro q hq; cases hq
  | @snoc tr p p' ev hr hs ih =>
    have hmoves := step_moves hs
    intro q hq i hi
    unfold serverTrace at hq
    rw [project_append, project_singleton, List.mem_append] at hq
    rcases hq with hq | hq
    · exact (ih q hq i hi).trans_le hmoves.length_le
    · obtain ⟨sev, hsev, rfl⟩ := by simpa using hq
      exact (hmoves.session_lt hsev hi).trans_le hmoves.length_le

theorem linked_of_run (hrun : Run (step P) (init config sessionId start) tr p) :
    Linked config sessionId start p :=
  hrun.invariant (fun _ _ => .inl rfl) fun _ _ _ h hs => h.step hs

/-- What the limiter counts is at least the session threads whose guard holds a slot. -/
theorem slots_le_total (hrun : Run (step P) (init config sessionId start) tr p) :
    p.listener.sessionThreads.countP SessionThread.holdsSlot ≤ p.listener.limiter.total := by
  rw [Listener.total_of_run (run_listener hrun), Listener.holders, List.length_append,
    SessionThread.slots, List.length_map, List.countP_eq_length_filter]
  exact Nat.le_add_left _ _

/-- What only a living session has, and no session more than `b` of, all sessions together have at
most `b` times for each connection. -/
theorem sum_le (hrun : Run (step P) (init config sessionId start) tr p) {w : Threads → ℕ} {b : ℕ}
    (hinit : ∀ params now, w (.init params now) = 0)
    (hdestroyed : ∀ i, (p.server.sessions i).receiver = .destroyed → w (p.server.sessions i) = 0)
    (hle : ∀ i, w (p.server.sessions i) ≤ b) :
    ∑ i ∈ Finset.range p.listener.sessionThreads.length, w (p.server.sessions i) ≤
      b * p.listener.limiter.total := by
  have hone (i : ℕ) : w (p.server.sessions i) ≤
      b * if p.listener.sessionThreads[i]?.any SessionThread.holdsSlot = true then 1 else 0 := by
    by_cases hlives : p.Lives i
    · obtain ⟨t, ht, hstage⟩ := hlives
      rw [ht]
      simpa [SessionThread.holdsSlot, hstage] using hle i
    · rcases linked_of_run hrun i hlives with hnone | hgone
      · have hzero : w (p.server.sessions i) = 0 := by
          rw [hnone]
          exact hinit _ _
        omega
      · rw [hdestroyed i hgone]
        exact Nat.zero_le _
  calc ∑ i ∈ Finset.range p.listener.sessionThreads.length, w (p.server.sessions i)
      ≤ ∑ i ∈ Finset.range p.listener.sessionThreads.length, b *
          if p.listener.sessionThreads[i]?.any SessionThread.holdsSlot = true then 1 else 0 :=
        Finset.sum_le_sum fun i _ => hone i
    _ = b * p.listener.sessionThreads.countP SessionThread.holdsSlot := by
        rw [← Finset.mul_sum, sum_positions]
    _ ≤ b * p.listener.limiter.total := Nat.mul_le_mul_left b (slots_le_total hrun)

/-- The server with the sessions whose threads were started. -/
theorem run_restricted (hrun : Run (step P) (init config sessionId start) tr p) :
    Run (Server.step P)
      (.init (fun i : Fin p.listener.sessionThreads.length => config.sessionParams (sessionId i))
        (fun i => start i) config.modelCacheTtl config.maxConcurrentInference)
      (Server.restrictTrace _ (serverTrace tr)) (p.server.comap Fin.val) :=
  Server.run_restrict (run_server hrun) (session_lt_of_run hrun)

/-- A count of the sessions that were started is at most the number of connections, if neither a
new session nor a destroyed one is counted. -/
theorem count_le_total (hrun : Run (step P) (init config sessionId start) tr p)
    {q : Threads → Prop} [DecidablePred q] (hinit : ∀ params now, ¬ q (.init params now))
    (hdestroyed : ∀ i, (p.server.sessions i).receiver = .destroyed → ¬ q (p.server.sessions i)) :
    Family.count q (p.server.comap (Fin.val : Fin p.listener.sessionThreads.length → ℕ)).sessions ≤
      p.listener.limiter.total := by
  have hsum := sum_le hrun (w := fun t => if q t then 1 else 0) (b := 1)
    (fun params now => if_neg (hinit params now)) (fun i hi => if_neg (hdestroyed i hi))
    fun i => by split <;> omega
  rw [Finset.sum_range, one_mul] at hsum
  exact hsum

/-- The times in a run that a session acquires the model while it holds it. -/
def leaked (tr : List (Process × ProcessEvent)) : ℕ :=
  (serverTrace tr).countP fun q => Server.Leaks q.1 q.2

theorem consistent_of_run (hrun : Run (step P) (init config sessionId start) tr p) (i : ℕ) :
    (p.server.sessions i).Consistent :=
  Server.consistent_of_reachable ⟨_, run_server hrun⟩ i

theorem activeCount_le (hrun : Run (step P) (init config sessionId start) tr p)
    (hlive : p.server.terminated = false) :
    0 ≤ p.server.limiter.activeCount ∧
      p.server.limiter.activeCount ≤ p.listener.limiter.total := by
  have hactive : p.server.limiter.activeCount = _ :=
    (Server.limited_of_run ⟨_, run_restricted hrun⟩).activeCount hlive
  have hle := count_le_total hrun (q := fun t => t.flushInside = true)
    (fun params now => by simp [Threads.init, Threads.flushInside, Flusher.holdsLock])
    fun i hi hinside => by
      have hreleased : (p.server.sessions i).receiver.released = true := by rw [hi]; rfl
      unfold Threads.flushInside Flusher.holdsLock at hinside
      split at hinside
      · rename_i n hn
        exact (consistent_of_run hrun i).ne_inferring_released hreleased n hn
      · cases hinside
  rw [hactive]
  exact ⟨Int.natCast_nonneg _, Int.ofNat_le.mpr hle⟩

/-- The model has the references that leaked, and at most one for each connection. -/
theorem refCount_le (hrun : Run (step P) (init config sessionId start) tr p) :
    (leaked tr : ℤ) ≤ p.server.cache.refCount ∧
      p.server.cache.refCount ≤ p.listener.limiter.total + leaked tr := by
  have hcounted : Server.Counted config.modelPath _ _ :=
    Server.counted_of_run (fun _ => rfl) (run_restricted hrun)
  have hcount : p.server.cache.refCount = _ + _ := hcounted.refCount
  rw [Server.countP_leaks_restrict (session_lt_of_run hrun)] at hcount
  have hle := count_le_total hrun (q := fun t => t.holdsReference = true)
    (fun params now => by simp [Threads.init, Threads.holdsReference, Receiver.isInstalling])
    fun i hi => by
      have hreleased : (p.server.sessions i).receiver.released = true := by rw [hi]; rfl
      simp [Threads.holdsReference, (consistent_of_run hrun i).released hreleased, hi,
        Receiver.isInstalling]
  rw [hcount, leaked]
  omega

/-- In every state of the process the flush threads inside whisper are at most as many as the
connections, and the references to the model at most as many as these and the configs of a session
that held it already; and the connections are within their limit. -/
theorem counts_le_total (hrun : Run (step P) (init config sessionId start) tr p) :
    (p.server.terminated = false →
      p.server.limiter.activeCount ≤ p.listener.limiter.total) ∧
    p.server.cache.refCount ≤ p.listener.limiter.total + leaked tr ∧
    p.listener.limiter.total ≤ config.maxConnections.toNat :=
  ⟨fun hlive => (activeCount_le hrun hlive).2, (refCount_le hrun).2,
    Listener.total_le_of_run (run_listener hrun)⟩

/-- The samples in the buffers of all sessions. -/
def audio (p : Process) : ℕ :=
  ∑ i ∈ Finset.range p.listener.sessionThreads.length, (p.server.sessions i).session.bufferSize

theorem audio_le_total (hrun : Run (step P) (init config sessionId start) tr p) :
    p.audio ≤ maxBufferSamples * p.listener.limiter.total := by
  refine sum_le hrun (w := fun t => t.session.bufferSize) (fun _ _ => rfl) (fun i hi => ?_)
    fun i => ?_
  · have hreleased : (p.server.sessions i).receiver.released = true := by rw [hi]; rfl
    exact Threads.bufferSize_of_none ((consistent_of_run hrun i).engine_released hreleased)
  · exact Threads.bounded_of_reachable ⟨_, Server.run_session (run_server hrun) i⟩

/-- All sessions together never hold more than 30 s of audio for each connection the configuration
allows. -/
theorem audio_le_maxConnections (hrun : Run (step P) (init config sessionId start) tr p) :
    p.audio ≤ maxBufferSamples * config.maxConnections.toNat :=
  (audio_le_total hrun).trans
    (Nat.mul_le_mul_left _ (Listener.total_le_of_run (run_listener hrun)))

/-- Main holds no slot and every session thread has returned. -/
theorem total_eq_zero (hrun : Run (step P) (init config sessionId start) tr p)
    (hreturned : ∀ t ∈ p.listener.sessionThreads, t.stage = .returned)
    (hmain : p.listener.main.slot = []) : p.listener.limiter.total = 0 := by
  have hslots : SessionThread.slots p.listener.sessionThreads = [] := by
    rw [SessionThread.slots, List.map_eq_nil_iff, List.filter_eq_nil_iff]
    intro t ht
    simp [SessionThread.holdsSlot, hreturned t ht]
  rw [Listener.total_of_run (run_listener hrun), Listener.holders, hmain, hslots]
  rfl

/-- Without a connection nothing is held. -/
theorem drained_of_total (hrun : Run (step P) (init config sessionId start) tr p)
    (htotal : p.listener.limiter.total = 0) :
    p.audio = 0 ∧ p.server.cache.refCount = leaked tr ∧
      (p.server.terminated = false → p.server.limiter.activeCount = 0) := by
  have haudio := audio_le_total hrun
  have hrefs := refCount_le hrun
  rw [htotal] at haudio hrefs
  refine ⟨by omega, by omega, fun hlive => ?_⟩
  have hactive := activeCount_le hrun hlive
  rw [htotal] at hactive
  omega

/-- When every session thread has returned and main is not about to start another, nothing is held:
no slot of either limiter, no audio, and of the model only the references that leaked. -/
theorem drained_of_run (hrun : Run (step P) (init config sessionId start) tr p)
    (hreturned : ∀ t ∈ p.listener.sessionThreads, t.stage = .returned)
    (hmain : p.listener.main.slot = []) :
    p.listener.limiter.total = 0 ∧ p.audio = 0 ∧ p.server.cache.refCount = leaked tr ∧
      (p.server.terminated = false → p.server.limiter.activeCount = 0) := by
  have htotal := total_eq_zero hrun hreturned hmain
  exact ⟨htotal, drained_of_total hrun htotal⟩

end Process

namespace Demo

def process : Process := .init {} (fun _ => lit "session") fun _ => 0

/-- A client connects and is configured, and a sample of audio comes. -/
def visit : List ProcessEvent :=
  (ListenerEvent.asyncWait :: connect ++ [ListenerEvent.construct 0]).map ProcessEvent.listener ++
    (configEvents 0 ++ [ServerEvent.thread 0 (.binary (frame 1) 0), .thread 0 (.audio 0)]).map
      ProcessEvent.server

/-- The client goes, its session is destroyed and its thread returns. -/
def leave : List ProcessEvent :=
  [.server (.thread 0 .disconnect), .server (.releaseModel 0 0), .server (.thread 0 .destroy),
    .server (.thread 0 .flushStop), .server (.releaseModel 0 0), .listener (.destroy 0),
    .listener (.finish 0)]

theorem visit_run : ∃ tr p, Run (Process.step platform) process tr p ∧
    p.listener.limiter.total = 1 ∧ p.server.cache.refCount = 1 ∧ p.audio = 1 := by
  have hexec : (exec (Process.step platform) process visit).map
      (fun r => (r.2.listener.limiter.total, r.2.server.cache.refCount, r.2.audio)) =
        some (1, 1, 1) := by decide +kernel
  obtain ⟨r, hr, heq⟩ := Option.map_eq_some_iff.mp hexec
  simp only [Prod.mk.injEq] at heq
  exact ⟨_, _, Run.of_exec hr, heq⟩

/-- One connection has the only reference. -/
theorem counts_of_one_visit : ∃ tr p, Run (Process.step platform) process tr p ∧
    p.server.cache.refCount = 1 ∧
      p.server.cache.refCount ≤ p.listener.limiter.total + Process.leaked tr := by
  obtain ⟨tr, p, hrun, -, hrefs, -⟩ := visit_run
  exact ⟨tr, p, hrun, hrefs, (Process.counts_le_total hrun).2.1⟩

/-- One connection has a sample of audio. -/
theorem audio_of_one_visit : ∃ tr p, Run (Process.step platform) process tr p ∧ p.audio = 1 ∧
    p.audio ≤ 480000 * 8 := by
  obtain ⟨tr, p, hrun, -, -, haudio⟩ := visit_run
  exact ⟨tr, p, hrun, haudio, Process.audio_le_maxConnections hrun⟩

/-- The one connection has ended. -/
theorem drained_after_one_visit : ∃ tr p, Run (Process.step platform) process tr p ∧
    p.listener.sessionThreads.length = 1 ∧ p.server.cache.refCount = Process.leaked tr ∧
      p.audio = 0 := by
  have hexec : (exec (Process.step platform) process (visit ++ leave)).map
      (fun r => (r.2.listener.sessionThreads.map SessionThread.stage, r.2.listener.main.slot)) =
        some ([.returned], []) := by decide +kernel
  obtain ⟨r, hr, heq⟩ := Option.map_eq_some_iff.mp hexec
  obtain ⟨hstages, hslot⟩ := Prod.mk.inj heq
  have hrun := Run.of_exec hr
  have hreturned : ∀ t ∈ r.2.listener.sessionThreads, t.stage = .returned := by
    intro t ht
    have hmem := List.mem_map_of_mem (f := SessionThread.stage) ht
    rw [hstages] at hmem
    simpa using hmem
  have hdrained := Process.drained_of_run hrun hreturned hslot
  refine ⟨_, _, hrun, ?_, hdrained.2.2.1, hdrained.2.1⟩
  simpa using congrArg List.length hstages

end Demo

end JotaTranscriber
