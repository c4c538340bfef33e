import JotaTranscriber.Server.Slots

/-! # How the accept loop ends

The loop ends when the acceptor is found closed or `accept` is aborted or
interrupted, but also by an exception: of `remote_endpoint` for a peer that is
gone, or of the close of a refused socket. When it ends duly, a session that is
still served has been shut down only if the signal handler came first and found
it registered.
-/

namespace JotaTranscriber

open Transition

namespace Listener

/-- The acceptor is found closed, or `accept` reports that it was aborted or interrupted. -/
def EndsLoop (s : Listener) (ev : ListenerEvent) : Prop :=
  ev = .isOpen ∧ s.acceptorOpen = false ∨ ev = .accept (.error .operationAborted) ∨
    ev = .accept (.error .interrupted)

/-- By this step main leaves the loop. -/
def LeavesLoop (s : Listener) (ev : ListenerEvent) : Prop :=
  s.main.inLoop = true ∧ ∃ s', s.step ev = some s' ∧ s'.main.inLoop = false

/-- A call outside the `try` block throws: the peer is gone before its address is asked for, or
the socket of a refused connection fails to close. -/
def Throws (ev : ListenerEvent) : Prop := ev = .remoteEndpoint none ∨ ev = .close false

/-- The `i`-th session is registered with the tracker. -/
def Tracked (s : Listener) (i : ℕ) : Prop :=
  ∃ t, s.sessionThreads[i]? = some t ∧ t.stage = .running

/-- The `i`-th connection is still being served. -/
def Serves (s : Listener) (i : ℕ) : Prop :=
  ∃ t, s.sessionThreads[i]? = some t ∧ t.isServed = true

/-- `shutdownAll` was called while the `i`-th session was registered. -/
def ShutIn (tr : List (Listener × ListenerEvent)) (i : ℕ) : Prop :=
  ∃ p ∈ tr, p.2 = .shutdownAll ∧ p.1.Tracked i

/-- `shutdown` has been called on every connection that is still being served. -/
def AllShut (s : Listener) : Prop :=
  ∀ t ∈ s.sessionThreads, t.isServed = true → t.shut = true

instance (s : Listener) : Decidable s.AllShut :=
  inferInstanceAs (Decidable (∀ t ∈ s.sessionThreads, t.isServed = true → t.shut = true))

variable {s s' : Listener} {ev : ListenerEvent} {tr : List (Listener × ListenerEvent)} {i : ℕ}
  {maxTotal maxPerIp : ℕ}

/-! ## Leaving the loop -/

theorem inLoop_afterAccept (result : Except AcceptError Unit) :
    (afterAccept result).inLoop = false ↔
      result = .error .operationAborted ∨ result = .error .interrupted := by
  rcases result with (_ | _ | _) | _ <;> simp [afterAccept, AcceptLoop.inLoop]

/-- Main leaves the loop duly, or by an exception. -/
theorem leavesLoop_iff (hs : s.step ev = some s') :
    s.LeavesLoop ev ↔ s.EndsLoop ev ∨ Throws ev := by
  have hleaves : s.LeavesLoop ev ↔ s.main.inLoop = true ∧ s'.main.inLoop = false := by
    simp [LeavesLoop, hs]
  rw [hleaves]
  obtain ⟨-, hmoves⟩ := step_moves hs
  cases hmoves with
  | asyncWait hm => simp [EndsLoop, Throws, hm, AcceptLoop.inLoop]
  | isOpen hm =>
    cases hopen : s.acceptorOpen <;> simp [EndsLoop, Throws, hm, hopen, AcceptLoop.inLoop]
  | accept result hm =>
    simp only [inLoop_afterAccept]
    simp [EndsLoop, Throws, hm, AcceptLoop.inLoop]
  | peerGone hm => simp [EndsLoop, Throws, hm, AcceptLoop.inLoop]
  | remoteEndpoint clientIp hm =>
    cases hslot : (s.limiter.tryAcquire clientIp).2 <;>
      simp [EndsLoop, Throws, AcceptLoop.inLoop]
  | close closed hm => cases closed <;> simp [EndsLoop, Throws, hm, AcceptLoop.inLoop]
  | spawn clientIp hm => simp [EndsLoop, Throws, AcceptLoop.inLoop]
  | spawnFails clientIp hm => simp [EndsLoop, Throws, AcceptLoop.inLoop]
  | _ => simp [EndsLoop, Throws]

theorem not_endsLoop_of_throws (h : Throws ev) : ¬ s.EndsLoop ev := by
  rcases h with rfl | rfl <;> simp [EndsLoop]

/-! ## Shutting the sessions down -/

/-- Main starts to join exactly when the loop ends duly. -/
theorem step_joining_iff (hs : s.step ev = some s') :
    s'.main = .joining ↔ s.main = .joining ∨ s.EndsLoop ev := by
  obtain ⟨-, hmoves⟩ := step_moves hs
  cases hmoves with
  | asyncWait hm => simp [EndsLoop, hm]
  | isOpen hm => cases hopen : s.acceptorOpen <;> simp [EndsLoop, hm, hopen]
  | accept result hm =>
    rcases result with (_ | _ | _) | _ <;> simp [EndsLoop, hm, afterAccept]
  | peerGone hm => simp [EndsLoop, hm]
  | remoteEndpoint clientIp hm =>
    cases hslot : (s.limiter.tryAcquire clientIp).2 <;> simp [EndsLoop, hm]
  | close closed hm => cases closed <;> simp [EndsLoop, hm]
  | spawn clientIp hm => simp [EndsLoop, hm]
  | spawnFails clientIp hm => simp [EndsLoop, hm]
  | _ => simp [EndsLoop]

theorem step_sessionThreads_of_endsLoop (h : s.EndsLoop ev) (hs : s.step ev = some s') :
    s'.sessionThreads = s.sessionThreads := by
  obtain ⟨-, hmoves⟩ := step_moves hs
  rcases h with ⟨rfl, -⟩ | rfl | rfl <;> cases hmoves <;> rfl

/-- The `i`-th thread of `session_threads` before and after a step that moves the `j`-th one. -/
theorem getElem?_set_stage {threads : List SessionThread} {j : ℕ} {t t' : SessionThread}
    {stage : Stage} (ht : threads[j]? = some t)
    (hserved : ({ t with stage } : SessionThread).isServed = true → t.isServed = true)
    (h : (threads.set j { t with stage })[i]? = some t') :
    ∃ t₀, threads[i]? = some t₀ ∧ (t'.isServed = true → t₀.isServed = true) ∧
      t'.shut = t₀.shut := by
  rw [List.getElem?_set] at h
  split at h
  · subst i
    split at h
    · cases h
      exact ⟨t, ht, hserved, rfl⟩
    · cases h
  · exact ⟨t', h, id, rfl⟩

/-- Where a session thread comes from, and whether its session is shut down by the step. -/
theorem step_getElem? {t' : SessionThread} (hs : s.step ev = some s')
    (h : s'.sessionThreads[i]? = some t') :
    (∃ t, s.sessionThreads[i]? = some t ∧ (t'.isServed = true → t.isServed = true) ∧
      (t'.shut = true ↔ t.shut = true ∨ ev = .shutdownAll ∧ t.stage = .running)) ∨
    (i = s.sessionThreads.length ∧ t'.shut = false ∧ ev = .spawn true ∧ s.main ≠ .joining) := by
  obtain ⟨-, hmoves⟩ := step_moves hs
  cases hmoves with
  | spawn clientIp hm =>
    rw [List.getElem?_append] at h
    split at h
    · exact .inl ⟨t', h, id, by simp⟩
    · rw [List.getElem?_singleton] at h
      split at h
      · cases h
        exact .inr ⟨by omega, rfl, rfl, by simp [hm]⟩
      · cases h
  | shutdownAll _ =>
    rw [List.getElem?_map] at h
    obtain ⟨t, ht, rfl⟩ := Option.map_eq_some_iff.mp h
    refine .inl ⟨t, ht, ?_⟩
    unfold SessionThread.shutdown
    split <;> simp [SessionThread.isServed, *]
  | @construct j t ht hstage =>
    obtain ⟨t₀, ht₀, hserved, hshut⟩ :=
      getElem?_set_stage ht (by simp [SessionThread.isServed, hstage]) h
    exact .inl ⟨t₀, ht₀, hserved, by simp [hshut]⟩
  | @destroy j t ht hstage =>
    obtain ⟨t₀, ht₀, hserved, hshut⟩ :=
      getElem?_set_stage ht (by simp [SessionThread.isServed, hstage]) h
    exact .inl ⟨t₀, ht₀, hserved, by simp [hshut]⟩
  | @finish j t ht hstage =>
    obtain ⟨t₀, ht₀, hserved, hshut⟩ :=
      getElem?_set_stage ht (by simp [SessionThread.isServed]) h
    exact .inl ⟨t₀, ht₀, hserved, by simp [hshut]⟩
  | _ => exact .inl ⟨t', h, id, by simp⟩

/-- A session is shut down exactly if `shutdownAll` found it registered. -/
structure Recorded (tr : List (Listener × ListenerEvent)) (s : Listener) : Prop where
  shut_iff : ∀ i t, s.sessionThreads[i]? = some t → (t.shut = true ↔ ShutIn tr i)
  lt_length : ∀ i, ShutIn tr i → i < s.sessionThreads.length

theorem shutIn_snoc : ShutIn (tr ++ [(s, ev)]) i ↔
    ShutIn tr i ∨ ev = .shutdownAll ∧ s.Tracked i := by
  simp [ShutIn, or_and_right, exists_or]

theorem Tracked.lt_length (h : s.Tracked i) : i < s.sessionThreads.length := by
  obtain ⟨t, ht, -⟩ := h
  exact (List.getElem?_eq_some_iff.mp ht).1

theorem Recorded.step (h : Recorded tr s) (hs : s.step ev = some s') :
    Recorded (tr ++ [(s, ev)]) s' := by
  constructor
  · intro i t' ht'
    rw [shutIn_snoc]
    rcases step_getElem? hs ht' with ⟨t, ht, -, hshut⟩ | ⟨rfl, hshut, rfl, -⟩
    · have htracked : s.Tracked i ↔ t.stage = .running := by
        simp [Tracked, ht]
      rw [hshut, h.shut_iff i t ht, htracked]
    · rw [hshut]
      apply iff_of_false (by simp)
      rintro (hin | ⟨⟨⟩, -⟩)
      exact lt_irrefl _ (h.lt_length _ hin)
  · intro i hin
    rw [shutIn_snoc] at hin
    rw [step_length hs]
    rcases hin with hin | ⟨-, htracked⟩
    · have := h.lt_length i hin
      omega
    · have := htracked.lt_length
      omega

theorem recorded_of_run (hrun : Run step (init maxTotal maxPerIp) tr s) : Recorded tr s := by
  induction hrun with
  | nil =>
    constructor
    · intro i t ht
      simp [init] at ht
    · rintro i ⟨p, hp, -⟩
      simp at hp
  | snoc _ hs ih => exact ih.step hs

theorem Recorded.shut_all_iff (h : Recorded tr s) :
    s.AllShut ↔ ∀ i, s.Serves i → ShutIn tr i := by
  constructor
  · rintro hall i ⟨t, ht, hserved⟩
    exact (h.shut_iff i t ht).mp (hall t (List.mem_of_getElem? ht) hserved)
  · intro hall t hmem hserved
    obtain ⟨i, ht⟩ := List.mem_iff_getElem?.mp hmem
    exact (h.shut_iff i t ht).mpr (hall i ⟨t, ht, hserved⟩)

/-- While main joins, no connection comes that is not shut down. -/
theorem AllShut.step (h : s.AllShut) (hm : s.main = .joining) (hs : s.step ev = some s') :
    s'.AllShut := by
  intro t' hmem hserved
  obtain ⟨i, ht'⟩ := List.mem_iff_getElem?.mp hmem
  rcases step_getElem? hs ht' with ⟨t, ht, hserves, hshut⟩ | ⟨-, -, -, hnot⟩
  · exact hshut.mpr (.inl (h t (List.mem_of_getElem? ht) (hserves hserved)))
  · exact absurd hm hnot

end Listener

section Runs

variable {maxTotal maxPerIp : ℕ} {s : Listener} {tr : List (Listener × ListenerEvent)}

/-- The loop is left only when the acceptor is closed or `accept` is aborted or interrupted, if and
only if no call outside the `try` block throws. -/
theorem loopEnds_iff (hrun : Run Listener.step (Listener.init maxTotal maxPerIp) tr s) :
    (∀ p ∈ tr, p.1.LeavesLoop p.2 → p.1.EndsLoop p.2) ↔ ∀ p ∈ tr, ¬ Listener.Throws p.2 := by
  refine forall₂_congr ?_
  intro p hp
  obtain ⟨s', hs⟩ := hrun.step_of_mem hp
  rw [Listener.leavesLoop_iff hs]
  constructor
  · intro h hthrows
    exact Listener.not_endsLoop_of_throws hthrows (h (.inr hthrows))
  · rintro hnot (hends | hthrows)
    · exact hends
    · exact absurd hthrows hnot

/-- While main joins, `shutdown` has been called on every connection that is still served, if and
only if each one that was served when the loop ended had been registered when the signal handler
called `shutdownAll`. -/
theorem allShut_iff (hrun : Run Listener.step (Listener.init maxTotal maxPerIp) tr s) :
    Throughout (fun s => s.main = .joining → s.AllShut) tr s ↔
      EachStep (fun tr s ev => s.EndsLoop ev → ∀ i, s.Serves i → Listener.ShutIn tr i) tr := by
  apply hrun.throughout_iff_eachStep
  · rintro ⟨⟩
  · intro tr s ev s' hrun h hs
    rw [← (Listener.recorded_of_run hrun).shut_all_iff, Listener.step_joining_iff hs]
    by_cases hends : s.EndsLoop ev
    · have hsame := Listener.step_sessionThreads_of_endsLoop hends hs
      simp [hends, Listener.AllShut, hsame]
    · apply iff_of_true
      · rintro (hm | hends')
        · exact (h hm).step hm hs
        · exact absurd hends' hends
      · exact fun hends' => absurd hends' hends

end Runs

namespace Demo

/-- A client stays, and then `accept` is interrupted. -/
theorem loopEnds_of_one_client : ∃ tr s, Run Listener.step (Listener.init 8 2) tr s ∧
    s.main = .joining ∧ ∀ p ∈ tr, p.1.LeavesLoop p.2 → p.1.EndsLoop p.2 := by
  have hexec : (exec Listener.step (Listener.init 8 2)
      (.asyncWait :: connect ++ [.isOpen, .accept (.error .interrupted)])).map
        (fun r => r.2.main) = some .joining := rfl
  obtain ⟨r, hr, hmain⟩ := Option.map_eq_some_iff.mp hexec
  have hrun := Run.of_exec hr
  refine ⟨_, _, hrun, hmain, (loopEnds_iff hrun).mpr ?_⟩
  intro p hp hthrows
  have hmem := List.mem_map_of_mem (f := Prod.snd) hp
  rw [exec_events hr] at hmem
  rcases hthrows with heq | heq <;> rw [heq] at hmem <;> simp [connect] at hmem

/-- A client that is gone before main asks for its address takes main out of the loop. -/
theorem loopEnds_by_peer_gone :
    ¬ ∀ (maxTotal maxPerIp : ℕ) (tr : List (Listener × ListenerEvent)) (s : Listener),
        Run Listener.step (Listener.init maxTotal maxPerIp) tr s →
        ∀ p ∈ tr, p.1.LeavesLoop p.2 → p.1.EndsLoop p.2 := by
  intro hall
  have hexec : (exec Listener.step (Listener.init 8 2)
      [.asyncWait, .isOpen, .accept (.ok ()), .remoteEndpoint none]).isSome = true := rfl
  obtain ⟨r, hr⟩ := Option.isSome_iff_exists.mp hexec
  have hrun := Run.of_exec hr
  have hmem : ListenerEvent.remoteEndpoint none ∈ r.1.map Prod.snd := by
    rw [exec_events hr]
    simp
  obtain ⟨p, hp, hev⟩ := List.mem_map.mp hmem
  obtain ⟨s', hs⟩ := hrun.step_of_mem hp
  have hthrows : Listener.Throws p.2 := .inl hev
  have hleaves := (Listener.leavesLoop_iff hs).mpr (.inr hthrows)
  exact Listener.not_endsLoop_of_throws hthrows (hall 8 2 _ _ hrun p hp hleaves)

/-- A session is registered, and the signal comes while main accepts. -/
def signalled : List ListenerEvent :=
  .asyncWait :: .iocRun :: connect ++ [.construct 0, .isOpen, .signal]

/-- The handler runs before `accept` is aborted. -/
theorem allShut_of_handler : ∃ tr s, Run Listener.step (Listener.init 8 2) tr s ∧
    s.main = .joining ∧
      EachStep (fun tr s ev => s.EndsLoop ev → ∀ i, s.Serves i → Listener.ShutIn tr i) tr := by
  have hexec : (exec Listener.step (Listener.init 8 2)
      (signalled ++ [.closeAcceptor, .shutdownAll, .accept (.error .operationAborted)])).map
        (fun r => decide (r.2.main = .joining ∧ r.2.AllShut ∧
          ∀ p ∈ r.1, p.1.main = .joining → p.1.AllShut)) = some true := rfl
  obtain ⟨r, hr, hdecide⟩ := Option.map_eq_some_iff.mp hexec
  obtain ⟨hmain, hlast, hbefore⟩ := of_decide_eq_true hdecide
  have hrun := Run.of_exec hr
  exact ⟨_, _, hrun, hmain, (allShut_iff hrun).mp ⟨hbefore, fun _ => hlast⟩⟩

/-- The signal interrupts `accept`, and main joins before the handler runs. -/
theorem notShut_of_interrupted :
    ¬ ∀ (maxTotal maxPerIp : ℕ) (tr : List (Listener × ListenerEvent)) (s : Listener),
        Run Listener.step (Listener.init maxTotal maxPerIp) tr s →
        s.main = .joining → s.AllShut := by
  intro hall
  have hexec : (exec Listener.step (Listener.init 8 2)
      (signalled ++ [.accept (.error .interrupted)])).map
        (fun r => (r.2.main, r.2.sessionThreads)) =
      some (.joining, [{ clientIp, stage := .running }]) := rfl
  obtain ⟨r, hr, heq⟩ := Option.map_eq_some_iff.mp hexec
  obtain ⟨hmain, hthreads⟩ := Prod.mk.inj heq
  have hshut := hall 8 2 _ _ (Run.of_exec hr) hmain { clientIp, stage := .running }
    (by rw [hthreads]; exact List.mem_singleton_self _) rfl
  cases hshut

end Demo

end JotaTranscriber
