import Mathlib.Data.List.Perm.Basic
import JotaTranscriber.Server.AcceptLoop

/-! # The slots of the connections

A connection holds its slot from `tryAcquire` until the guard in its thread, or
the handler of a failed spawn, gives it back: the limiter always counts these
connections. Its thread stays in `session_threads` after that, so the vector
counts every session that was ever started.
-/

namespace JotaTranscriber

open Transition

/-- The addresses of the connections whose guard holds a slot. -/
def SessionThread.slots (threads : List SessionThread) : List Bytes :=
  (threads.filter holdsSlot).map clientIp

namespace Listener

/-- The addresses of the connections admitted and not yet finished. -/
def holders (s : Listener) : List Bytes := s.main.slot ++ SessionThread.slots s.sessionThreads

/-- The limiter counts the holders. -/
def Balanced (s : Listener) : Prop := s.limiter.Represents (s.holders : Multiset Bytes)

/-- A step that starts a session thread. -/
def starts (p : Listener × ListenerEvent) : Bool :=
  match p.2 with
  | .spawn true => true
  | _ => false

end Listener

namespace SessionThread

variable {threads : List SessionThread} {i : ℕ} {t t' : SessionThread}

theorem slots_perm_of_getElem? (h : threads[i]? = some t) :
    (slots threads).Perm (slots [t] ++ slots (threads.eraseIdx i)) := by
  obtain ⟨hi, rfl⟩ := List.getElem?_eq_some_iff.mp h
  have hperm := ((List.getElem_cons_eraseIdx_perm hi).symm.filter holdsSlot).map clientIp
  rwa [← List.singleton_append, List.filter_append, List.map_append] at hperm

theorem slots_set_perm (h : threads[i]? = some t) :
    (slots (threads.set i t')).Perm (slots [t'] ++ slots (threads.eraseIdx i)) := by
  obtain ⟨hi, -⟩ := List.getElem?_eq_some_iff.mp h
  have hperm := ((List.set_perm_cons_eraseIdx hi t').filter holdsSlot).map clientIp
  rwa [← List.singleton_append, List.filter_append, List.map_append] at hperm

theorem slots_of_holdsSlot (h : t.holdsSlot = true) : slots [t] = [t.clientIp] := by
  simp [slots, h]

/-- A thread that goes on keeps its slot. -/
theorem slots_set_of_same (h : threads[i]? = some t) (hs : slots [t'] = slots [t]) :
    (slots (threads.set i t')).Perm (slots threads) := by
  have hset : (slots (threads.set i t')).Perm (slots [t'] ++ _) := slots_set_perm h
  rw [hs] at hset
  exact hset.trans (slots_perm_of_getElem? h).symm

/-- A thread that ends gives its slot back. -/
theorem slots_set_of_returned (h : threads[i]? = some t) (hslot : t.holdsSlot = true) :
    (t.clientIp :: slots (threads.set i { t with stage := .returned })).Perm (slots threads) := by
  have hset : (slots (threads.set i { t with stage := .returned })).Perm _ := slots_set_perm h
  have hall := slots_perm_of_getElem? h
  rw [slots_of_holdsSlot hslot] at hall
  exact (hset.cons _).trans hall.symm

theorem slots_map_shutdown : slots (threads.map shutdown) = slots threads := by
  have hholds : holdsSlot ∘ shutdown = holdsSlot := by
    ext t : 1
    unfold shutdown holdsSlot
    simp only [Function.comp]
    split <;> rfl
  have hip : clientIp ∘ shutdown = clientIp := by
    ext t : 1
    unfold shutdown
    simp only [Function.comp]
    split <;> rfl
  rw [slots, List.filter_map, hholds, List.map_map, hip, slots]

theorem slots_append (clientIp : Bytes) :
    slots (threads ++ [({ clientIp } : SessionThread)]) = slots threads ++ [clientIp] := by
  simp [slots, holdsSlot]

end SessionThread

namespace Listener

variable {s s' : Listener} {ev : ListenerEvent} {tr : List (Listener × ListenerEvent)}
  {maxTotal maxPerIp : ℕ}

theorem balanced_init (maxTotal maxPerIp : ℕ) : Balanced (init maxTotal maxPerIp) :=
  ConnectionLimiter.represents_init maxTotal maxPerIp

/-- A step that leaves the limiter alone and only reorders the holders. -/
theorem Balanced.frame (h : Balanced s) (hl : s'.limiter = s.limiter)
    (hh : s'.holders.Perm s.holders) : Balanced s' := by
  rw [Balanced, hl, Multiset.coe_eq_coe.mpr hh]
  exact h

/-- A step of main that neither takes a slot nor passes one on. -/
theorem Balanced.main (h : Balanced s) (m : AcceptLoop) (hm : m.slot = s.main.slot) :
    Balanced { s with main := m } := by
  refine h.frame rfl ?_
  simp only [holders, hm]
  exact .refl _

theorem Balanced.step (h : Balanced s) (hs : s.step ev = some s') : Balanced s' := by
  obtain ⟨-, hmoves⟩ := step_moves hs
  cases hmoves with
  | asyncWait hm => exact h.main _ (by rw [hm]; rfl)
  | isOpen hm => exact h.main _ (by rw [hm]; split <;> rfl)
  | accept result hm =>
    apply h.main
    rw [hm]
    unfold afterAccept
    split <;> rfl
  | peerGone hm => exact h.main _ (by rw [hm]; rfl)
  | remoteEndpoint clientIp hm =>
    have hholders : s.holders = SessionThread.slots s.sessionThreads := by
      simp [holders, hm, AcceptLoop.slot]
    have hasked : (s.limiter.tryAcquire clientIp).1.Represents _ :=
      ConnectionLimiter.Represents.tryAcquire h
    rw [hholders] at hasked
    unfold Balanced holders
    cases hslot : (s.limiter.tryAcquire clientIp).2 with
    | true =>
      rw [hslot, if_pos rfl] at hasked
      exact hasked
    | false =>
      rw [hslot, if_neg (by simp)] at hasked
      exact hasked
  | close closed hm => exact h.main _ (by rw [hm]; split <;> rfl)
  | spawn clientIp hm =>
    refine h.frame rfl ?_
    simp only [holders, hm, AcceptLoop.slot, SessionThread.slots_append, List.nil_append]
    exact List.perm_append_comm
  | spawnFails clientIp hm =>
    have hholders : s.holders = clientIp :: SessionThread.slots s.sessionThreads := by
      simp [holders, hm, AcceptLoop.slot]
    unfold Balanced at h
    rw [hholders, ← Multiset.cons_coe] at h
    exact h.release
  | iocRun _ => exact h.frame rfl (.refl _)
  | signal _ _ => exact h.frame rfl (.refl _)
  | closeAcceptor _ _ => exact h.frame rfl (.refl _)
  | shutdownAll _ =>
    refine h.frame rfl ?_
    simp only [holders, SessionThread.slots_map_shutdown]
    exact .refl _
  | construct i ht hstage =>
    refine h.frame rfl (.append_left _ (SessionThread.slots_set_of_same ht ?_))
    simp [SessionThread.slots, SessionThread.holdsSlot, hstage]
  | destroy i ht hstage =>
    refine h.frame rfl (.append_left _ (SessionThread.slots_set_of_same ht ?_))
    simp [SessionThread.slots, SessionThread.holdsSlot, hstage]
  | @finish i t ht hstage =>
    have hslot : t.holdsSlot = true := by
      rcases hstage with hstage | hstage <;> simp [SessionThread.holdsSlot, hstage]
    have hless : (s.main.slot ++ (t.clientIp :: SessionThread.slots
        (s.sessionThreads.set i { t with stage := .returned }))).Perm s.holders :=
      (SessionThread.slots_set_of_returned ht hslot).append_left _
    have hperm := List.perm_middle.symm.trans hless
    unfold Balanced at h
    rw [← Multiset.coe_eq_coe.mpr hperm, ← Multiset.cons_coe] at h
    exact h.release

theorem step_limits (hs : s.step ev = some s') : s'.limiter.maxTotal = s.limiter.maxTotal ∧
    s'.limiter.maxPerIp = s.limiter.maxPerIp := by
  obtain ⟨-, hmoves⟩ := step_moves hs
  cases hmoves <;> simp

theorem limits_of_run (hrun : Run step (init maxTotal maxPerIp) tr s) :
    s.limiter.maxTotal = maxTotal ∧ s.limiter.maxPerIp = maxPerIp := by
  apply hrun.invariant
    (I := fun s => s.limiter.maxTotal = maxTotal ∧ s.limiter.maxPerIp = maxPerIp)
  · exact ⟨rfl, rfl⟩
  · rintro s ev s' ⟨htotal, hperIp⟩ hs
    rw [(step_limits hs).1, (step_limits hs).2]
    exact ⟨htotal, hperIp⟩

theorem balanced_of_run (hrun : Run step (init maxTotal maxPerIp) tr s) : Balanced s :=
  hrun.invariant (balanced_init maxTotal maxPerIp) fun _ _ _ h hs => h.step hs

/-- No thread is ever taken out of `session_threads`. -/
theorem step_length (hs : s.step ev = some s') : s'.sessionThreads.length =
    s.sessionThreads.length + if starts (s, ev) = true then 1 else 0 := by
  obtain ⟨-, hmoves⟩ := step_moves hs
  cases hmoves <;> simp [starts]

theorem length_sessionThreads (hrun : Run step (init maxTotal maxPerIp) tr s) :
    s.sessionThreads.length = tr.countP starts := by
  induction hrun with
  | nil => rfl
  | snoc _ hs ih =>
    rw [step_length hs, ih, List.countP_append, List.countP_singleton]

end Listener

section Runs

variable {maxTotal maxPerIp : ℕ} {s : Listener} {tr : List (Listener × ListenerEvent)}

/-- The limiter counts the connections that are admitted and not yet finished, in total and for
each address, keeps both within its limits, and admits exactly below them. -/
theorem slots_of_run (hrun : Run Listener.step (Listener.init maxTotal maxPerIp) tr s) :
    s.limiter.total = s.holders.length ∧ (∀ ip, s.limiter.count ip = s.holders.count ip) ∧
      s.limiter.total ≤ maxTotal ∧ (∀ ip, s.limiter.count ip ≤ maxPerIp) ∧
      ∀ ip, (s.limiter.tryAcquire ip).2 = true ↔
        s.limiter.total < maxTotal ∧ s.limiter.count ip < maxPerIp := by
  have hbalanced : s.limiter.Represents s.holders := Listener.balanced_of_run hrun
  obtain ⟨rfl, rfl⟩ := Listener.limits_of_run hrun
  refine ⟨?_, ?_, hbalanced.total_le, hbalanced.count_le, ?_⟩
  · rw [hbalanced.total, Multiset.coe_card]
  · intro ip
    rw [hbalanced.count, Multiset.coe_count]
    congr
    exact lawful_beq_subsingleton _ _
  · intro ip
    exact ConnectionLimiter.tryAcquire_snd

/-- `session_threads` never outgrows the limit on the connections, if and only if the run starts
no more sessions than that, whether they have ended or not. -/
theorem sessionThreads_le_iff (hrun : Run Listener.step (Listener.init maxTotal maxPerIp) tr s) :
    Throughout (fun s => s.sessionThreads.length ≤ maxTotal) tr s ↔
      tr.countP Listener.starts ≤ maxTotal := by
  apply hrun.throughout_iff_trace
  · intro tr s hrun
    rw [Listener.length_sessionThreads hrun]
  · intro tr tr' h
    rw [List.countP_append] at h
    omega

end Runs

namespace Demo

def clientIp : Bytes := lit "10.0.0.1"

/-- A client is accepted, and gets a session thread. -/
def connect : List ListenerEvent :=
  [.isOpen, .accept (.ok ()), .remoteEndpoint (some clientIp), .spawn true]

/-- One connection is served. -/
theorem slots_of_one_client : ∃ tr s, Run Listener.step (Listener.init 8 2) tr s ∧
    s.limiter.total = 1 ∧ s.limiter.total = s.holders.length := by
  have hexec : (exec Listener.step (Listener.init 8 2) (.asyncWait :: connect)).map
      (fun r => r.2.limiter.total) = some 1 := rfl
  obtain ⟨r, hr, htotal⟩ := Option.map_eq_some_iff.mp hexec
  have hrun := Run.of_exec hr
  exact ⟨_, _, hrun, htotal, (slots_of_run hrun).1⟩

/-- One session is started under a limit of one. -/
theorem sessionThreads_le_of_one_client : ∃ tr s, Run Listener.step (Listener.init 1 1) tr s ∧
    Throughout (fun s => s.sessionThreads.length ≤ 1) tr s := by
  have hexec : (exec Listener.step (Listener.init 1 1) (.asyncWait :: connect)).map
      (fun r => r.1.countP Listener.starts) = some 1 := rfl
  obtain ⟨r, hr, hstarts⟩ := Option.map_eq_some_iff.mp hexec
  have hrun := Run.of_exec hr
  exact ⟨_, _, hrun, (sessionThreads_le_iff hrun).mpr hstarts.le⟩

/-- The second of two sessions starts after the first one has ended. -/
theorem sessionThreads_gt_of_two_clients :
    ¬ ∀ (maxTotal maxPerIp : ℕ) (tr : List (Listener × ListenerEvent)) (s : Listener),
        Run Listener.step (Listener.init maxTotal maxPerIp) tr s →
        s.sessionThreads.length ≤ maxTotal := by
  intro hall
  have hexec : (exec Listener.step (Listener.init 1 1)
      (.asyncWait :: connect ++ .finish 0 :: connect)).map
        (fun r => r.2.sessionThreads.length) = some 2 := rfl
  obtain ⟨r, hr, hlength⟩ := Option.map_eq_some_iff.mp hexec
  have hle := hall 1 1 _ _ (Run.of_exec hr)
  omega

end Demo

end JotaTranscriber
