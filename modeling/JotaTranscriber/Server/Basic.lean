import JotaTranscriber.Family.Count
import JotaTranscriber.Session.Solo
import JotaTranscriber.Whisper.InferenceLimiter
import JotaTranscriber.Whisper.ModelCache

/-! # The server

Any number of sessions on one model cache and one inference limiter. Each step
is a step of one session's threads, answered by what is shared, or the waking
of an unload timer; an exception that leaves a flush thread ends the process.
-/

namespace JotaTranscriber

open Transition

/-- The event is answered by the cache or the limiter, or changes them. -/
def Event.isShared : Event → Bool
  | acquired _ | release | joined | flushLock .. | flushReturn _ => true
  | _ => false

def Flusher.isThrown : Flusher → Bool
  | thrown _ => true
  | _ => false

/-- A flush cycle that starts now gets as far as `try_acquire`. -/
def Threads.asksSlot (t : Threads) (now : ℤ) : Bool :=
  t.flusher = .waiting && t.session.flushRunning && t.receiver ≠ .forcing &&
    (t.session.flushReady now).isSome

structure Server (ι : Type*) where
  sessions : ι → Threads
  cache : ModelCache
  limiter : InferenceLimiter
  /-- An exception has left a flush thread, and `std::terminate` was called. -/
  terminated : Bool := false

inductive ServerEvent (ι : Type*) where
  /-- A step of a session that touches nothing shared. -/
  | thread (i : ι) (ev : Event)
  /-- `ModelCache::acquire`; `loads` tells whether the file holds a model. -/
  | acquire (i : ι) (loads : Bool)
  | flushLock (i : ι) (now : ℤ)
  | flushReturn (i : ι) (whisper : WhisperFull)
  /-- `releaseModel`, at the end of `run` or in the destructor. -/
  | releaseModel (i : ι) (now : ℤ)
  /-- A timer thread wakes up. -/
  | fire (timer : Timer)

namespace Server

variable {ι : Type*}

/-- No session has been accepted yet; the limit and the TTL are those of the configuration. -/
def init (params : ι → SessionParams) (start : ι → ℤ) (ttlSeconds maxConcurrent : ℤ) :
    Server ι where
  sessions i := .init (params i) (start i)
  cache := ModelCache.configure {} ttlSeconds
  limiter := InferenceLimiter.setMaxConcurrency {} maxConcurrent

variable [DecidableEq ι]

def set (S : Server ι) (i : ι) (t : Threads) : Server ι :=
  { S with sessions := Function.update S.sessions i t }

def step (P : Platform) (S : Server ι) (ev : ServerEvent ι) : Option (Server ι) :=
  if S.terminated then none
  else match ev with
  | .thread i ev => if ev.isShared then none else ((S.sessions i).step P ev).map (S.set i)
  | .acquire i loads =>
    let (cache, r) := S.cache.acquire (S.sessions i).session.params.modelPath loads
    ((S.sessions i).step P (.acquired r)).map fun t => { S.set i t with cache }
  | .flushLock i now =>
    if (S.sessions i).asksSlot now then
      let (limiter, slot) := S.limiter.tryAcquire
      ((S.sessions i).step P (.flushLock now slot)).map fun t => { S.set i t with limiter }
    else ((S.sessions i).step P (.flushLock now false)).map (S.set i)
  | .flushReturn i whisper =>
    ((S.sessions i).step P (.flushReturn whisper)).map fun t =>
      if t.flusher.isThrown then { S.set i t with terminated := true }
      else { S.set i t with limiter := S.limiter.release }
  | .releaseModel i now =>
    let ev := if (S.sessions i).receiver = .leaving then Event.release else .joined
    ((S.sessions i).step P ev).map fun t =>
      { S.set i t with
        cache :=
          if (S.sessions i).session.modelAcquired then S.cache.release now else S.cache }
  | .fire timer =>
    if timer ∈ S.cache.timers then some { S with cache := S.cache.fire timer } else none

/-- All that one step of the server can do. -/
inductive Moves (P : Platform) (S : Server ι) : ServerEvent ι → Server ι → Prop where
  | thread {i : ι} {ev : Event} {t : Threads} : ev.isShared = false →
      (S.sessions i).step P ev = some t → Moves P S (.thread i ev) (S.set i t)
  | acquire {i : ι} {loads : Bool} {t : Threads} :
      (S.sessions i).step P
        (.acquired (S.cache.acquire (S.sessions i).session.params.modelPath loads).2) = some t →
      Moves P S (.acquire i loads)
        { S.set i t with
          cache := (S.cache.acquire (S.sessions i).session.params.modelPath loads).1 }
  | flushSkip {i : ι} {now : ℤ} {t : Threads} :
      (S.sessions i).step P (.flushLock now false) = some t →
      ((S.sessions i).asksSlot now = true → S.limiter.maxConcurrent ≤ S.limiter.activeCount) →
      Moves P S (.flushLock i now) (S.set i t)
  | flushLock {i : ι} {now : ℤ} {t : Threads} : (S.sessions i).asksSlot now = true →
      S.limiter.activeCount < S.limiter.maxConcurrent →
      (S.sessions i).step P (.flushLock now true) = some t →
      Moves P S (.flushLock i now)
        { S.set i t with limiter := { S.limiter with activeCount := S.limiter.activeCount + 1 } }
  | flushReturn {i : ι} {whisper : WhisperFull} {t : Threads} : t.flusher.isThrown = false →
      (S.sessions i).step P (.flushReturn whisper) = some t →
      Moves P S (.flushReturn i whisper) { S.set i t with limiter := S.limiter.release }
  | flushThrow {i : ι} {whisper : WhisperFull} {t : Threads} : t.flusher.isThrown = true →
      (S.sessions i).step P (.flushReturn whisper) = some t →
      Moves P S (.flushReturn i whisper) { S.set i t with terminated := true }
  | releaseModel {i : ι} {now : ℤ} {ev : Event} {t : Threads} : ev = .release ∨ ev = .joined →
      (S.sessions i).step P ev = some t →
      Moves P S (.releaseModel i now)
        { S.set i t with
          cache := if (S.sessions i).session.modelAcquired then S.cache.release now else S.cache }
  | fire {timer : Timer} : timer ∈ S.cache.timers →
      Moves P S (.fire timer) { S with cache := S.cache.fire timer }

variable {P : Platform} {S S' : Server ι} {ev : ServerEvent ι}

theorem step_moves (h : S.step P ev = some S') : S.terminated = false ∧ Moves P S ev S' := by
  unfold step at h
  split at h
  · cases h
  · refine ⟨by simpa using ‹¬ S.terminated = true›, ?_⟩
    split at h
    · split at h
      · cases h
      · obtain ⟨t, ht, rfl⟩ := Option.map_eq_some_iff.mp h
        exact .thread (by simpa using ‹¬ _ = true›) ht
    · obtain ⟨t, ht, rfl⟩ := Option.map_eq_some_iff.mp h
      exact .acquire ht
    · split at h
      · rename_i i now hasks
        rcases S.limiter.tryAcquire_cases with ⟨hlt, hacq⟩ | ⟨hle, hacq⟩
        all_goals
          rw [hacq] at h
          obtain ⟨t, ht, rfl⟩ := Option.map_eq_some_iff.mp h
        · exact .flushLock hasks hlt ht
        · exact .flushSkip ht fun _ => hle
      · obtain ⟨t, ht, rfl⟩ := Option.map_eq_some_iff.mp h
        exact .flushSkip ht fun hasks => absurd hasks ‹_›
    · obtain ⟨t, ht, rfl⟩ := Option.map_eq_some_iff.mp h
      split
      · exact .flushThrow ‹_› ht
      · exact .flushReturn (by simpa using ‹¬ _ = true›) ht
    · obtain ⟨t, ht, rfl⟩ := Option.map_eq_some_iff.mp h
      exact .releaseModel (ite_eq_or_eq _ _ _) ht
    · split at h
      · cases h
        exact .fire ‹_›
      · cases h

/-- The other sessions stay as they are. -/
theorem set_apply_of_ne {i j : ι} {t : Threads} (h : j ≠ i) :
    (S.set i t).sessions j = S.sessions j := Function.update_of_ne h _ _

@[simp] theorem set_apply_self {i : ι} {t : Threads} : (S.set i t).sessions i = t :=
  Function.update_self _ _ _

/-- A step of the server is a step of one session, if any. -/
theorem Moves.session (h : Moves P S ev S') (j : ι) :
    S'.sessions j = S.sessions j ∨ ∃ e, (S.sessions j).step P e = some (S'.sessions j) := by
  have hset {i : ι} {e : Event} {t : Threads} (ht : (S.sessions i).step P e = some t) :
      (S.set i t).sessions j = S.sessions j ∨
        ∃ e, (S.sessions j).step P e = some ((S.set i t).sessions j) := by
    rcases eq_or_ne j i with rfl | hne
    · exact .inr ⟨e, by rw [set_apply_self]; exact ht⟩
    · exact .inl (set_apply_of_ne hne)
  cases h with
  | thread _ ht => exact hset ht
  | acquire ht => exact hset ht
  | flushSkip ht _ => exact hset ht
  | flushLock _ _ ht => exact hset ht
  | flushReturn _ ht => exact hset ht
  | flushThrow _ ht => exact hset ht
  | releaseModel _ ht => exact hset ht
  | fire _ => exact .inl rfl

/-- What every step of a session keeps holds of every session of the server. -/
theorem Moves.session_invariant {I : Threads → Prop}
    (hI : ∀ t e t', I t → t.step P e = some t' → I t') (h : Moves P S ev S')
    (hS : ∀ i, I (S.sessions i)) (i : ι) : I (S'.sessions i) := by
  rcases h.session i with heq | ⟨e, he⟩
  · rw [heq]
    exact hS i
  · exact hI _ _ _ (hS i) he

@[simp] theorem set_self (S : Server ι) (i : ι) : S.set i (S.sessions i) = S := by
  rw [set, Function.update_eq_self]

@[simp] theorem set_set {i : ι} {t t' : Threads} : (S.set i t).set i t' = S.set i t' := by
  simp only [set, Function.update_idem]

/-- A run of one session that touches nothing shared is a run of the server. -/
theorem run_thread {i : ι} {tr : List (Threads × Event)} {t : Threads}
    (h : Run (Threads.step P) (S.sessions i) tr t) (hlive : S.terminated = false)
    (hev : ∀ p ∈ tr, p.2.isShared = false) :
    Run (step P) S (tr.map fun p => (S.set i p.1, .thread i p.2)) (S.set i t) := by
  induction h with
  | nil => simpa using Run.nil
  | @snoc tr t t' e _ hs ih =>
    rw [List.forall_mem_append, List.forall_mem_singleton] at hev
    have hlive' : (S.set i t).terminated = false := hlive
    rw [List.map_append]
    apply (ih hev.1).snoc
    simp only [step, hlive', Bool.false_eq_true, if_false, hev.2, set_apply_self, hs,
      Option.map_some, set_set]

variable {params : ι → SessionParams} {start : ι → ℤ} {ttl n : ℤ}

omit [DecidableEq ι] in
/-- No session meets at the start what no new session does. -/
theorem count_init [Fintype ι] {p : Threads → Prop} [DecidablePred p]
    (h : ∀ params now, ¬ p (.init params now)) :
    Family.count p (init params start ttl n).sessions = 0 :=
  Family.count_eq_zero_iff.mpr fun _ => h _ _

/-- The sessions stay consistent when one of them makes a step. -/
theorem consistent_set (hc : ∀ j, (S.sessions j).Consistent) {i : ι} {e : Event} {t : Threads}
    (ht : (S.sessions i).step P e = some t) (j : ι) : ((S.set i t).sessions j).Consistent := by
  rcases eq_or_ne j i with rfl | hne
  · rw [set_apply_self]
    exact (hc j).step ht
  · rw [set_apply_of_ne hne]
    exact hc j

theorem consistent_of_reachable (h : Reachable (step P) (init params start ttl n) S) (i : ι) :
    (S.sessions i).Consistent := by
  refine h.invariant (I := fun S => ∀ i, (S.sessions i).Consistent)
    (fun i => Threads.consistent_init _ _) ?_ i
  exact fun S ev S' hS hs =>
    (step_moves hs).2.session_invariant (fun t e t' h hs => h.step hs) hS

end Server

namespace Demo

/-- A server with a limit of one inference at a time. -/
def server (ι : Type) : Server ι := .init (fun _ => params) (fun _ => 0) 300 1

/-- A config message of one session, handled at once. -/
def configEvents {ι : Type} (i : ι) : List (ServerEvent ι) :=
  [.thread i (.text (lit "config") fun _ => true), .acquire i true, .thread i (.install true 0),
    .thread i .write]

end Demo

end JotaTranscriber
