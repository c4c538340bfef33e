import JotaTranscriber.Server.Basic
import JotaTranscriber.Session.References

/-! # The references to the model

The cache counts the sessions with a reference, and one more for every config
of a session that had a reference already; it always holds the context that the
engines of all sessions are built on.
-/

namespace JotaTranscriber

open Transition

namespace Server

variable {ι : Type*} [DecidableEq ι] {P : Platform} {S S' : Server ι} {ev : ServerEvent ι}
  {path : Bytes} {leaked : ℕ}

/-- The step acquires the model for a session that has a reference already. -/
def Leaks (S : Server ι) : ServerEvent ι → Bool
  | .acquire i _ => (S.sessions i).session.modelAcquired
  | _ => false

/-- What a session uses after a step of one session. -/
theorem uses_update {i j : ι} {e : Event} {t : Threads} {ctx : WhisperContext}
    (ht : (S.sessions i).step P e = some t)
    (hu : (Function.update S.sessions i t j).Uses ctx) :
    (S.sessions j).Uses ctx ∨ (j = i ∧ e = .acquired (.ok ctx)) := by
  rcases eq_or_ne j i with rfl | hne
  · rw [Function.update_self] at hu
    exact (Threads.step_uses hu ht).imp_right fun he => ⟨rfl, he⟩
  · rw [Function.update_of_ne hne] at hu
    exact .inl hu

variable [Fintype ι]

/-- What the cache has to do with the sessions, when so many references have leaked. -/
structure Counted (path : Bytes) (leaked : ℕ) (S : Server ι) : Prop where
  wellFormed : S.cache.WellFormed path
  refCount : S.cache.refCount =
    Family.count (fun t : Threads => t.holdsReference = true) S.sessions + leaked
  uses : ∀ i ctx, (S.sessions i).Uses ctx → S.cache.ctx = some ctx

theorem Counted.refCount_pos (h : Counted path leaked S) {i : ι}
    (hi : (S.sessions i).holdsReference = true) : 0 < S.cache.refCount := by
  have := Family.count_pos (p := fun t : Threads => t.holdsReference = true) hi
  rw [h.refCount]
  omega

/-- A step of one session that neither takes nor gives back a reference. -/
theorem Counted.thread (h : Counted path leaked S) {i : ι} {e : Event} {t : Threads}
    (he : e.countsReference = false) (ht : (S.sessions i).step P e = some t)
    (hsessions : S'.sessions = Function.update S.sessions i t) (hcache : S'.cache = S.cache) :
    Counted path leaked S' where
  wellFormed := by rw [hcache]; exact h.wellFormed
  refCount := by
    rw [hcache, hsessions, Family.count_update_of_iff (by rw [Threads.step_holdsReference he ht])]
    exact h.refCount
  uses j ctx hu := by
    rw [hcache]
    rw [hsessions] at hu
    rcases uses_update ht hu with hu | ⟨_, rfl⟩
    · exact h.uses j ctx hu
    · cases he

theorem Counted.acquire (h : Counted path leaked S) {i : ι} {loads : Bool} {t : Threads}
    (ht : (S.sessions i).step P (.acquired (S.cache.acquire path loads).2) = some t) :
    Counted path (leaked + if (S.sessions i).session.modelAcquired then 1 else 0)
      { S.set i t with cache := (S.cache.acquire path loads).1 } := by
  rcases ModelCache.acquire_cases h.wellFormed loads with
    ⟨ctx, hr, hctx, hcount, hsame⟩ | ⟨x, hr, hnone, hctx, hcount⟩
  · rw [hr] at ht
    obtain ⟨hafter, hbefore⟩ := Threads.step_acquired_ok ht
    refine ⟨h.wellFormed.acquire loads, ?_, fun j ctx' hu => ?_⟩
    · have hupdate := Family.count_update (p := fun t : Threads => t.holdsReference = true)
        (f := S.sessions) (i := i) (a := t)
      have := h.refCount
      simp only [hafter, hbefore, if_true] at hupdate
      simp only [set]
      split at hupdate <;> simp_all <;> omega
    · rcases uses_update ht hu with hu | ⟨_, hctx'⟩
      · rw [hsame ctx' (h.uses j ctx' hu)]
        exact hctx
      · cases hctx'
        exact hctx
  · have hunused {j : ι} {ctx : WhisperContext} : ¬ (S.sessions j).Uses ctx := by
      intro hu
      have := h.uses j ctx hu
      rw [hnone] at this
      cases this
    -- a session with a reference finds the model loaded
    have hnot : (S.sessions i).session.modelAcquired = false := by
      by_contra hm
      have hpos := h.refCount_pos (i := i) (by simp [Threads.holdsReference, hm])
      rw [h.wellFormed.refCount_none hnone] at hpos
      omega
    rw [hr] at ht
    refine ⟨h.wellFormed.acquire loads, ?_, fun j ctx' hu => ?_⟩
    · rw [hnot]
      simp only [hcount, set, h.refCount]
      rw [Family.count_update_of_iff (by rw [Threads.step_holdsReference rfl ht])]
      simp
    · rcases uses_update ht hu with hu | ⟨_, hctx'⟩
      · exact absurd hu hunused
      · cases hctx'

theorem Counted.releaseModel (h : Counted path leaked S) {i : ι} {e : Event} {t : Threads}
    {now : ℤ} (hc : ∀ i, (S.sessions i).Consistent) (he : e = .release ∨ e = .joined)
    (ht : (S.sessions i).step P e = some t) :
    Counted path leaked
      { S.set i t with
        cache :=
          if (S.sessions i).session.modelAcquired then S.cache.release now else S.cache } := by
  obtain ⟨hafter, hbefore⟩ := Threads.step_release (hc i) he ht
  have huses {j : ι} {ctx : WhisperContext} (hu : ((S.set i t).sessions j).Uses ctx) :
      S.cache.ctx = some ctx := by
    rcases uses_update ht hu with hu | ⟨_, hacq⟩
    · exact h.uses j ctx hu
    · subst hacq
      rcases he with he | he <;> cases he
  cases hm : (S.sessions i).session.modelAcquired with
  | false =>
    refine ⟨h.wellFormed, ?_, fun j ctx hu => huses hu⟩
    simp only [set]
    rw [Family.count_update_of_iff (by rw [hafter, hbefore, hm])]
    exact h.refCount
  | true =>
    have hleave := Family.count_update_leave (p := fun t : Threads => t.holdsReference = true)
      (f := S.sessions) (i := i) (a := t) (by rw [hbefore, hm]) (by simp [hafter])
    have hpos := h.refCount_pos (i := i) (by rw [hbefore, hm])
    have hcount := h.refCount
    refine ⟨h.wellFormed.release, ?_, fun j ctx hu => ?_⟩
    · simp only [set, if_true]
      rw [ModelCache.release_refCount h.wellFormed hpos]
      omega
    · have hj : ((S.set i t).sessions j).holdsReference = true :=
        hu.holdsReference (consistent_set hc ht j)
      have hothers := Family.count_pos (p := fun t : Threads => t.holdsReference = true) hj
      simp only [set] at hothers
      simp only [if_true]
      rw [ModelCache.release_ctx (by omega)]
      exact huses hu

theorem Counted.fire (h : Counted path leaked S) {timer : Timer}
    (hc : ∀ i, (S.sessions i).Consistent) :
    Counted path leaked { S with cache := S.cache.fire timer } where
  wellFormed := h.wellFormed.fire
  refCount := ModelCache.fire_refCount.trans h.refCount
  uses j ctx hu := by
    rw [(ModelCache.fire_ctx (h.refCount_pos (hu.holdsReference (hc j)))).1]
    exact h.uses j ctx hu

theorem Counted.step (h : Counted path leaked S) (hc : ∀ i, (S.sessions i).Consistent)
    (hp : ∀ i, (S.sessions i).session.params.modelPath = path) (hm : Moves P S ev S') :
    Counted path (leaked + if Leaks S ev then 1 else 0) S' := by
  cases hm with
  | @thread i e t hshared ht =>
    exact h.thread (by cases e <;> first | rfl | cases hshared) ht rfl rfl
  | acquire ht =>
    rw [hp] at ht ⊢
    exact h.acquire ht
  | flushSkip ht _ => exact h.thread rfl ht rfl rfl
  | flushLock _ _ ht => exact h.thread rfl ht rfl rfl
  | flushReturn _ ht => exact h.thread rfl ht rfl rfl
  | flushThrow _ ht => exact h.thread rfl ht rfl rfl
  | releaseModel he ht => exact h.releaseModel hc he ht
  | fire _ => exact h.fire hc

section Runs

variable {params : ι → SessionParams} {start : ι → ℤ} {ttl n : ℤ}
  {tr : List (Server ι × ServerEvent ι)}

omit [DecidableEq ι] in
theorem counted_init : Counted path 0 (init params start ttl n) where
  wellFormed := ModelCache.WellFormed.init ttl
  refCount := by
    rw [count_init fun params now => by
      simp [Threads.init, Threads.holdsReference, Receiver.isInstalling]]
    rfl
  uses i ctx hu := by
    rcases hu with ⟨e, he, _⟩ | ⟨v, hv⟩
    · cases he
    · cases hv

omit [Fintype ι] in
theorem modelPath_of_reachable (hpath : ∀ i, (params i).modelPath = path)
    (h : Reachable (step P) (init params start ttl n) S) (i : ι) :
    (S.sessions i).session.params.modelPath = path := by
  refine h.invariant (I := fun S => ∀ i, (S.sessions i).session.params.modelPath = path)
    hpath ?_ i
  exact fun S ev S' hS hs => (step_moves hs).2.session_invariant
    (I := fun t => t.session.params.modelPath = path)
    (fun t e t' h hs => by rw [Threads.step_params hs]; exact h) hS

/-- Along a run the cache counts the sessions with a reference and the leaked references. -/
theorem counted_of_run (hpath : ∀ i, (params i).modelPath = path)
    (hrun : Run (step P) (init params start ttl n) tr S) :
    Counted path (tr.countP fun p => Leaks p.1 p.2) S := by
  induction hrun with
  | nil => exact counted_init
  | @snoc tr S S' ev hr hs ih =>
    have h := ih.step (consistent_of_reachable ⟨tr, hr⟩) (modelPath_of_reachable hpath ⟨tr, hr⟩)
      (step_moves hs).2
    rw [List.countP_append]
    simpa only [List.countP_singleton] using h

/-- With no config in progress the cache counts exactly the sessions that hold the model if and only
if no session acquired it while holding it; then the count is zero once all sessions have ended. -/
theorem refCount_eq_iff (hpath : ∀ i, (params i).modelPath = path)
    (hrun : Run (step P) (init params start ttl n) tr S)
    (hidle : ∀ i, (S.sessions i).receiver.isInstalling = false) :
    (S.cache.refCount =
        Family.count (fun t : Threads => t.session.modelAcquired = true) S.sessions ↔
      ∀ p ∈ tr, Leaks p.1 p.2 = false) ∧
    ((∀ i, (S.sessions i).receiver.released = true) →
      (S.cache.refCount = 0 ↔ ∀ p ∈ tr, Leaks p.1 p.2 = false)) := by
  have hcount : Family.count (fun t : Threads => t.holdsReference = true) S.sessions =
      Family.count (fun t : Threads => t.session.modelAcquired = true) S.sessions := by
    apply Finset.sum_congr rfl
    intro i _
    simp only [Threads.holdsReference, hidle i, Bool.or_false]
  have hleaks : tr.countP (fun p => Leaks p.1 p.2) = 0 ↔ ∀ p ∈ tr, Leaks p.1 p.2 = false := by
    simp [List.countP_eq_zero]
  have href := (counted_of_run hpath hrun).refCount
  rw [hcount] at href
  have heq : S.cache.refCount =
      Family.count (fun t : Threads => t.session.modelAcquired = true) S.sessions ↔
      ∀ p ∈ tr, Leaks p.1 p.2 = false := by
    rw [← hleaks]
    omega
  refine ⟨heq, fun hended => ?_⟩
  have hzero : Family.count (fun t : Threads => t.session.modelAcquired = true) S.sessions = 0 :=
    Family.count_eq_zero_iff.mpr fun i => by
      simp [(consistent_of_reachable ⟨tr, hrun⟩ i).released (hended i)]
  rw [← heq, hzero]
  rfl

/-- Whenever a session has an engine, the context it was built on is allocated and is the one the
cache holds; so no flush thread and no `handleEnd` infers on a context that was freed. -/
theorem engine_ctx_live (hpath : ∀ i, (params i).modelPath = path)
    (h : Reachable (step P) (init params start ttl n) S) (i : ι) :
    (∀ e, (S.sessions i).session.engine = some e →
      S.cache.ctx = some e.ctx ∧ e.ctx ∈ S.cache.live) ∧
    ∀ m, (S.sessions i).flusher = .inferring m →
      ∃ e, (S.sessions i).session.engine = some e ∧ e.ctx ∈ S.cache.live := by
  have hc := consistent_of_reachable h i
  obtain ⟨tr, hrun⟩ := h
  have hcounted := counted_of_run hpath hrun
  have hlive : ∀ e, (S.sessions i).session.engine = some e →
      S.cache.ctx = some e.ctx ∧ e.ctx ∈ S.cache.live := by
    intro e he
    have hctx := hcounted.uses i e.ctx (.inl ⟨e, he, rfl⟩)
    exact ⟨hctx, hcounted.wellFormed.ctx_live _ hctx⟩
  refine ⟨hlive, fun m hm => ?_⟩
  obtain ⟨e, he, _⟩ := hc.inferring m hm
  exact ⟨e, he, (hlive e he).2⟩

end Runs

end Server

namespace Demo

/-- A session that is configured twice leaves a reference behind. -/
theorem refCount_ne_of_two_configs :
    ¬ ∀ (ι : Type) [Fintype ι] [DecidableEq ι] (P : Platform) (params : ι → SessionParams)
        (start : ι → ℤ) (ttl n : ℤ) (path : Bytes) (tr : List (Server ι × ServerEvent ι))
        (S : Server ι), (∀ i, (params i).modelPath = path) →
        Run (Server.step P) (.init params start ttl n) tr S →
        (∀ i, (S.sessions i).receiver.isInstalling = false) →
        S.cache.refCount =
          Family.count (fun t : Threads => t.session.modelAcquired = true) S.sessions := by
  intro h
  obtain ⟨tr, S, hrun, href, hcount, hidle⟩ : ∃ tr S,
      exec (Server.step platform) (server Unit) (configEvents () ++ configEvents ()) =
        some (tr, S) ∧ S.cache.refCount = 2 ∧
      Family.count (fun t : Threads => t.session.modelAcquired = true) S.sessions = 1 ∧
      ∀ i, (S.sessions i).receiver.isInstalling = false := ⟨_, _, rfl, rfl, rfl, fun _ => rfl⟩
  have := h Unit platform (fun _ => params) (fun _ => 0) 300 1 params.modelPath tr S (fun _ => rfl)
    (.of_exec hrun) hidle
  rw [href, hcount] at this
  omega

theorem shared_modelPath : ∀ i : Unit, ((fun _ => params) i).modelPath = params.modelPath :=
  fun _ => rfl

theorem refCount_of_one_config : ∃ tr S,
    exec (Server.step platform) (server Unit) (configEvents ()) = some (tr, S) ∧
      S.cache.refCount =
        Family.count (fun t : Threads => t.session.modelAcquired = true) S.sessions := by
  obtain ⟨tr, S, hrun, hidle, hleaks⟩ : ∃ tr S,
      exec (Server.step platform) (server Unit) (configEvents ()) = some (tr, S) ∧
      (∀ i, (S.sessions i).receiver.isInstalling = false) ∧
      ∀ p ∈ tr, Server.Leaks p.1 p.2 = false :=
    ⟨_, _, rfl, fun _ => rfl, by simp [Server.Leaks]; rfl⟩
  exact ⟨tr, S, hrun,
    (Server.refCount_eq_iff shared_modelPath (Run.of_exec hrun) hidle).1.mpr hleaks⟩

theorem engine_ctx_live_of_one_config : ∃ tr S e,
    exec (Server.step platform) (server Unit) (configEvents ()) = some (tr, S) ∧
      (S.sessions ()).session.engine = some e ∧ S.cache.ctx = some e.ctx := by
  obtain ⟨tr, S, e, hrun, he⟩ : ∃ tr S e,
      exec (Server.step platform) (server Unit) (configEvents ()) = some (tr, S) ∧
      (S.sessions ()).session.engine = some e := ⟨_, _, _, rfl, rfl⟩
  exact ⟨tr, S, e, hrun, he,
    ((Server.engine_ctx_live shared_modelPath ⟨tr, Run.of_exec hrun⟩ ()).1 e he).1⟩

end Demo

end JotaTranscriber
