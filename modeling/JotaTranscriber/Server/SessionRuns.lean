import JotaTranscriber.Server.References
import JotaTranscriber.Session.ConfigFailure

/-! # The sessions of a run of the server

A run of the server is, for each of its sessions, a run of the two threads of
that session, answered by the cache and the limiter. What holds of every run of
a session holds of the sessions of a server; and the cache counts exactly the
references that they have taken and not given back.
-/

namespace JotaTranscriber

open Transition

namespace Server

variable {ι : Type*} [DecidableEq ι] {P : Platform} {S S' : Server ι} {ev : ServerEvent ι}
  {i : ι} {tr tr' : List (Server ι × ServerEvent ι)}

/-- The step that a step of the server makes the session `i` take, if any. -/
def sessionEvent (S : Server ι) (i : ι) : ServerEvent ι → Option Event
  | .thread j ev => if j = i then some ev else none
  | .acquire j loads =>
    if j = i then
      some (.acquired (S.cache.acquire (S.sessions i).session.params.modelPath loads).2)
    else none
  | .flushLock j now =>
    if j = i then
      some (.flushLock now
        ((S.sessions i).asksSlot now && decide (S.limiter.activeCount < S.limiter.maxConcurrent)))
    else none
  | .flushReturn j whisper => if j = i then some (.flushReturn whisper) else none
  | .releaseModel j _ =>
    if j = i then some (if (S.sessions i).receiver = .leaving then .release else .joined) else none
  | .fire _ => none

/-- The trace of the session `i`. -/
def sessionTrace (i : ι) (tr : List (Server ι × ServerEvent ι)) : List (Threads × Event) :=
  tr.filterMap fun p => (p.1.sessionEvent i p.2).map fun ev => (p.1.sessions i, ev)

theorem sessionTrace_append :
    sessionTrace i (tr ++ tr') = sessionTrace i tr ++ sessionTrace i tr' :=
  List.filterMap_append

theorem sessionTrace_singleton : sessionTrace i [(S, ev)] =
    ((S.sessionEvent i ev).map fun e => (S.sessions i, e)).toList := by
  cases h : S.sessionEvent i ev <;> simp [sessionTrace, h]

/-- A step of the server leaves a session alone or is a step of it. -/
theorem Moves.step_session (h : Moves P S ev S') (i : ι) :
    (S.sessionEvent i ev = none ∧ S'.sessions i = S.sessions i) ∨
      ∃ e, S.sessionEvent i ev = some e ∧ (S.sessions i).step P e = some (S'.sessions i) := by
  have hset {j : ι} {e : Event} {t : Threads} (ht : (S.sessions j).step P e = some t)
      (hself : S.sessionEvent j ev = some e)
      (hother : i ≠ j → S.sessionEvent i ev = none) (hS' : S'.sessions = (S.set j t).sessions) :
      (S.sessionEvent i ev = none ∧ S'.sessions i = S.sessions i) ∨
        ∃ e, S.sessionEvent i ev = some e ∧ (S.sessions i).step P e = some (S'.sessions i) := by
    rw [hS']
    rcases eq_or_ne i j with rfl | hne
    · exact .inr ⟨e, hself, by rw [set_apply_self]; exact ht⟩
    · exact .inl ⟨hother hne, set_apply_of_ne hne⟩
  cases h with
  | thread _ ht => exact hset ht (if_pos rfl) (fun hne => if_neg hne.symm) rfl
  | acquire ht => exact hset ht (if_pos rfl) (fun hne => if_neg hne.symm) rfl
  | @flushSkip j now t ht hfull =>
    refine hset ht ?_ (fun hne => if_neg hne.symm) rfl
    have hslot : ((S.sessions j).asksSlot now &&
        decide (S.limiter.activeCount < S.limiter.maxConcurrent)) = false := by
      rw [Bool.and_eq_false_imp]
      intro hasks
      simpa using hfull hasks
    rw [sessionEvent, if_pos rfl, hslot]
  | flushLock hasks hlt ht =>
    refine hset ht ?_ (fun hne => if_neg hne.symm) rfl
    simp [sessionEvent, hasks, hlt]
  | flushReturn _ ht => exact hset ht (if_pos rfl) (fun hne => if_neg hne.symm) rfl
  | flushThrow _ ht => exact hset ht (if_pos rfl) (fun hne => if_neg hne.symm) rfl
  | @releaseModel j now e t he ht =>
    refine hset ht ?_ (fun hne => if_neg hne.symm) rfl
    rw [sessionEvent, if_pos rfl]
    rcases he with rfl | rfl <;> generalize S.sessions j = u at ht ⊢ <;>
      cases Threads.step_moves ht <;> rfl
  | fire _ => exact .inl ⟨rfl, rfl⟩

/-- The trace of a session in a run of the server is a run of its threads. -/
theorem run_session (hrun : Run (step P) S tr S') (i : ι) :
    Run (Threads.step P) (S.sessions i) (sessionTrace i tr) (S'.sessions i) := by
  induction hrun with
  | nil => exact .nil
  | @snoc tr S₁ S₂ ev _ hs ih =>
    rw [sessionTrace_append, sessionTrace_singleton]
    rcases (step_moves hs).2.step_session i with ⟨hnone, hsame⟩ | ⟨e, hsome, ht⟩
    · rw [hnone, hsame]
      simpa using ih
    · rw [hsome]
      exact ih.snoc ht

variable [Fintype ι]

/-- Only the session that takes the step takes or gives back a reference. -/
theorem sum_references_singleton {e : Event} (hself : S.sessionEvent i ev = some e)
    (hother : ∀ j, j ≠ i → S.sessionEvent j ev = none) :
    ∑ j, references (sessionTrace j [(S, ev)]) = references [(S.sessions i, e)] := by
  rw [Finset.sum_eq_single i]
  · rw [sessionTrace_singleton, hself]
    rfl
  · intro j _ hne
    rw [sessionTrace_singleton, hother j hne]
    rfl
  · intro hi
    exact absurd (Finset.mem_univ i) hi

variable {path : Bytes} {leaked : ℕ}

/-- A step moves the count of the cache by what its session takes or gives back. -/
theorem Counted.refCount_step (h : Counted path leaked S)
    (hp : ∀ i, (S.sessions i).session.params.modelPath = path) (hm : Moves P S ev S') :
    S'.cache.refCount = S.cache.refCount + ∑ j, references (sessionTrace j [(S, ev)]) := by
  have hquiet {i : ι} {e : Event} (hself : S.sessionEvent i ev = some e)
      (hother : ∀ j, j ≠ i → S.sessionEvent j ev = none) (htakes : e.takes = false)
      (hgives : (S.sessions i).gives e = false) (hcache : S'.cache = S.cache) :
      S'.cache.refCount = S.cache.refCount + ∑ j, references (sessionTrace j [(S, ev)]) := by
    rw [sum_references_singleton hself hother, references_singleton, htakes, hgives, hcache]
    simp
  cases hm with
  | @thread i e t hshared ht =>
    have hcounts : e.takes = false ∧ (S.sessions i).gives e = false := by
      cases e <;> first | exact ⟨rfl, rfl⟩ | cases hshared
    exact hquiet (if_pos rfl) (fun j hne => if_neg hne.symm) hcounts.1 hcounts.2 rfl
  | @acquire i loads t ht =>
    have hself : S.sessionEvent i (.acquire i loads) = some (.acquired _) := if_pos rfl
    rw [sum_references_singleton hself fun j hne => if_neg hne.symm, references_singleton, hp i]
    rcases ModelCache.acquire_cases h.wellFormed loads with
      ⟨ctx, hr, -, hcount, -⟩ | ⟨x, hr, -, -, hcount⟩
    · rw [hr, hcount]
      rfl
    · rw [hr, hcount]
      exact (add_zero _).symm
  | flushSkip _ _ => exact hquiet (if_pos rfl) (fun j hne => if_neg hne.symm) rfl rfl rfl
  | flushLock _ _ _ => exact hquiet (if_pos rfl) (fun j hne => if_neg hne.symm) rfl rfl rfl
  | flushReturn _ _ => exact hquiet (if_pos rfl) (fun j hne => if_neg hne.symm) rfl rfl rfl
  | flushThrow _ _ => exact hquiet (if_pos rfl) (fun j hne => if_neg hne.symm) rfl rfl rfl
  | @releaseModel i now e t he ht =>
    have hself : S.sessionEvent i (.releaseModel i now) = some _ := if_pos rfl
    rw [sum_references_singleton hself fun j hne => if_neg hne.symm, references_singleton]
    have hgives : (S.sessions i).gives
        (if (S.sessions i).receiver = .leaving then .release else .joined) =
          (S.sessions i).session.modelAcquired := by split <;> rfl
    have htakes : (if (S.sessions i).receiver = .leaving then Event.release
        else .joined).takes = false := by split <;> rfl
    rw [hgives, htakes]
    cases hm : (S.sessions i).session.modelAcquired with
    | false => simp
    | true =>
      have hpos := h.refCount_pos (i := i) (by simp [Threads.holdsReference, hm])
      simp only [if_true]
      rw [ModelCache.release_refCount h.wellFormed hpos]
      simp [sub_eq_add_neg]
  | @fire timer _ =>
    have hnone : ∑ j, references (sessionTrace j [(S, .fire timer)]) = 0 :=
      Finset.sum_eq_zero fun j _ => rfl
    rw [hnone, add_zero]
    exact ModelCache.fire_refCount

/-- Along a run the cache counts what all sessions together have taken and not given back. -/
theorem refCount_eq_sum_references {params : ι → SessionParams} {start : ι → ℤ} {ttl n : ℤ}
    (hpath : ∀ i, (params i).modelPath = path)
    (hrun : Run (step P) (init params start ttl n) tr S) :
    S.cache.refCount = ∑ i, references (sessionTrace i tr) := by
  induction hrun with
  | nil => simp [init, ModelCache.configure, sessionTrace, references]
  | @snoc tr S₁ S₂ ev hr hs ih =>
    rw [(counted_of_run hpath hr).refCount_step (modelPath_of_reachable hpath ⟨tr, hr⟩)
      (step_moves hs).2, ih, ← Finset.sum_add_distrib]
    apply Finset.sum_congr rfl
    intro i _
    rw [sessionTrace_append, references_append]

end Server

end JotaTranscriber
