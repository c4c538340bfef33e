import JotaTranscriber.Auth.Provenance
import JotaTranscriber.Store.LazyExpiry

/-! # The cache and its history

The cache drops an answer when it is looked up too late, and a later store
replaces an earlier one. Of all that, a call of `validate` sees only this: the
last answer that any call stored for its token, if it is younger than the TTL.
-/

namespace JotaTranscriber

open Transition Store

/-- When a step looks at the clock. -/
def ValidateEvent.time {ι : Type*} : ValidateEvent ι → Option ℤ
  | get _ now | put _ now => some now
  | _ => none

/-- The last answer that was stored for each token, and when it expires. -/
def lastStored {ι : Type*} (ttlSeconds : ℤ) (tr : List (Validations ι × ValidateEvent ι)) :
    Bytes → Option CacheEntry :=
  tr.foldl (fun m p =>
    match p.2 with
    | .put i now =>
      match p.1.calls i with
      | .storing token isValid =>
        Function.update m token (some { isValid, expiresAt := now + ttlSeconds * 1000000000 })
      | _ => m
    | _ => m) fun _ => none

namespace AuthCache

variable {c : AuthCache} {m : Bytes → Option CacheEntry} {token : Bytes} {now : ℤ}

/-- A lookup finds a live entry, and drops one that is not. -/
theorem get_eq (c : AuthCache) (token : Bytes) (now : ℤ) :
    (c.get token now).2 = (live CacheEntry.expiresAt c.entries token now).map CacheEntry.isValid ∧
      ((c.get token now).1.entries = c.entries ∨
        live CacheEntry.expiresAt c.entries token now = none ∧
          (c.get token now).1.entries = Function.update c.entries token none) := by
  unfold get live
  cases h : c.entries token with
  | none => simp
  | some entry =>
    by_cases hle : entry.expiresAt ≤ now
    · simp [hle]
    · simp [hle, not_le.mp hle]

theorem get_trims (h : Trims CacheEntry.expiresAt now c.entries m) :
    Trims CacheEntry.expiresAt now (c.get token now).1.entries m := by
  rcases (c.get_eq token now).2 with heq | ⟨hdead, heq⟩ <;> rw [heq]
  · exact h
  · exact h.drop hdead

end AuthCache

namespace Validations

variable {ι : Type*} [DecidableEq ι] {parse : Bytes → Except Exn Json} {config : ApiAuthConfig}
  {V V' : Validations ι} {ev : ValidateEvent ι} {tr : List (Validations ι × ValidateEvent ι)}
  {i : ι} {token : Bytes} {now clock : ℤ}

/-- The times at which a run has looked at the clock. -/
def times (tr : List (Validations ι × ValidateEvent ι)) : List ℤ :=
  tr.filterMap fun p => p.2.time

/-- The cache is the history without what has expired. -/
def Remembers (ttlSeconds : ℤ) (tr : List (Validations ι × ValidateEvent ι)) (V : Validations ι) :
    Prop :=
  ∀ clock, (∀ time ∈ times tr, time ≤ clock) →
    Trims CacheEntry.expiresAt clock V.manager.cache.entries (lastStored ttlSeconds tr)

omit [DecidableEq ι] in
theorem times_snoc : times (tr ++ [(V, ev)]) = times tr ++ ev.time.toList := by
  cases h : ev.time <;> simp [times, h]

omit [DecidableEq ι] in
theorem lastStored_snoc {ttl : ℤ} (hput : ∀ i now, ev ≠ .put i now) :
    lastStored ttl (tr ++ [(V, ev)]) = lastStored ttl tr := by
  rw [lastStored, List.foldl_append, ← lastStored]
  cases ev with
  | put i now => exact absurd rfl (hput i now)
  | _ => rfl

omit [DecidableEq ι] in
theorem lastStored_put {ttl : ℤ} {b : Bool} (h : V.calls i = .storing token b) :
    lastStored ttl (tr ++ [(V, .put i now)]) = Function.update (lastStored ttl tr) token
      (some { isValid := b, expiresAt := now + ttl * 1000000000 }) := by
  rw [lastStored, List.foldl_append, ← lastStored]
  simp only [List.foldl_cons, List.foldl_nil, h]

theorem Remembers.step (h : Remembers config.cacheTtlSeconds tr V) (hconf : Configured config V)
    (hsorted : (times (tr ++ [(V, ev)])).Pairwise (· ≤ ·)) (hs : V.step parse ev = some V') :
    Remembers config.cacheTtlSeconds (tr ++ [(V, ev)]) V' := by
  intro clock hclock
  rw [times_snoc] at hsorted hclock
  have hbefore := h clock fun time ht => hclock time (List.mem_append_left _ ht)
  have hget (i : ι) (now : ℤ) (token : Bytes) (hev : ev = .get i now) :
      Trims CacheEntry.expiresAt clock (V.manager.cache.get token now).1.entries
        (lastStored config.cacheTtlSeconds tr) := by
    subst hev
    have hnow : now ≤ clock := hclock now (by simp [ValidateEvent.time])
    have htrims := h now fun time ht =>
      (List.pairwise_append.mp hsorted).2.2 time ht now (by simp [ValidateEvent.time])
    exact (AuthCache.get_trims htrims).mono hnow
  cases step_moves hs with
  | hit _ _ => rw [lastStored_snoc (by simp)]; exact hget _ _ _ rfl
  | miss _ => rw [lastStored_snoc (by simp)]; exact hget _ _ _ rfl
  | put hstoring =>
    rw [lastStored_put hstoring, set_manager, hconf.cacheTtlSeconds]
    exact hbefore.put _ _
  | call _ => rw [lastStored_snoc (by simp)]; exact hbefore
  | unavailable _ => rw [lastStored_snoc (by simp)]; exact hbefore
  | answered _ _ => rw [lastStored_snoc (by simp)]; exact hbefore

theorem remembers_of_run (hrun : Run (step parse) (init ι config) tr V)
    (hsorted : (times tr).Pairwise (· ≤ ·)) : Remembers config.cacheTtlSeconds tr V := by
  induction hrun with
  | nil => exact fun _ _ => .refl
  | @snoc tr V₁ V₂ ev hrun hs ih =>
    have hbefore : (times tr).Pairwise (· ≤ ·) := by
      rw [times_snoc] at hsorted
      exact (List.pairwise_append.mp hsorted).1
    have hinit : Configured config (init ι config) := rfl
    exact (ih hbefore).step (hinit.run hrun) hsorted hs

end Validations

section Runs

variable {ι : Type*} [DecidableEq ι] {parse : Bytes → Except Exn Json} {config : ApiAuthConfig}
  {V : Validations ι} {tr : List (Validations ι × ValidateEvent ι)} {i : ι} {token : Bytes}
  {now : ℤ}

/-- In every interleaving of calls whose clock does not run backwards, a call is answered by the
last answer that was stored for its token, if it was stored less than the TTL ago, and otherwise,
whatever the cache has dropped, asks the API. -/
theorem get_eq_lastStored (hrun : Run (Validations.step parse) (.init ι config) tr V)
    (hsorted : (Validations.times (tr ++ [(V, .get i now)])).Pairwise (· ≤ ·))
    (hlooking : V.calls i = .looking token) :
    ∃ V', V.step parse (.get i now) = some V' ∧ V'.calls i =
      match live CacheEntry.expiresAt (lastStored config.cacheTtlSeconds tr) token now with
      | some entry => .returned token entry.isValid
      | none => .querying token := by
  rw [Validations.times_snoc] at hsorted
  obtain ⟨hbefore, -, hall⟩ := List.pairwise_append.mp hsorted
  have htrims := Validations.remembers_of_run hrun hbefore now fun time ht =>
    hall time ht now (by simp [ValidateEvent.time])
  refine ⟨_, Validations.step_get hlooking now, ?_⟩
  rw [Validations.set_calls_self, (AuthCache.get_eq _ _ _).1, htrims.live_eq le_rfl]
  cases live CacheEntry.expiresAt (lastStored config.cacheTtlSeconds tr) token now <;> rfl

end Runs

namespace Demo

/-- A second call finds what the first one has stored. -/
theorem get_eq_lastStored_of_cached : ∃ tr V,
    exec (Validations.step authParse) (.init Bool authConfig)
      [.call false (lit "key"), .get false 0, .query false authNetwork, .put false 0,
        .call true (lit "key")] = some (tr, V) ∧
      live CacheEntry.expiresAt (lastStored authConfig.cacheTtlSeconds tr) (lit "key") 1000000000 =
        some { isValid := true, expiresAt := 300000000000 } ∧
      ∃ V', V.step authParse (.get true 1000000000) = some V' ∧ V'.calls true =
        match live CacheEntry.expiresAt (lastStored authConfig.cacheTtlSeconds tr) (lit "key")
          1000000000 with
        | some entry => .returned (lit "key") entry.isValid
        | none => .querying (lit "key") := by
  obtain ⟨tr, V, hrun, hlooking, htimes, hlive⟩ : ∃ tr V,
      exec (Validations.step authParse) (.init Bool authConfig)
        [.call false (lit "key"), .get false 0, .query false authNetwork, .put false 0,
          .call true (lit "key")] = some (tr, V) ∧ V.calls true = .looking (lit "key") ∧
      Validations.times tr = [0, 0] ∧
      live CacheEntry.expiresAt (lastStored authConfig.cacheTtlSeconds tr) (lit "key") 1000000000 =
        some { isValid := true, expiresAt := 300000000000 } := ⟨_, _, rfl, rfl, rfl, rfl⟩
  refine ⟨tr, V, hrun, hlive, get_eq_lastStored (Run.of_exec hrun) ?_ hlooking⟩
  rw [Validations.times_snoc, htimes]
  decide

end Demo

end JotaTranscriber
