import Mathlib.Algebra.Order.Ring.Int
import JotaTranscriber.Auth.ApiAuthClient
import JotaTranscriber.Transition.Run

/-! # The auth manager

`validate` looks a token up in the cache, asks the API on a miss and stores
what it answered. The cache has a mutex of its own and the request is made
without it, so that the calls of all sessions interleave at these three points.
A token is accepted only on the word of the API, given now or within the TTL.
-/

namespace JotaTranscriber

open Transition

structure CacheEntry where
  isValid : Bool
  expiresAt : ℤ
  deriving DecidableEq, Repr

/-- The cached answers, with times in nanoseconds of the steady clock. -/
structure AuthCache where
  entries : Bytes → Option CacheEntry := fun _ => none

namespace AuthCache

def get (c : AuthCache) (token : Bytes) (now : ℤ) : AuthCache × Option Bool :=
  match c.entries token with
  | none => (c, none)
  | some entry =>
    if entry.expiresAt ≤ now then ({ entries := Function.update c.entries token none }, none)
    else (c, some entry.isValid)

def put (c : AuthCache) (token : Bytes) (isValid : Bool) (ttlSeconds now : ℤ) : AuthCache where
  entries := Function.update c.entries token
    (some { isValid, expiresAt := now + ttlSeconds * 1000000000 })

variable {c : AuthCache} {token key : Bytes} {now ttl : ℤ} {b : Bool} {entry : CacheEntry}

/-- A hit is an entry that has not expired. -/
theorem get_eq_some (h : (c.get token now).2 = some b) :
    ∃ entry, c.entries token = some entry ∧ entry.isValid = b ∧ now < entry.expiresAt := by
  unfold get at h
  split at h
  · cases h
  · split at h
    · cases h
    · cases h
      exact ⟨_, ‹_›, rfl, by omega⟩

/-- A lookup adds no entry. -/
theorem get_entries (h : (c.get token now).1.entries key = some entry) :
    c.entries key = some entry := by
  unfold get at h
  split at h
  · exact h
  · split at h
    · dsimp only at h
      rcases eq_or_ne key token with rfl | hne
      · rw [Function.update_self] at h
        cases h
      · rwa [Function.update_of_ne hne] at h
    · exact h

theorem put_entries (h : (c.put token b ttl now).entries key = some entry) :
    (key = token ∧ entry = ⟨b, now + ttl * 1000000000⟩) ∨ c.entries key = some entry := by
  simp only [put] at h
  rcases eq_or_ne key token with rfl | hne
  · rw [Function.update_self, Option.some.injEq] at h
    exact .inl ⟨rfl, h.symm⟩
  · rw [Function.update_of_ne hne] at h
    exact .inr h

end AuthCache

structure AuthManager where
  apiClient : Option ApiAuthConfig
  cache : AuthCache := {}
  authEnabled : Bool
  cacheTtlSeconds : ℤ
  staticToken : Bytes

/-- Where a call of `validate` stands. -/
inductive ValidateCall where
  | idle
  /-- Before `cache_.get`. -/
  | looking (token : Bytes)
  /-- In `ApiAuthClient::validate`. -/
  | querying (token : Bytes)
  /-- Before `cache_.put`. -/
  | storing (token : Bytes) (allowed : Bool)
  | returned (token : Bytes) (result : Bool)
  deriving DecidableEq, Repr

/-- The answer a call has settled on. -/
def ValidateCall.verdict : ValidateCall → Option Bool
  | storing _ b | returned _ b => some b
  | _ => none

namespace AuthManager

def new (config : ApiAuthConfig) : AuthManager where
  apiClient := if config.apiBaseUrl = [] then none else some config
  authEnabled := config.apiBaseUrl ≠ [] || config.staticToken ≠ []
  cacheTtlSeconds := config.cacheTtlSeconds
  staticToken := config.staticToken

/-- The differences of all bytes are collected before any is looked at. -/
def constantTimeEqual (a b : Bytes) : Bool :=
  if a.length ≠ b.length then false
  else (List.zipWith (· ^^^ ·) a b).foldl (· ||| ·) 0 = 0

theorem foldl_or_eq_zero (l : List UInt8) (diff : UInt8) :
    l.foldl (· ||| ·) diff = 0 ↔ diff = 0 ∧ ∀ x ∈ l, x = 0 := by
  induction l generalizing diff with
  | nil => simp
  | cons x l ih => simp [ih, and_assoc]

theorem zipWith_xor_eq_zero {a b : Bytes} (hlen : a.length = b.length) :
    (∀ x ∈ List.zipWith (· ^^^ ·) a b, x = 0) ↔ a = b := by
  induction a generalizing b with
  | nil =>
    obtain rfl := List.length_eq_zero_iff.mp hlen.symm
    simp
  | cons x a ih =>
    cases b with
    | nil => simp at hlen
    | cons y b => simp [ih (Nat.succ.inj hlen)]

/-- The comparison of the static token is equality. -/
theorem constantTimeEqual_iff {a b : Bytes} : constantTimeEqual a b = true ↔ a = b := by
  unfold constantTimeEqual
  split
  · rename_i hlen
    constructor
    · rintro ⟨⟩
    · rintro rfl
      exact absurd rfl hlen
  · rename_i hlen
    rw [decide_eq_true_iff, foldl_or_eq_zero, zipWith_xor_eq_zero (not_not.mp hlen)]
    simp

/-- `validate` before it turns to the cache. -/
def begin (m : AuthManager) (token : Bytes) : ValidateCall :=
  if !m.authEnabled then .returned token true
  else if m.staticToken ≠ [] then .returned token (constantTimeEqual token m.staticToken)
  else .looking token

end AuthManager

/-- The manager and the calls of `validate`, each by one session on one config message. -/
structure Validations (ι : Type*) where
  manager : AuthManager
  calls : ι → ValidateCall

inductive ValidateEvent (ι : Type*) where
  | call (i : ι) (token : Bytes)
  | get (i : ι) (now : ℤ)
  | query (i : ι) (net : Network)
  | put (i : ι) (now : ℤ)

namespace Validations

variable {ι : Type*}

def init (ι : Type*) (config : ApiAuthConfig) : Validations ι where
  manager := .new config
  calls _ := .idle

variable [DecidableEq ι]

def set (V : Validations ι) (i : ι) (c : ValidateCall) (cache : AuthCache) : Validations ι where
  manager := { V.manager with cache }
  calls := Function.update V.calls i c

def step (parse : Bytes → Except Exn Json) (V : Validations ι) :
    ValidateEvent ι → Option (Validations ι)
  | .call i token =>
    if V.calls i = .idle then some (V.set i (V.manager.begin token) V.manager.cache) else none
  | .get i now =>
    match V.calls i with
    | .looking token =>
      let cached := V.manager.cache.get token now
      some (V.set i (cached.2.elim (.querying token) (.returned token)) cached.1)
    | _ => none
  | .query i net =>
    match V.calls i, V.manager.apiClient with
    | .querying token, some config =>
      let result := ApiAuthClient.validate config parse net token
      if result = .apiUnavailable then some (V.set i (.returned token false) V.manager.cache)
      else some (V.set i (.storing token (result = .allowed)) V.manager.cache)
    | _, _ => none
  | .put i now =>
    match V.calls i with
    | .storing token allowed =>
      some (V.set i (.returned token allowed)
        (V.manager.cache.put token allowed V.manager.cacheTtlSeconds now))
    | _ => none

/-- All that one step can do. -/
inductive Moves (parse : Bytes → Except Exn Json) (V : Validations ι) :
    ValidateEvent ι → Validations ι → Prop where
  | call {i : ι} {token : Bytes} : V.calls i = .idle →
      Moves parse V (.call i token) (V.set i (V.manager.begin token) V.manager.cache)
  | hit {i : ι} {now : ℤ} {token : Bytes} {b : Bool} : V.calls i = .looking token →
      (V.manager.cache.get token now).2 = some b →
      Moves parse V (.get i now) (V.set i (.returned token b) (V.manager.cache.get token now).1)
  | miss {i : ι} {now : ℤ} {token : Bytes} : V.calls i = .looking token →
      Moves parse V (.get i now) (V.set i (.querying token) (V.manager.cache.get token now).1)
  | unavailable {i : ι} {net : Network} {token : Bytes} : V.calls i = .querying token →
      Moves parse V (.query i net) (V.set i (.returned token false) V.manager.cache)
  | answered {i : ι} {net : Network} {token : Bytes} {config : ApiAuthConfig} :
      V.calls i = .querying token → V.manager.apiClient = some config →
      Moves parse V (.query i net) (V.set i
        (.storing token (ApiAuthClient.validate config parse net token = .allowed))
        V.manager.cache)
  | put {i : ι} {now : ℤ} {token : Bytes} {b : Bool} : V.calls i = .storing token b →
      Moves parse V (.put i now) (V.set i (.returned token b)
        (V.manager.cache.put token b V.manager.cacheTtlSeconds now))

variable {parse : Bytes → Except Exn Json} {V V' : Validations ι} {ev : ValidateEvent ι} {i j : ι}
  {c : ValidateCall} {cache : AuthCache}

@[simp] theorem set_calls_self : (V.set i c cache).calls i = c := Function.update_self _ _ _

@[simp] theorem set_manager : (V.set i c cache).manager = { V.manager with cache } := rfl

/-- A step moves one call; the others stay where they are. -/
theorem set_calls_of_ne (h : j ≠ i) :
    (V.set i c cache).calls j = V.calls j :=
  Function.update_of_ne h _ _

theorem set_calls_elim {p : ValidateCall → Prop} (hself : j = i → p c)
    (hother : j ≠ i → p (V.calls j)) : p ((V.set i c cache).calls j) := by
  rcases eq_or_ne j i with rfl | hne
  · rw [set_calls_self]
    exact hself rfl
  · rw [set_calls_of_ne hne]
    exact hother hne

theorem step_moves (h : V.step parse ev = some V') : Moves parse V ev V' := by
  unfold step at h
  split at h
  · obtain ⟨hidle, h⟩ := Option.ite_none_right_eq_some.mp h
    cases h
    exact .call hidle
  · split at h
    · rename_i now _ token hlooking
      obtain rfl := Option.some.inj h
      cases hget : (V.manager.cache.get token now).2 with
      | none => exact .miss hlooking
      | some b => exact .hit hlooking hget
    · cases h
  · split at h
    · dsimp only at h
      split at h <;> obtain rfl := Option.some.inj h
      · exact .unavailable ‹_›
      · exact .answered ‹_› ‹_›
    · cases h
  · split at h <;> cases h
    exact .put ‹_›

theorem step_get {token : Bytes} (h : V.calls i = .looking token) (now : ℤ) :
    V.step parse (.get i now) = some (V.set i
      ((V.manager.cache.get token now).2.elim (.querying token) (.returned token))
      (V.manager.cache.get token now).1) := by
  simp only [step, h]

theorem step_put {token : Bytes} {b : Bool} (h : V.calls i = .storing token b) (now : ℤ) :
    V.step parse (.put i now) = some (V.set i (.returned token b)
      (V.manager.cache.put token b V.manager.cacheTtlSeconds now)) := by
  simp only [step, h]

theorem step_unavailable {token : Bytes} {config : ApiAuthConfig} {net : Network}
    (h : V.calls i = .querying token) (hconfig : V.manager.apiClient = some config)
    (hresult : ApiAuthClient.validate config parse net token = .apiUnavailable) :
    V.step parse (.query i net) = some (V.set i (.returned token false) V.manager.cache) := by
  simp [step, h, hconfig, hresult]

theorem step_answered {token : Bytes} {config : ApiAuthConfig} {net : Network}
    (h : V.calls i = .querying token) (hconfig : V.manager.apiClient = some config)
    (hresult : ApiAuthClient.validate config parse net token ≠ .apiUnavailable) :
    V.step parse (.query i net) = some (V.set i
      (.storing token (ApiAuthClient.validate config parse net token = .allowed))
      V.manager.cache) := by
  simp [step, h, hconfig, hresult]

variable {config : ApiAuthConfig} {tr : List (Validations ι × ValidateEvent ι)}

/-- The manager is the one of the configuration, whatever is in its cache. -/
def Configured (config : ApiAuthConfig) (V : Validations ι) : Prop :=
  { V.manager with cache := {} } = AuthManager.new config

theorem Configured.step (h : Configured config V) (hs : V.step parse ev = some V') :
    Configured config V' := by
  cases step_moves hs <;> exact h

theorem Configured.run (h : Configured config V) (hrun : Run (Validations.step parse) V tr V') :
    Configured config V' :=
  hrun.invariant h fun _ _ _ h hs => h.step hs

omit [DecidableEq ι] in
theorem Configured.apiClient_eq (h : Configured config V) :
    V.manager.apiClient = (AuthManager.new config).apiClient := by rw [← h]

omit [DecidableEq ι] in
theorem Configured.apiClient {config' : ApiAuthConfig} (h : Configured config V)
    (hclient : V.manager.apiClient = some config') : config' = config := by
  rw [h.apiClient_eq, AuthManager.new] at hclient
  obtain ⟨-, hconfig⟩ := Option.ite_none_left_eq_some.mp hclient
  exact (Option.some.inj hconfig).symm

omit [DecidableEq ι] in
theorem Configured.cacheTtlSeconds (h : Configured config V) :
    V.manager.cacheTtlSeconds = config.cacheTtlSeconds := by
  have hnew : V.manager.cacheTtlSeconds = (AuthManager.new config).cacheTtlSeconds := by rw [← h]
  rw [hnew, AuthManager.new]

end Validations

end JotaTranscriber
