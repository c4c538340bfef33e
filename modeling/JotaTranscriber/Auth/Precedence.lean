import JotaTranscriber.Auth.Provenance

/-! # Which authority decides

`validate` as one call after the other. A static token is compared first, so
that with one the API is never asked: two managers that differ in it can be
told apart even where both have an API to ask.
-/

namespace JotaTranscriber

open Transition

/-- A call of `validate`, with the times of its lookup and its store, and what the network and the
API do meanwhile. -/
structure Ask where
  token : Bytes
  lookup : ℤ
  net : Network
  stored : ℤ

namespace AuthManager

/-- `validate` undisturbed by other calls. `new` sets `apiClient` wherever it is asked. -/
def validate (parse : Bytes → Except Exn Json) (m : AuthManager) (a : Ask) : Bool × AuthManager :=
  if !m.authEnabled then (true, m)
  else if m.staticToken ≠ [] then (constantTimeEqual a.token m.staticToken, m)
  else
    let cached := m.cache.get a.token a.lookup
    match cached.2 with
    | some valid => (valid, { m with cache := cached.1 })
    | none =>
      let result := m.apiClient.elim .apiUnavailable fun config =>
        ApiAuthClient.validate config parse a.net a.token
      if result = .apiUnavailable then (false, { m with cache := cached.1 })
      else
        (result = .allowed,
          { m with cache := cached.1.put a.token (result = .allowed) m.cacheTtlSeconds a.stored })

/-- The results of calls made one after the other. -/
def results (parse : Bytes → Except Exn Json) (m : AuthManager) : List Ask → List Bool
  | [] => []
  | a :: asks => (m.validate parse a).1 :: results parse (m.validate parse a).2 asks

variable {parse : Bytes → Except Exn Json} {m : AuthManager} {config : ApiAuthConfig} {a : Ask}

/-- With a static token the API and the cache are left out. -/
theorem validate_of_static (hstatic : config.staticToken ≠ []) :
    (new config).validate parse a =
      (constantTimeEqual a.token config.staticToken, new config) := by
  simp [validate, new, hstatic]

theorem results_of_static (hstatic : config.staticToken ≠ []) (asks : List Ask) :
    (new config).results parse asks =
      asks.map fun a => constantTimeEqual a.token config.staticToken := by
  induction asks with
  | nil => rfl
  | cons a asks ih => rw [results, validate_of_static hstatic, ih, List.map_cons]

end AuthManager

/-- A network that resolves no name. -/
def Network.down : Network where
  resolve _ _ := .error (.runtimeError (lit "Host not found"))
  exchange _ _ _ _ := .error (.runtimeError (lit "Connection refused"))

theorem ApiAuthClient.validate_down (config : ApiAuthConfig) (parse : Bytes → Except Exn Json)
    (token : Bytes) : validate config parse .down token = .apiUnavailable := by
  unfold validate
  split <;> rfl

namespace AuthManager

variable {parse : Bytes → Except Exn Json} {config : ApiAuthConfig} {s s' : Bytes}

/-- Without one, an API that cannot be reached denies the first call. -/
theorem validate_down (hurl : config.apiBaseUrl ≠ []) (hstatic : config.staticToken = [])
    (token : Bytes) : ((new config).validate parse ⟨token, 0, .down, 0⟩).1 = false := by
  simp [validate, new, hurl, hstatic, AuthCache.get, ApiAuthClient.validate_down]

theorem results_ne_of_static (hurl : config.apiBaseUrl ≠ []) (hs : s ≠ []) (hne : s ≠ s') :
    (new { config with staticToken := s }).results parse [⟨s, 0, .down, 0⟩] ≠
      (new { config with staticToken := s' }).results parse [⟨s, 0, .down, 0⟩] := by
  have htrue : constantTimeEqual s s = true := constantTimeEqual_iff.mpr rfl
  rw [results_of_static hs]
  by_cases hs' : s' = []
  · have hdown : ((new { config with staticToken := s' }).validate parse ⟨s, 0, .down, 0⟩).1 =
        false := by
      apply validate_down
      · exact hurl
      · exact hs'
    simp [results, hdown, htrue]
  · have hfalse : constantTimeEqual s s' = false := by
      rw [← Bool.not_eq_true, constantTimeEqual_iff]
      exact hne
    rw [results_of_static hs']
    simp [htrue, hfalse]

/-- With an API configured, two managers that differ at most in the static token answer all calls
alike if and only if they do not differ in it. -/
theorem results_eq_iff (hurl : config.apiBaseUrl ≠ []) (s s' : Bytes) :
    (∀ parse asks, (new { config with staticToken := s }).results parse asks =
      (new { config with staticToken := s' }).results parse asks) ↔ s = s' := by
  constructor
  · intro h
    by_contra hne
    by_cases hs : s = []
    · have hs' : s' ≠ [] := by
        rintro rfl
        exact hne hs
      exact results_ne_of_static hurl hs' (Ne.symm hne)
        (h (fun _ => .ok .null) [⟨s', 0, .down, 0⟩]).symm
    · exact results_ne_of_static hurl hs hne (h (fun _ => .ok .null) [⟨s, 0, .down, 0⟩])
  · rintro rfl _ _
    rfl

end AuthManager

namespace Validations

variable {ι : Type*} [DecidableEq ι] {parse : Bytes → Except Exn Json} {V : Validations ι} {i : ι}
  {c : ValidateCall} {cache : AuthCache}

/-- A call that turns to the cache, with its steps following each other at once. -/
theorem run_looking {config : ApiAuthConfig} (a : Ask) (hlooking : V.calls i = .looking a.token)
    (henabled : V.manager.authEnabled = true) (hstatic : V.manager.staticToken = [])
    (hconfig : V.manager.apiClient = some config) :
    ∃ tr V', Run (step parse) V tr V' ∧
      V'.calls i = .returned a.token (V.manager.validate parse a).1 ∧
      V'.manager = (V.manager.validate parse a).2 := by
  have hget : V.step parse (.get i a.lookup) = _ := step_get hlooking a.lookup
  cases hcached : (V.manager.cache.get a.token a.lookup).2 with
  | some valid =>
    have hvalidate : V.manager.validate parse a =
        (valid, { V.manager with cache := (V.manager.cache.get a.token a.lookup).1 }) := by
      simp [AuthManager.validate, henabled, hstatic, hcached]
    rw [hcached] at hget
    rw [hvalidate]
    exact ⟨_, _, .single hget, set_calls_self, rfl⟩
  | none =>
    rw [hcached] at hget
    have hquerying : (V.set i (.querying a.token)
        (V.manager.cache.get a.token a.lookup).1).calls i = .querying a.token := set_calls_self
    by_cases hresult : ApiAuthClient.validate config parse a.net a.token = .apiUnavailable
    · have hvalidate : V.manager.validate parse a =
          (false, { V.manager with cache := (V.manager.cache.get a.token a.lookup).1 }) := by
        simp [AuthManager.validate, henabled, hstatic, hcached, hconfig, hresult]
      have hquery := step_unavailable hquerying hconfig hresult
      rw [hvalidate]
      exact ⟨_, _, .cons hget (.single hquery), set_calls_self, rfl⟩
    · have hvalidate : V.manager.validate parse a =
          (decide (ApiAuthClient.validate config parse a.net a.token = .allowed),
            { V.manager with
              cache := (V.manager.cache.get a.token a.lookup).1.put a.token
                (ApiAuthClient.validate config parse a.net a.token = .allowed)
                V.manager.cacheTtlSeconds a.stored }) := by
        simp [AuthManager.validate, henabled, hstatic, hcached, hconfig, hresult]
      have hquery := step_answered hquerying hconfig hresult
      rw [hvalidate]
      exact ⟨_, _, .cons hget (.cons hquery (.single (step_put set_calls_self a.stored))),
        set_calls_self, rfl⟩

/-- A call whose steps follow each other at once is `validate`. -/
theorem run_validate {config : ApiAuthConfig} (a : Ask) (hidle : V.calls i = .idle)
    (hconfig : V.manager.apiClient = some config) :
    ∃ tr V', Run (step parse) V tr V' ∧
      V'.calls i = .returned a.token (V.manager.validate parse a).1 ∧
      V'.manager = (V.manager.validate parse a).2 := by
  have hcall : V.step parse (.call i a.token) =
      some (V.set i (V.manager.begin a.token) V.manager.cache) := if_pos hidle
  cases henabled : V.manager.authEnabled with
  | false =>
    have hbegin : V.manager.begin a.token = .returned a.token true := by
      simp [AuthManager.begin, henabled]
    have hvalidate : V.manager.validate parse a = (true, V.manager) := by
      simp [AuthManager.validate, henabled]
    rw [hvalidate]
    exact ⟨_, _, .single hcall, set_calls_self.trans hbegin, rfl⟩
  | true =>
    by_cases hstatic : V.manager.staticToken = []
    · have hbegin : V.manager.begin a.token = .looking a.token := by
        simp [AuthManager.begin, henabled, hstatic]
      rw [hbegin] at hcall
      obtain ⟨tr, V', hrun, hreturned, hmanager⟩ :=
        run_looking (V := V.set i (.looking a.token) V.manager.cache) a set_calls_self henabled
          hstatic hconfig
      exact ⟨_, V', .cons hcall hrun, hreturned, hmanager⟩
    · have hbegin : V.manager.begin a.token =
          .returned a.token (AuthManager.constantTimeEqual a.token V.manager.staticToken) := by
        simp [AuthManager.begin, henabled, hstatic]
      have hvalidate : V.manager.validate parse a =
          (AuthManager.constantTimeEqual a.token V.manager.staticToken, V.manager) := by
        simp [AuthManager.validate, henabled, hstatic]
      rw [hvalidate]
      exact ⟨_, _, .single hcall, set_calls_self.trans hbegin, rfl⟩

end Validations

namespace Demo

/-- A static token in the place of none is noticed. -/
theorem results_of_different_tokens :
    ¬ ∀ parse asks,
      (AuthManager.new { authConfig with staticToken := lit "token" }).results parse asks =
        (AuthManager.new { authConfig with staticToken := [] }).results parse asks := by
  intro h
  exact absurd ((AuthManager.results_eq_iff (by decide) _ _).mp h) (by decide)

/-- The API knows the key, and the static token denies it. -/
theorem results_of_static_token :
    (AuthManager.new authConfig).results authParse [⟨lit "key", 0, authNetwork, 0⟩] = [true] ∧
      (AuthManager.new { authConfig with staticToken := lit "token" }).results authParse
        [⟨lit "key", 0, authNetwork, 0⟩] = [false] := by
  decide

end Demo

end JotaTranscriber
