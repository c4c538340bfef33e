import JotaTranscriber.Auth.AuthManager

/-! # Where an acceptance comes from

Every true answer of `validate`, and every true entry of the cache, goes back to
an answer of the API about the same token. Nothing else that the API or the
network may do accepts a token, and a failure leaves no trace in the cache.
-/

namespace JotaTranscriber

open Transition

namespace Validations

variable {ι : Type*} [DecidableEq ι]

/-- A call has asked the API about the token, and the API approved of it. -/
def Asked (parse : Bytes → Except Exn Json) (tr : List (Validations ι × ValidateEvent ι)) (i : ι)
    (token : Bytes) : Prop :=
  ∃ V net, (V, .query i net) ∈ tr ∧ V.calls i = .querying token ∧
    ApiAuthClient.Approves parse net token

/-- A call has stored the approval it obtained, at this time. -/
def Stored (parse : Bytes → Except Exn Json) (tr : List (Validations ι × ValidateEvent ι)) (i : ι)
    (token : Bytes) (stored : ℤ) : Prop :=
  Asked parse tr i token ∧ ∃ V, (V, .put i stored) ∈ tr ∧ V.calls i = .storing token true

/-- The call has asked the API itself, or has looked the token up less than the TTL after some call
stored the approval it obtained. -/
def Vouched (parse : Bytes → Except Exn Json) (tr : List (Validations ι × ValidateEvent ι)) (i : ι)
    (token : Bytes) (ttlSeconds : ℤ) : Prop :=
  Asked parse tr i token ∨
    ∃ tr₁ V lookup tr₂ j stored, tr = tr₁ ++ (V, .get i lookup) :: tr₂ ∧
      V.calls i = .looking token ∧ Stored parse tr₁ j token stored ∧
      lookup - stored < ttlSeconds * 1000000000

variable {parse : Bytes → Except Exn Json} {config : ApiAuthConfig} {V V' : Validations ι}
  {ev : ValidateEvent ι} {tr tr' : List (Validations ι × ValidateEvent ι)} {i j : ι}
  {token : Bytes} {stored ttl : ℤ}

omit [DecidableEq ι] in
theorem Asked.append (h : Asked parse tr i token) : Asked parse (tr ++ tr') i token := by
  obtain ⟨V, net, hmem, hcall, hnet⟩ := h
  exact ⟨V, net, List.mem_append_left _ hmem, hcall, hnet⟩

omit [DecidableEq ι] in
theorem Stored.append (h : Stored parse tr i token stored) :
    Stored parse (tr ++ tr') i token stored := by
  obtain ⟨hasked, V, hmem, hcall⟩ := h
  exact ⟨hasked.append, V, List.mem_append_left _ hmem, hcall⟩

omit [DecidableEq ι] in
theorem Vouched.append (h : Vouched parse tr i token ttl) :
    Vouched parse (tr ++ tr') i token ttl := by
  rcases h with h | ⟨tr₁, V, lookup, tr₂, j, stored, rfl, hcall, hstored, hfresh⟩
  · exact .inl h.append
  · exact .inr ⟨tr₁, V, lookup, tr₂ ++ tr', j, stored, by simp, hcall, hstored, hfresh⟩

/-- What the API has said before the call `i` reached this point. -/
def CallJustified (parse : Bytes → Except Exn Json) (ttl : ℤ)
    (tr : List (Validations ι × ValidateEvent ι)) (i : ι) : ValidateCall → Prop
  | .storing token true => Asked parse tr i token
  | .returned token true => Vouched parse tr i token ttl
  | _ => True

omit [DecidableEq ι] in
theorem CallJustified.append {c : ValidateCall} (h : CallJustified parse ttl tr i c) :
    CallJustified parse ttl (tr ++ tr') i c := by
  unfold CallJustified at h ⊢
  split
  · exact Asked.append h
  · exact Vouched.append h
  · trivial

/-- The manager is the one of the configuration, and what its cache and its calls hold true goes
back to the API. -/
structure Justified (parse : Bytes → Except Exn Json) (config : ApiAuthConfig)
    (tr : List (Validations ι × ValidateEvent ι)) (V : Validations ι) : Prop where
  configured : { V.manager with cache := {} } = AuthManager.new config
  entries : ∀ token entry, V.manager.cache.entries token = some entry → entry.isValid = true →
    ∃ j stored, Stored parse tr j token stored ∧
      entry.expiresAt = stored + config.cacheTtlSeconds * 1000000000
  calls : ∀ i, CallJustified parse config.cacheTtlSeconds tr i (V.calls i)

omit [DecidableEq ι] in
theorem justified_init : Justified parse config [] (init ι config) where
  configured := rfl
  entries _ _ h := by cases h
  calls _ := trivial

/-- A step that adds no entry to the cache. -/
theorem Justified.set (h : Justified parse config tr V) {c : ValidateCall} {cache : AuthCache}
    (hcache : ∀ token entry, cache.entries token = some entry →
      V.manager.cache.entries token = some entry)
    (hc : CallJustified parse config.cacheTtlSeconds (tr ++ tr') i c) :
    Justified parse config (tr ++ tr') (V.set i c cache) where
  configured := h.configured
  entries token entry he hvalid := by
    obtain ⟨j, stored, hstored, hexpires⟩ := h.entries token entry (hcache _ _ he) hvalid
    exact ⟨j, stored, hstored.append, hexpires⟩
  calls j := by
    apply set_calls_elim
    · rintro rfl
      exact hc
    · intro _
      exact (h.calls j).append

omit [DecidableEq ι] in
theorem Justified.apiClient (h : Justified parse config tr V) (hurl : config.apiBaseUrl ≠ []) :
    V.manager.apiClient = some config := by
  rw [Configured.apiClient_eq h.configured, AuthManager.new, if_neg hurl]

omit [DecidableEq ι] in
theorem Justified.cacheTtlSeconds (h : Justified parse config tr V) :
    V.manager.cacheTtlSeconds = config.cacheTtlSeconds :=
  Configured.cacheTtlSeconds h.configured

omit [DecidableEq ι] in
/-- With the API configured and no static token, every call turns to the cache. -/
theorem Justified.begin (h : Justified parse config tr V) (hurl : config.apiBaseUrl ≠ [])
    (hstatic : config.staticToken = []) (token : Bytes) :
    V.manager.begin token = .looking token := by
  have henabled : V.manager.authEnabled = (AuthManager.new config).authEnabled := by
    rw [← h.configured]
  have htoken : V.manager.staticToken = (AuthManager.new config).staticToken := by
    rw [← h.configured]
  simp [AuthManager.begin, henabled, htoken, AuthManager.new, hurl, hstatic]

theorem Justified.step (h : Justified parse config tr V) (hurl : config.apiBaseUrl ≠ [])
    (hstatic : config.staticToken = []) (hs : V.step parse ev = some V') :
    Justified parse config (tr ++ [(V, ev)]) V' := by
  cases step_moves hs with
  | call _ =>
    rw [h.begin hurl hstatic]
    exact h.set (fun _ _ => id) trivial
  | @hit i now token b hlooking hget =>
    refine h.set (fun _ _ => AuthCache.get_entries) ?_
    cases b with
    | false => trivial
    | true =>
      obtain ⟨entry, hentry, hvalid, hfresh⟩ := AuthCache.get_eq_some hget
      obtain ⟨j, stored, hstored, hexpires⟩ := h.entries token entry hentry hvalid
      exact .inr ⟨tr, V, now, [], j, stored, rfl, hlooking, hstored, by omega⟩
  | miss _ => exact h.set (fun _ _ => AuthCache.get_entries) trivial
  | unavailable _ => exact h.set (fun _ _ => id) trivial
  | @answered i net token config' hquerying hclient =>
    refine h.set (fun _ _ => id) ?_
    cases hresult : ApiAuthClient.validate config' parse net token with
    | allowed =>
      exact ⟨V, net, by simp, hquerying, ApiAuthClient.approves_of_validate hresult⟩
    | denied => trivial
    | apiUnavailable => trivial
  | @put i now token b hstoring =>
    have hcall : CallJustified parse config.cacheTtlSeconds tr i (.storing token b) :=
      hstoring ▸ h.calls i
    refine ⟨h.configured, fun key entry he hvalid => ?_, fun j => ?_⟩
    · rcases AuthCache.put_entries he with ⟨rfl, rfl⟩ | he
      · cases hvalid
        exact ⟨i, now, ⟨Asked.append hcall, V, by simp, hstoring⟩, by rw [h.cacheTtlSeconds]⟩
      · obtain ⟨j, stored, hstored, hexpires⟩ := h.entries key entry he hvalid
        exact ⟨j, stored, hstored.append, hexpires⟩
    · apply set_calls_elim
      · rintro rfl
        cases b with
        | false => trivial
        | true => exact .inl (Asked.append hcall)
      · intro _
        exact (h.calls j).append

theorem justified_of_run (hurl : config.apiBaseUrl ≠ []) (hstatic : config.staticToken = [])
    (hrun : Run (step parse) (init ι config) tr V) : Justified parse config tr V := by
  induction hrun with
  | nil => exact justified_init
  | snoc _ hs ih => exact ih.step hurl hstatic hs

/-- A call keeps the answer it has settled on. -/
theorem verdict_step {b : Bool} (hb : (V.calls i).verdict = some b)
    (hs : V.step parse ev = some V') : (V'.calls i).verdict = some b := by
  have other {c : ValidateCall} {cache : AuthCache} {j : ι}
      (hj : i = j → c.verdict = some b) : ((V.set j c cache).calls i).verdict = some b := by
    apply set_calls_elim (p := fun c => c.verdict = some b) hj
    intro _
    exact hb
  cases step_moves hs with
  | call hidle => exact other (by rintro rfl; rw [hidle] at hb; cases hb)
  | hit hlooking _ => exact other (by rintro rfl; rw [hlooking] at hb; cases hb)
  | miss hlooking => exact other (by rintro rfl; rw [hlooking] at hb; cases hb)
  | unavailable hquerying => exact other (by rintro rfl; rw [hquerying] at hb; cases hb)
  | answered hquerying _ => exact other (by rintro rfl; rw [hquerying] at hb; cases hb)
  | put hstoring => exact other (by rintro rfl; rw [hstoring] at hb; exact hb)

theorem verdict_run {b : Bool} (hb : (V.calls i).verdict = some b)
    (hrun : Run (step parse) V tr V') : (V'.calls i).verdict = some b :=
  hrun.invariant (I := fun V => (V.calls i).verdict = some b) hb fun _ _ _ hb hs =>
    verdict_step hb hs

/-- A call inside the request goes on with what the API answered. -/
theorem step_query (parse : Bytes → Except Exn Json) (net : Network)
    (hclient : V.manager.apiClient = some config) (hquerying : V.calls i = .querying token) :
    ∃ V', V.step parse (.query i net) = some V' ∧
      (V'.calls i).verdict =
        some (decide (ApiAuthClient.validate config parse net token = .allowed)) ∧
      (ApiAuthClient.validate config parse net token = .apiUnavailable →
        V'.calls i = .returned token false ∧ V'.manager.cache = V.manager.cache) := by
  by_cases hresult : ApiAuthClient.validate config parse net token = .apiUnavailable
  · refine ⟨_, step_unavailable hquerying hclient hresult, ?_, fun _ => ⟨set_calls_self, rfl⟩⟩
    simp [hresult, ValidateCall.verdict]
  · refine ⟨_, step_answered hquerying hclient hresult, ?_, fun h => absurd h hresult⟩
    simp [ValidateCall.verdict]

end Validations

namespace Demo

def authConfig : ApiAuthConfig where
  apiBaseUrl := lit "http://auth"
  apiSecretKey := lit "secret"

/-- The API knows one token. -/
def authNetwork : Network where
  resolve _ _ := .ok [⟨lit "10.0.0.1", false, false⟩]
  exchange _ _ _ req :=
    if req.get? (lit "X-API-Key") = some (lit "key") then .ok ⟨200, lit "active"⟩
    else .ok ⟨401, []⟩

def authParse (body : Bytes) : Except Exn Json :=
  if body = lit "active" then .ok (.object [(lit "is_active", .boolean true)])
  else .error (.parseError (lit "syntax error"))

end Demo

end JotaTranscriber
