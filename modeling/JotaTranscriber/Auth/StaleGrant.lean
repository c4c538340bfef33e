import JotaTranscriber.Auth.Provenance

/-! # Grants older than a denial

The lookup, the request and the store of a call are not one step, and the last
store wins. A grant that is older than a denial can be stored after it, but
only by a call that had the grant in its hands when the denial was given.
-/

namespace JotaTranscriber

open Transition

namespace Validations

variable {ι : Type*} [DecidableEq ι]

/-- The API has granted the token to this call, on the way to the present state. -/
def Granted (parse : Bytes → Except Exn Json) (config : ApiAuthConfig)
    (tr : List (Validations ι × ValidateEvent ι)) (i : ι) (token : Bytes) : Prop :=
  ∃ V net, (V, .query i net) ∈ tr ∧ V.calls i = .querying token ∧
    ApiAuthClient.validate config parse net token = .allowed

variable {parse : Bytes → Except Exn Json} {config : ApiAuthConfig} {V V' W W' U : Validations ι}
  {ev : ValidateEvent ι} {tr tr' : List (Validations ι × ValidateEvent ι)} {i j k : ι}
  {token : Bytes} {entry : CacheEntry} {net : Network} {now lookup : ℤ}

omit [DecidableEq ι] in
theorem Granted.append (h : Granted parse config tr i token) :
    Granted parse config (tr ++ tr') i token := by
  obtain ⟨V, net, hmem, hrest⟩ := h
  exact ⟨V, net, List.mem_append_left _ hmem, hrest⟩

/-- A call gets a grant into its hands by asking for it. -/
theorem storing_step (hconf : Configured config V) (hs : V.step parse ev = some V')
    (h : V'.calls i = .storing token true) :
    V.calls i = .storing token true ∨ ∃ net, ev = .query i net ∧ V.calls i = .querying token ∧
      ApiAuthClient.validate config parse net token = .allowed := by
  have other {c : ValidateCall} {cache : AuthCache} {j : ι} (hc : c ≠ .storing token true)
      (h : (V.set j c cache).calls i = .storing token true) : V.calls i = .storing token true := by
    rcases eq_or_ne i j with rfl | hne
    · rw [set_calls_self] at h
      exact absurd h hc
    · rwa [set_calls_of_ne hne] at h
  cases step_moves hs with
  | call hidle =>
    refine .inl (other ?_ h)
    unfold AuthManager.begin
    split
    · simp
    · split <;> simp
  | hit _ _ => exact .inl (other (by simp) h)
  | miss _ => exact .inl (other (by simp) h)
  | unavailable _ => exact .inl (other (by simp) h)
  | @answered j net token' config' hquerying hclient =>
    obtain rfl := hconf.apiClient hclient
    rcases eq_or_ne i j with rfl | hne
    · simp only [set_calls_self, ValidateCall.storing.injEq, decide_eq_true_eq] at h
      obtain ⟨rfl, hallowed⟩ := h
      exact .inr ⟨net, rfl, hquerying, hallowed⟩
    · exact .inl (by rwa [set_calls_of_ne hne] at h)
  | put _ => exact .inl (other (by simp) h)

theorem storing_run (hconf : Configured config V) (hrun : Run (step parse) V tr V')
    (h : V'.calls i = .storing token true) :
    V.calls i = .storing token true ∨ Granted parse config tr i token := by
  induction hrun with
  | nil => exact .inl h
  | @snoc tr V₁ V₂ ev hrun hs ih =>
    rcases storing_step (hconf.run hrun) hs h with h | ⟨net, rfl, hquerying, hallowed⟩
    · exact (ih h).imp_right Granted.append
    · exact .inr ⟨V₁, net, by simp, hquerying, hallowed⟩

/-- What stands in the cache was there before, or a call has stored it. -/
theorem entry_step (hs : V.step parse ev = some V')
    (h : V'.manager.cache.entries token = some entry) :
    V.manager.cache.entries token = some entry ∨ ∃ i now, ev = .put i now ∧
      V.calls i = .storing token entry.isValid ∧
      entry.expiresAt = now + V.manager.cacheTtlSeconds * 1000000000 := by
  cases step_moves hs with
  | call _ => exact .inl h
  | hit _ _ => exact .inl (AuthCache.get_entries h)
  | miss _ => exact .inl (AuthCache.get_entries h)
  | unavailable _ => exact .inl h
  | answered _ _ => exact .inl h
  | @put i now token' b hstoring =>
    rcases AuthCache.put_entries h with ⟨rfl, rfl⟩ | h
    · exact .inr ⟨i, now, rfl, hstoring, rfl⟩
    · exact .inl h

/-- What stands in the cache after a run was there before it, or a call has stored it on the way. -/
theorem entry_run (hconf : Configured config V) (hrun : Run (step parse) V tr V')
    (h : V'.manager.cache.entries token = some entry) :
    V.manager.cache.entries token = some entry ∨ ∃ X i now tr₁ tr₂,
      tr = tr₁ ++ (X, .put i now) :: tr₂ ∧ X.calls i = .storing token entry.isValid ∧
      entry.expiresAt = now + config.cacheTtlSeconds * 1000000000 := by
  induction hrun with
  | nil => exact .inl h
  | @snoc tr V₁ V₂ ev hrun hs ih =>
    rcases entry_step hs h with h | ⟨i, now, rfl, hstoring, hexpires⟩
    · rcases ih h with h | ⟨X, i, now, tr₁, tr₂, rfl, hrest⟩
      · exact .inl h
      · exact .inr ⟨X, i, now, tr₁, tr₂ ++ [(V₁, ev)], by simp, hrest⟩
    · rw [(hconf.run hrun).cacheTtlSeconds] at hexpires
      exact .inr ⟨V₁, i, now, tr, [], rfl, hstoring, hexpires⟩

/-- The denial of a call leaves every other call, and the grants in their hands, as they were. -/
theorem storing_of_denial (hconf : Configured config V) (hasked : V.calls j = .querying token)
    (hdenied : ApiAuthClient.validate config parse net token = .denied)
    (hs : V.step parse (.query j net) = some V') (h : V'.calls i = .storing token true) :
    V.calls i = .storing token true := by
  rcases storing_step hconf hs h with h | ⟨net', heq, -, hallowed⟩
  · exact h
  · cases heq
    rw [hdenied] at hallowed
    cases hallowed

/-- After the denied call has stored its answer, a hit that grants the token comes from a store that
was made later. -/
theorem put_of_hit (hconf : Configured config W) (hstoring : W.calls j = .storing token false)
    (hs : W.step parse (.put j now) = some W') (hrun : Run (step parse) W' tr U)
    (hhit : (U.manager.cache.get token lookup).2 = some true) :
    ∃ X i stored tr₁ tr₂, tr = tr₁ ++ (X, .put i stored) :: tr₂ ∧
      X.calls i = .storing token true ∧ lookup - stored < config.cacheTtlSeconds * 1000000000 := by
  obtain ⟨entry, hentry, hvalid, hfresh⟩ := AuthCache.get_eq_some hhit
  rcases entry_run (hconf.step hs) hrun hentry with h | ⟨X, i, stored, tr₁, tr₂, rfl, hX, hexpires⟩
  · -- the entry right after the store is the denial
    cases step_moves hs with
    | @put _ _ token' b hstoring' =>
      rw [hstoring] at hstoring'
      cases hstoring'
      have hput : (W.manager.cache.put token false W.manager.cacheTtlSeconds now).entries token =
          some entry := h
      simp only [AuthCache.put, Function.update_self, Option.some.injEq] at hput
      rw [← hput] at hvalid
      cases hvalid
  · rw [hvalid] at hX
    exact ⟨X, i, stored, tr₁, tr₂, rfl, hX, by omega⟩

/-- Once the API has denied the token to a call, a grant that is stored for it is younger than the
denial, or was in the hands of its call when the denial was given. And once the denied call has
stored its answer, a later hit that grants the token found such a grant, stored after that and less
than the TTL before. -/
theorem grant_after_denial (hrun : Run (step parse) (init ι config) tr V)
    (hasked : V.calls j = .querying token)
    (hdenied : ApiAuthClient.validate config parse net token = .denied)
    (hs : V.step parse (.query j net) = some V') :
    (∀ tr₁ W i, Run (step parse) V' tr₁ W → W.calls i = .storing token true →
      V.calls i = .storing token true ∨ Granted parse config tr₁ i token) ∧
    ∀ tr₁ W now W' tr₂ U k lookup, Run (step parse) V' tr₁ W →
      W.calls j = .storing token false → W.step parse (.put j now) = some W' →
      Run (step parse) W' tr₂ U → U.calls k = .looking token →
      (U.manager.cache.get token lookup).2 = some true →
      ∃ X i stored, (X, .put i stored) ∈ tr₂ ∧ X.calls i = .storing token true ∧
        lookup - stored < config.cacheTtlSeconds * 1000000000 ∧
        (V.calls i = .storing token true ∨
          Granted parse config (tr₁ ++ (W, .put j now) :: tr₂) i token) := by
  have hinit : Configured config (init ι config) := rfl
  have hconf := hinit.run hrun
  have hstored : ∀ tr₁ W i, Run (step parse) V' tr₁ W → W.calls i = .storing token true →
      V.calls i = .storing token true ∨ Granted parse config tr₁ i token := by
    intro tr₁ W i hrun₁ hstoring
    exact (storing_run (hconf.step hs) hrun₁ hstoring).imp_left
      (storing_of_denial hconf hasked hdenied hs)
  refine ⟨hstored, ?_⟩
  intro tr₁ W now W' tr₂ U k lookup hrun₁ hfalse hput hrun₂ _ hhit
  have hconfW : Configured config W := (hconf.step hs).run hrun₁
  obtain ⟨X, i, stored, tr₃, tr₄, rfl, hX, hfresh⟩ := put_of_hit hconfW hfalse hput hrun₂ hhit
  obtain ⟨_, hrun₃, -⟩ := hrun₂.split_at
  refine ⟨X, i, stored, by simp, hX, hfresh, ?_⟩
  refine (hstored _ X i (hrun₁.append (.cons hput hrun₃)) hX).imp_right ?_
  intro hgranted
  have hall : tr₁ ++ (W, .put j now) :: (tr₃ ++ (X, .put i stored) :: tr₄) =
      (tr₁ ++ (W, .put j now) :: tr₃) ++ (X, .put i stored) :: tr₄ := by simp
  rw [hall]
  exact hgranted.append

end Validations

namespace Demo

/-- The API knows no token any more. -/
def revoked : Network where
  resolve _ _ := .ok [⟨lit "10.0.0.1", false, false⟩]
  exchange _ _ _ _ := .ok ⟨401, []⟩

/-- Two calls miss the cache. The first one is granted the token, which is then revoked: the second
one is denied it and returns false; then the first one stores its grant, and a third call returns
true. -/
theorem stale_grant : ∃ tr V,
    exec (Validations.step authParse) (.init (Fin 3) authConfig)
      [.call 0 (lit "key"), .get 0 0, .query 0 authNetwork, .call 1 (lit "key"), .get 1 0,
        .query 1 revoked, .put 1 1000000000, .put 0 2000000000, .call 2 (lit "key"),
        .get 2 3000000000] = some (tr, V) ∧
      V.calls 1 = .returned (lit "key") false ∧ V.calls 2 = .returned (lit "key") true :=
  ⟨_, _, rfl, rfl, rfl⟩

/-- The grant that the third call finds was stored after the denial, by a call that overlaps it. -/
theorem stale_grant_overlaps : ∃ tr V W' trU U,
    exec (Validations.step authParse) (.init (Fin 3) authConfig)
      [.call 0 (lit "key"), .get 0 0, .query 0 authNetwork, .call 1 (lit "key"), .get 1 0] =
        some (tr, V) ∧
      exec (Validations.step authParse) W' [.put (0 : Fin 3) 2000000000, .call 2 (lit "key")] =
        some (trU, U) ∧
      ∃ X i stored, (X, .put i stored) ∈ trU ∧ X.calls i = .storing (lit "key") true ∧
        3000000000 - stored < 300 * 1000000000 := by
  obtain ⟨tr, V, V', W, W', U, trW, trU, hrun, hasked, hdenied, hs, hW, hstoring, hput, hU, hlook,
      hhit⟩ : ∃ tr V V' W W' U trW trU,
      exec (Validations.step authParse) (.init (Fin 3) authConfig)
        [.call 0 (lit "key"), .get 0 0, .query 0 authNetwork, .call 1 (lit "key"), .get 1 0] =
          some (tr, V) ∧ V.calls 1 = .querying (lit "key") ∧
        ApiAuthClient.validate authConfig authParse revoked (lit "key") = .denied ∧
        V.step authParse (.query 1 revoked) = some V' ∧
        exec (Validations.step authParse) V' [] = some (trW, W) ∧
        W.calls 1 = .storing (lit "key") false ∧ W.step authParse (.put 1 1000000000) = some W' ∧
        exec (Validations.step authParse) W' [.put 0 2000000000, .call 2 (lit "key")] =
          some (trU, U) ∧ U.calls 2 = .looking (lit "key") ∧
        (U.manager.cache.get (lit "key") 3000000000).2 = some true :=
    ⟨_, _, _, _, _, _, _, _, rfl, rfl, rfl, rfl, rfl, rfl, rfl, rfl, rfl, rfl⟩
  obtain ⟨X, i, stored, hmem, hX, hfresh, -⟩ :=
    (Validations.grant_after_denial (Run.of_exec hrun) hasked hdenied hs).2 trW W _ W' trU U 2 _
      (Run.of_exec hW) hstoring hput (Run.of_exec hU) hlook hhit
  exact ⟨tr, V, W', trU, U, hrun, hU, X, i, stored, hmem, hX, hfresh⟩

end Demo

end JotaTranscriber
