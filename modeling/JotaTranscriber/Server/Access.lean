import JotaTranscriber.Auth.Provenance
import JotaTranscriber.Server.Process
import JotaTranscriber.Server.SessionRuns
import JotaTranscriber.Session.Gate

/-! # Who is served

The sessions of the process ask one auth manager, each from inside the handler
of the frame that holds the token. With auth enabled a session does nothing
for its client before one of its own frames held the static token, or a token
that the API vouched for in the call this frame made.
-/

namespace JotaTranscriber

open Transition

/-- What `main` hands to the auth manager. -/
def ServerConfig.authConfig (config : ServerConfig) : ApiAuthConfig where
  apiBaseUrl := config.authApiUrl
  apiSecretKey := config.authApiSecret
  timeoutSeconds := config.authApiTimeout
  cacheTtlSeconds := config.authCacheTtl
  staticToken := config.authToken

/-- The token of a config frame that has one. -/
def configToken (P : Platform) (message : Bytes) : Option Bytes :=
  match P.parse message with
  | .error _ => none
  | .ok msg =>
    match msg.find? (lit "type"), msg.find? (lit "token") with
    | some (.string type), some (.string token) => if type = lit "config" then some token else none
    | _, _ => none

/-- A text frame that a session handles, and the verdicts it takes for those of the manager. -/
structure TextFrame where
  session : ℕ
  message : Bytes
  validate : Bytes → Bool

def ProcessEvent.textFrame : ProcessEvent → Option TextFrame
  | .server (.thread session (.text message validate)) => some { session, message, validate }
  | _ => none

/-- The process with its auth manager. A call of `validate` is known by the session that makes it
and the number of text frames that the session has handled before. -/
structure Gateway where
  process : Process
  validations : Validations (ℕ × ℕ)
  frames : ℕ → ℕ

inductive GatewayEvent where
  | process (ev : ProcessEvent)
  | validate (ev : ValidateEvent (ℕ × ℕ))

namespace Gateway

def init (config : ServerConfig) (sessionId : ℕ → Bytes) (start : ℕ → ℤ) : Gateway where
  process := .init config sessionId start
  validations := .init (ℕ × ℕ) config.authConfig
  frames _ := 0

/-- The call for the frame that a session handles has returned, with the verdict that it takes. -/
def Answers (P : Platform) (g : Gateway) (f : TextFrame) : Prop :=
  g.validations.manager.authEnabled = true → ∀ token ∈ configToken P f.message,
    g.validations.calls (f.session, g.frames f.session) = .returned token (f.validate token)

instance (P : Platform) (g : Gateway) (f : TextFrame) : Decidable (g.Answers P f) :=
  inferInstanceAs (Decidable (_ → _))

/-- A session calls while it handles its next frame. -/
def Calls (g : Gateway) : ValidateEvent (ℕ × ℕ) → Prop
  | .call c _ => g.process.Lives c.1 ∧ c.2 = g.frames c.1
  | .get _ _ | .query _ _ | .put _ _ => True

instance (g : Gateway) : (ev : ValidateEvent (ℕ × ℕ)) → Decidable (g.Calls ev)
  | .call c _ => inferInstanceAs (Decidable (g.process.Lives c.1 ∧ c.2 = g.frames c.1))
  | .get _ _ | .query _ _ | .put _ _ => isTrue trivial

/-- The text frames handled after an event. -/
def framesAfter (g : Gateway) (ev : ProcessEvent) : ℕ → ℕ :=
  match ev.textFrame with
  | some f => Function.update g.frames f.session (g.frames f.session + 1)
  | none => g.frames

def step (P : Platform) (g : Gateway) : GatewayEvent → Option Gateway
  | .process ev =>
    if ∀ f ∈ ev.textFrame, g.Answers P f then
      (g.process.step P ev).map fun process => { g with process, frames := g.framesAfter ev }
    else none
  | .validate ev =>
    if g.Calls ev then
      (g.validations.step P.parse ev).map fun validations => { g with validations }
    else none

/-- All that one step can do. -/
inductive Moves (P : Platform) (g : Gateway) : GatewayEvent → Gateway → Prop where

  | process {ev : ProcessEvent} {p' : Process} : (∀ f ∈ ev.textFrame, g.Answers P f) →
      g.process.step P ev = some p' →
      Moves P g (.process ev) { g with process := p', frames := g.framesAfter ev }

  | validate {ev : ValidateEvent (ℕ × ℕ)} {V' : Validations (ℕ × ℕ)} : g.Calls ev →
      g.validations.step P.parse ev = some V' →
      Moves P g (.validate ev) { g with validations := V' }

variable {P : Platform} {g g' : Gateway} {ev : GatewayEvent} {tr : List (Gateway × GatewayEvent)}
  {config : ServerConfig} {sessionId : ℕ → Bytes} {start : ℕ → ℤ}

theorem step_moves (h : g.step P ev = some g') : Moves P g ev g' := by
  cases ev with
  | process ev =>
    obtain ⟨hanswers, hmap⟩ := Option.ite_none_right_eq_some.mp h
    obtain ⟨p', hs, rfl⟩ := Option.map_eq_some_iff.mp hmap
    exact .process hanswers hs
  | validate ev =>
    obtain ⟨hcalls, hmap⟩ := Option.ite_none_right_eq_some.mp h
    obtain ⟨V', hs, rfl⟩ := Option.map_eq_some_iff.mp hmap
    exact .validate hcalls hs

def processEvent : GatewayEvent → Option ProcessEvent
  | .process ev => some ev
  | .validate _ => none

def validateEvent : GatewayEvent → Option (ValidateEvent (ℕ × ℕ))
  | .process _ => none
  | .validate ev => some ev

def processTrace : List (Gateway × GatewayEvent) → List (Process × ProcessEvent) :=
  project process fun _ => processEvent

def validateTrace : List (Gateway × GatewayEvent) →
    List (Validations (ℕ × ℕ) × ValidateEvent (ℕ × ℕ)) :=
  project validations fun _ => validateEvent

theorem run_process (hrun : Run (step P) (init config sessionId start) tr g) :
    Run (Process.step P) (.init config sessionId start) (processTrace tr) g.process := by
  have h₀ : Process.init config sessionId start = (init config sessionId start).process := rfl
  rw [h₀]
  refine hrun.project fun q _ q' hstep => ?_
  obtain ⟨q, ev⟩ := q
  cases step_moves hstep with
  | process _ hs => exact .inr ⟨_, rfl, hs⟩
  | validate _ _ => exact .inl ⟨rfl, rfl⟩

theorem run_validations (hrun : Run (step P) (init config sessionId start) tr g) :
    Run (Validations.step P.parse) (.init (ℕ × ℕ) config.authConfig) (validateTrace tr)
      g.validations := by
  have h₀ : Validations.init (ℕ × ℕ) config.authConfig =
      (init config sessionId start).validations := rfl
  rw [h₀]
  refine hrun.project fun q _ q' hstep => ?_
  obtain ⟨q, ev⟩ := q
  cases step_moves hstep with
  | process _ _ => exact .inl ⟨rfl, rfl⟩
  | validate _ hs => exact .inr ⟨_, rfl, hs⟩

end Gateway

theorem configToken_eq_some {P : Platform} {message token : Bytes} :
    configToken P message = some token ↔ ConfigToken P message token := by
  unfold configToken ConfigToken
  cases P.parse message with
  | error x => simp
  | ok msg =>
    simp only [Except.ok.injEq, exists_eq_left']
    split
    · rename_i kind token' hkind htoken
      rw [hkind, htoken]
      simp
    · rename_i hneither
      constructor
      · rintro ⟨⟩
      · rintro ⟨hkind, htoken⟩
        exact absurd htoken (hneither _ _ hkind)

namespace Validations

variable {ι : Type*} [DecidableEq ι] {parse : Bytes → Except Exn Json} {config : ApiAuthConfig}
  {V V' : Validations ι} {ev : ValidateEvent ι} {tr : List (Validations ι × ValidateEvent ι)}

/-- The call has not begun, or has compared with the static token. -/
def Compared (config : ApiAuthConfig) (call : ValidateCall) : Prop :=
  call = .idle ∨
    ∃ token, call = .returned token (AuthManager.constantTimeEqual token config.staticToken)

/-- With a static token every call compares with it, and is done. -/
theorem compared_step (h : ∀ c, Compared config (V.calls c)) (hconfigured : Configured config V)
    (hstatic : config.staticToken ≠ []) (hs : V.step parse ev = some V') (c : ι) :
    Compared config (V'.calls c) := by
  have hnone {i : ι} {call : ValidateCall} (hcall : V.calls i = call) (hidle : call ≠ .idle)
      (hreturned : ∀ token b, call ≠ .returned token b) : False := by
    rcases h i with hi | ⟨token, hi⟩
    · exact hidle (hcall.symm.trans hi)
    · exact hreturned _ _ (hcall.symm.trans hi)
  cases step_moves hs with
  | @call i token _ =>
    have hmanager : V.manager.begin token = (AuthManager.new config).begin token := by
      rw [← hconfigured]
      rfl
    apply set_calls_elim (p := Compared config)
    · rintro -
      refine .inr ⟨token, ?_⟩
      rw [hmanager]
      simp [AuthManager.begin, AuthManager.new, hstatic]
    · intro _
      exact h c
  | hit hcall _ => exact (hnone hcall (by simp) (by simp)).elim
  | miss hcall => exact (hnone hcall (by simp) (by simp)).elim
  | unavailable hcall => exact (hnone hcall (by simp) (by simp)).elim
  | answered hcall _ => exact (hnone hcall (by simp) (by simp)).elim
  | put hcall => exact (hnone hcall (by simp) (by simp)).elim

/-- With a static token, no other is accepted. -/
theorem eq_staticToken (hstatic : config.staticToken ≠ [])
    (hrun : Run (step parse) (init ι config) tr V) {c : ι} {token : Bytes}
    (h : V.calls c = .returned token true) : token = config.staticToken := by
  have hboth : Configured config V ∧ ∀ c, Compared config (V.calls c) :=
    hrun.invariant (I := fun V => Configured config V ∧ ∀ c, Compared config (V.calls c))
      ⟨rfl, fun _ => .inl rfl⟩
      fun _ _ _ hb hs => ⟨hb.1.step hs, compared_step hb.2 hb.1 hstatic hs⟩
  rcases hboth.2 c with hidle | ⟨token', hreturned⟩
  · rw [hidle] at h
    cases h
  · rw [hreturned] at h
    simp only [ValidateCall.returned.injEq] at h
    rw [← h.1]
    exact AuthManager.constantTimeEqual_iff.mp h.2

end Validations

/-- A session that nobody has opened is untouched. -/
theorem Threads.untouched_of_run {P : Platform} {params : SessionParams} {start : ℤ} {t : Threads}
    {tr : List (Threads × Event)} (hauth : params.authEnabled = true)
    (hrun : Run (step P) (init params start) tr t) (hev : ∀ p ∈ tr, ¬ p.2.Admits P) :
    Untouched start tr t := by
  have h := shut_of_run hauth hrun hev
  refine ⟨h.configured, h.engine, fun v => ⟨fun p hp => ?_, h.ne_acquiring v⟩, h.language,
    h.bytesReceivedInWindow, h.rateLimitStart, h.sent⟩
  obtain ⟨tr₁, tr₂, rfl⟩ := List.append_of_mem hp
  obtain ⟨_, hrun₁, _⟩ := hrun.split_at
  exact (shut_of_run hauth hrun₁ fun q hq => hev q (by simp [hq])).ne_acquiring v

namespace Gateway

variable {P : Platform} {g : Gateway} {tr : List (Gateway × GatewayEvent)} {config : ServerConfig}
  {sessionId : ℕ → Bytes} {start : ℕ → ℤ}

/-- The token that a call was made for is the static one, or else the API vouched for it in this
call. -/
def Vouched (P : Platform) (config : ServerConfig) (tr : List (Gateway × GatewayEvent))
    (call : ℕ × ℕ) (token : Bytes) : Prop :=
  if config.authToken ≠ [] then token = config.authToken
  else Validations.Vouched P.parse (validateTrace tr) call token config.authCacheTtl

theorem validateTrace_append {tr' : List (Gateway × GatewayEvent)} :
    validateTrace (tr ++ tr') = validateTrace tr ++ validateTrace tr' := project_append

/-- A call that has accepted its token had reason to. -/
theorem vouched_of_returned (henabled : config.authApiUrl ≠ [] ∨ config.authToken ≠ [])
    (hrun : Run (step P) (init config sessionId start) tr g) {call : ℕ × ℕ} {token : Bytes}
    (h : g.validations.calls call = .returned token true) : Vouched P config tr call token := by
  unfold Vouched
  split
  · rename_i hstatic
    exact Validations.eq_staticToken hstatic (run_validations hrun) h
  · rename_i hstatic
    have hurl : config.authApiUrl ≠ [] := henabled.resolve_right hstatic
    have hcall := (Validations.justified_of_run hurl (not_not.mp hstatic)
      (run_validations hrun)).calls call
    rwa [h] at hcall

theorem Vouched.append {tr' : List (Gateway × GatewayEvent)} {call : ℕ × ℕ} {token : Bytes}
    (h : Vouched P config tr call token) : Vouched P config (tr ++ tr') call token := by
  unfold Vouched at h ⊢
  split
  · rename_i hstatic
    rwa [if_pos hstatic] at h
  · rename_i hstatic
    rw [if_neg hstatic] at h
    rw [validateTrace_append]
    exact h.append

theorem authEnabled_of_run (henabled : config.authApiUrl ≠ [] ∨ config.authToken ≠ [])
    (hrun : Run (step P) (init config sessionId start) tr g) :
    g.validations.manager.authEnabled = true := by
  have h₀ : Validations.Configured config.authConfig
      (Validations.init (ℕ × ℕ) config.authConfig) := rfl
  have hconfigured := h₀.run (run_validations hrun)
  have hmanager : g.validations.manager.authEnabled =
      (AuthManager.new config.authConfig).authEnabled := by rw [← hconfigured]
  rw [hmanager]
  simp only [AuthManager.new, ServerConfig.authConfig, Bool.or_eq_true]
  exact henabled.imp decide_eq_true decide_eq_true

/-- The events of one session are found among those of the whole. -/
theorem mem_of_mem_sessionTrace {i : ℕ} {t : Threads} {message : Bytes} {validate : Bytes → Bool}
    (h : (t, .text message validate) ∈
      Server.sessionTrace i (Process.serverTrace (processTrace tr))) :
    ∃ q ∈ tr, q.2 = .process (.server (.thread i (.text message validate))) := by
  obtain ⟨⟨S, sev⟩, hS, hevent⟩ := List.mem_filterMap.mp h
  obtain ⟨e, he, heq⟩ := Option.map_eq_some_iff.mp hevent
  obtain rfl : e = .text message validate := congrArg Prod.snd heq
  have hsev : sev = .thread i (.text message validate) := by
    cases sev with
    | thread j ev =>
      obtain ⟨rfl, hev⟩ := Option.ite_none_right_eq_some.mp he
      rw [Option.some.inj hev]
    | releaseModel j now =>
      obtain ⟨-, hev⟩ := Option.ite_none_right_eq_some.mp he
      have hnot := Option.some.inj hev
      split at hnot <;> cases hnot
    | fire timer => cases he
    | _ =>
      obtain ⟨-, hev⟩ := Option.ite_none_right_eq_some.mp he
      cases hev
  obtain ⟨⟨p, pev⟩, hp, -, hpev⟩ := mem_project.mp hS
  obtain ⟨⟨g, gev⟩, hg, -, hgev⟩ := mem_project.mp hp
  refine ⟨(g, gev), hg, ?_⟩
  cases pev with
  | listener lev => cases hpev
  | server sev' =>
    cases gev with
    | validate vev => cases hgev
    | process pev' =>
      cases hpev
      cases hgev
      rw [← hsev]

end Gateway

namespace Demo

/-- The frame `config` has a token, and the API answers as in `authNetwork`. -/
def tokenPlatform : Platform where
  parse message :=
    if message = lit "config" then
      .ok (.object [(lit "type", .string (lit "config")), (lit "token", .string (lit "key"))])
    else authParse message
  sample := platform.sample

def gateway : Gateway :=
  .init { authApiUrl := lit "http://auth" } (fun _ => lit "session") fun _ => 0

/-- A client connects, the API approves of its token, and its session gets an engine. -/
def admission : List GatewayEvent :=
  (ListenerEvent.asyncWait :: connect ++ [ListenerEvent.construct 0]).map
      (fun ev => .process (.listener ev)) ++
    [.validate (.call (0, 0) (lit "key")), .validate (.get (0, 0) 0),
      .validate (.query (0, 0) authNetwork), .validate (.put (0, 0) 0),
      .process (.server (.thread 0 (.text (lit "config") fun token => token = lit "key"))),
      .process (.server (.acquire 0 true)), .process (.server (.thread 0 (.install true 0)))]

end Demo

end JotaTranscriber
