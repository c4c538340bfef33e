import JotaTranscriber.Session.Sending
import JotaTranscriber.Session.Solo

/-! # The gate of a session

With auth enabled nothing but an accepted token opens a session: every other
frame, whatever it holds, is answered with an error or a close at most. Once
open, a configured session has its engine and its model reference until it
releases them.
-/

namespace JotaTranscriber

open Transition

def Message.isError : Message → Bool
  | error _ _ => true
  | _ => false

/-- A config frame whose string token `AuthManager::validate` accepted. -/
def Event.Admits (P : Platform) : Event → Prop
  | text message validate => ∃ token, ConfigToken P message token ∧ validate token = true
  | _ => False

/-- What a session that nobody opened is like, at the end of a run. -/
structure Untouched (start : ℤ) (tr : List (Threads × Event)) (t : Threads) : Prop where
  configured : t.session.configured = false
  engine : t.session.engine = none
  /-- The receive loop never stood before `ModelCache::acquire`. -/
  neverAcquires : ∀ vadThold,
    (∀ p ∈ tr, p.1.receiver ≠ .acquiring vadThold) ∧ t.receiver ≠ .acquiring vadThold
  language : t.session.language = lit "es"
  bytesReceivedInWindow : t.session.bytesReceivedInWindow = 0
  rateLimitStart : t.session.rateLimitStart = start
  /-- Neither `ready` nor a transcription was sent. -/
  sent : ∀ m ∈ t.session.ws.sent, m.isError = true

/-- The receive loop has at most refusals to write. -/
def Receiver.refusing : Receiver → Bool
  | writing out => out.all Output.refuses
  | leaving | left | joining | destroyed => true
  | _ => false

namespace Threads

variable {P : Platform} {params : SessionParams} {start : ℤ} {t t' : Threads} {ev : Event}
  {tr : List (Threads × Event)}

/-- What holds of a session that nobody has opened yet. -/
structure Shut (start : ℤ) (t : Threads) : Prop where
  authEnabled : t.session.params.authEnabled = true
  configured : t.session.configured = false
  engine : t.session.engine = none
  modelAcquired : t.session.modelAcquired = false
  language : t.session.language = lit "es"
  bytesReceivedInWindow : t.session.bytesReceivedInWindow = 0
  rateLimitStart : t.session.rateLimitStart = start
  sent : ∀ m ∈ t.session.ws.sent, m.isError = true
  receiver : t.receiver.refusing = true
  flusher : t.flusher = .waiting ∨ t.flusher = .stopped

theorem shut_init (h : params.authEnabled = true) : Shut start (init params start) := by
  constructor <;> simp [init, h, Receiver.refusing]

/-- A step of a shut session that moves the receive loop alone, among its refusals. -/
theorem Shut.moved {s : Session} {r r' : Receiver} {f : Flusher} (h : Shut start ⟨s, r, f⟩)
    (hr : r'.refusing = true) : Shut start ⟨s, r', f⟩ :=
  { h with receiver := hr }

theorem Shut.wrote {s : Session} {r r' : Receiver} {f : Flusher} {ws : WebSocket}
    (h : Shut start ⟨s, r, f⟩) (hws : ∀ m ∈ ws.sent, m.isError = true)
    (hr : r'.refusing = true) : Shut start ⟨{ s with ws }, r', f⟩ :=
  { h with sent := hws, receiver := hr }

theorem Shut.step (h : Shut start t) (hev : ¬ ev.Admits P) (hs : t.step P ev = some t') :
    Shut start t' := by
  have hr := h.receiver
  cases step_moves hs with
  | @text s f message validate _ =>
    rcases Session.handleJsonMessage_cases P s message validate with
      ⟨r, heq, hc⟩ | ⟨ha, _⟩
    · rw [heq]
      apply h.moved
      rcases hc with rfl | ⟨hc, _⟩ | ⟨out, rfl, hout⟩
      · rfl
      · exact absurd (h.configured.symm.trans hc) (by simp)
      · exact List.all_eq_true.mpr hout
    · exact absurd (ha h.authEnabled) hev
  | @binary s f data now _ =>
    rcases Session.handleBinaryMessage_cases P s data now with
      ⟨out, heq, hout⟩ | ⟨hc, _⟩
    · rw [heq]
      exact h.moved (List.all_eq_true.mpr hout)
    · exact absurd (h.configured.symm.trans hc) (by simp)
  | @write s f o out =>
    have hsent := h.sent
    simp only [Receiver.refusing, List.all_cons, Bool.and_eq_true] at hr
    rw [Session.perform_eq]
    cases o with
    | message m =>
      have hm : m.isError = true := by
        cases m <;> first | rfl | cases hr.1
      refine h.wrote ?_ hr.2
      rw [Session.perform, Session.sent_sendMessage]
      split
      · exact List.forall_mem_append.mpr ⟨hsent, by simpa using hm⟩
      · simpa using hsent
    | final => cases hr.1
    | close reason =>
      refine h.wrote ?_ hr.2
      simp only [Session.perform, WebSocket.close]
      split <;> exact hsent
  | disconnect => exact h.moved rfl
  | @release s f _ =>
    rw [Session.releaseModel, if_neg (by simp [show s.modelAcquired = false from h.modelAcquired])]
    exact h.moved rfl
  | destroy => exact { h with receiver := rfl }
  | @joined s =>
    rw [Session.releaseModel, if_neg (by simp [show s.modelAcquired = false from h.modelAcquired])]
    exact h.moved rfl
  | flushSkip now slot => exact h
  | @flushLock s r now n _ hready =>
    simp only [Session.flushReady, show s.engine = none from h.engine] at hready
    cases hready
  | flushReturn n whisper m hw => rcases h.flusher with hf | hf <;> cases hf
  | flushThrow n whisper x hw => rcases h.flusher with hf | hf <;> cases hf
  | flushSend m => rcases h.flusher with hf | hf <;> cases hf
  | flushStop => exact { h with flusher := .inr rfl }
  | _ => cases hr

theorem shut_of_run (h : params.authEnabled = true) (hrun : Run (step P) (init params start) tr t)
    (hev : ∀ p ∈ tr, ¬ p.2.Admits P) : Shut start t :=
  hrun.invariant_of_eachStep (I := fun _ t => Shut start t) (G := fun _ _ ev => ¬ ev.Admits P)
    (shut_init h) (fun _ _ _ _ _ h hev hs => h.step hev hs) (.of_forall fun p hp _ => hev p hp)

theorem Shut.ne_acquiring (h : Shut start t) (vadThold : ℚ) : t.receiver ≠ .acquiring vadThold := by
  intro hr
  have := h.receiver
  rw [hr] at this
  cases this

end Threads

section Runs

variable {P : Platform} {params : SessionParams} {start : ℤ} {t : Threads}
  {tr : List (Threads × Event)}

/-- With auth enabled, a run without an accepted token leaves the session untouched; and before the
model is released a configured session has an engine and its reference. -/
theorem untouched_of_not_admits (hauth : params.authEnabled = true)
    (hrun : Run (Threads.step P) (Threads.init params start) tr t) :
    ((∀ p ∈ tr, ¬ p.2.Admits P) → Untouched start tr t) ∧
      (t.receiver.released = false → t.session.configured = true →
        t.session.engine.isSome = true ∧ t.session.modelAcquired = true) := by
  refine ⟨fun hev => ?_, fun hrel hc => ?_⟩
  · have h := Threads.shut_of_run hauth hrun hev
    refine ⟨h.configured, h.engine, fun v => ⟨?_, h.ne_acquiring v⟩, h.language,
      h.bytesReceivedInWindow, h.rateLimitStart, h.sent⟩
    intro p hp
    obtain ⟨tr₁, tr₂, rfl⟩ := List.append_of_mem hp
    obtain ⟨_, hrun₁, _⟩ := hrun.split_at
    exact (Threads.shut_of_run hauth hrun₁ fun q hq => hev q (by simp [hq])).ne_acquiring v
  · have h := Threads.consistent_of_reachable ⟨tr, hrun⟩
    have he := h.configured hc hrel
    exact ⟨he, h.acquired he⟩

end Runs

namespace Demo

/-- A config message without a token is refused. -/
theorem untouched_config :
    ∃ tr t, Run (Threads.step platform) (Threads.init { params with authEnabled := true } 0) tr t ∧
      tr ≠ [] ∧ Untouched 0 tr t := by
  have hrun : Run (Threads.step platform) (Threads.init { params with authEnabled := true } 0)
      [(_, .text (lit "config") fun _ => true)] _ := .single rfl
  refine ⟨_, _, hrun, by simp, (untouched_of_not_admits rfl hrun).1 ?_⟩
  simp only [List.mem_singleton, forall_eq, Event.Admits]
  rintro ⟨token, ⟨msg, hp, _, htoken⟩, _⟩
  cases hp
  cases htoken

end Demo

end JotaTranscriber
