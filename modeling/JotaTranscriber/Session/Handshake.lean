import Mathlib.Data.List.Induction
import JotaTranscriber.Session.Gate
import JotaTranscriber.Session.HandleEnd
import JotaTranscriber.Session.Settings

/-! # The first message of a session

A client that waits for `ready` loses nothing but errors: until a config has
succeeded there is no engine, so that neither thread has a transcription or a
warning to write, and the `ready` of that config is written before any audio
is taken in.
-/

namespace JotaTranscriber

open Transition

/-- `generateSessionId`, of the clock in milliseconds and a random number. -/
def generateSessionId (timestamp : ℤ) (dis : ℕ) : Bytes :=
  lit "session-" ++ (lit (toString timestamp) ++ (lit "-" ++ lit (toString dis)))

theorem isUtf8_generateSessionId (timestamp : ℤ) (dis : ℕ) :
    isUtf8 (generateSessionId timestamp dis) = true := by
  simp only [generateSessionId, isUtf8_lit_append, isUtf8_lit]

/-- The strings that the parser makes are UTF-8: it refuses any other text. -/
def Platform.ReadsUtf8 (P : Platform) : Prop :=
  ∀ message msg key s, P.parse message = .ok msg → msg.find? key = some (.string s) →
    isUtf8 s = true

/-- Errors, and then the `ready` of the session before anything else. -/
def Greeted (params : SessionParams) (sent : List Message) : Prop :=
  ∃ errors language rest, (∀ m ∈ errors, m.isError = true) ∧ sent =
    errors ++ .ready 1 params.sessionId language 16000 params.whisperBeamSize :: rest

theorem Greeted.append {params : SessionParams} {sent : List Message} (h : Greeted params sent)
    (sent' : List Message) : Greeted params (sent ++ sent') := by
  obtain ⟨errors, language, rest, he, rfl⟩ := h
  exact ⟨errors, language, rest ++ sent', he, by simp⟩

theorem Message.ready_dumps {version sampleRate : ℕ} {sessionId language : Bytes} {beamSize : ℤ} :
    (Message.ready version sessionId language sampleRate beamSize).dumps =
      (isUtf8 sessionId && isUtf8 language) := by
  simp [Message.dumps, Message.strings, isUtf8_lit]

/-- In a handler that does not ask for an engine, or about to write refusals. -/
def Receiver.unready : Receiver → Bool
  | writing out => out.all Output.refuses
  | acquiring _ | installing _ _ | leaving | left | joining | destroyed => true
  | audio _ | ending | forcing => false

theorem Choices.next_utf8 {P : Platform} (hP : P.ReadsUtf8) {c : Choices}
    (h : isUtf8 c.asked.language = true) (p : Threads × Event) :
    isUtf8 (c.next P p).asked.language = true := by
  unfold Choices.next
  split
  · split
    · rename_i msg _ hparse _
      simp only [Json.choice]
      split
      · exact hP _ _ _ _ hparse ‹_›
      · exact h
    · exact h
  · exact h
  · split <;> exact h
  · split <;> exact h
  · exact h

/-- Only UTF-8 is ever asked for. -/
theorem choices_utf8 {P : Platform} (hP : P.ReadsUtf8) (tr : List (Threads × Event)) :
    isUtf8 (choices P tr).asked.language = true := by
  induction tr using List.reverseRecOn with
  | nil => exact isUtf8_lit _
  | append_singleton tr p ih =>
    rw [choices, List.foldl_append]
    exact Choices.next_utf8 hP ih p

namespace Threads

variable {P : Platform} {params : SessionParams} {start timestamp : ℤ} {dis : ℕ}
  {t t' : Threads} {ev : Event} {tr : List (Threads × Event)} {s : Session} {r : Receiver}
  {f : Flusher}

/-- What is written stays written. -/
theorem step_sent (hs : t.step P ev = some t') :
    ∃ sent, t'.session.ws.sent = t.session.ws.sent ++ sent := by
  have same {s s' : Session} (h : s'.ws = s.ws) : ∃ sent, s'.ws.sent = s.ws.sent ++ sent :=
    ⟨[], by rw [h, List.append_nil]⟩
  cases step_moves hs with
  | text message validate _ => exact same (by rw [Session.handleJsonMessage_eq])
  | binary data now _ => exact same (by rw [Session.handleBinaryMessage_eq])
  | @write s f o out =>
    cases o with
    | message m => exact ⟨_, Session.sent_sendMessage⟩
    | final => exact same rfl
    | close reason =>
      refine ⟨[], ?_⟩
      simp only [Session.perform, WebSocket.close]
      split <;> simp
  | audio pcm now _ => exact same (by rw [Session.processAudioChunk_eq])
  | install ctx vadThold initState now _ =>
    rcases Session.installEngine_cases _ ctx vadThold initState now with
      ⟨_, x, hr⟩ | ⟨_, e, _, _, hr⟩ <;> rw [hr] <;> exact same rfl
  | endReturn whisper hw => exact same (Session.handleEndLocked_ws hw)
  | release _ | joined => exact same (by rw [Session.releaseModel_eq])
  | flushReturn n whisper m hw => exact same (Session.flushCycle_ws hw)
  | flushSend m => exact ⟨_, Session.sent_sendMessage⟩
  | _ => exact same rfl

/-- The members a session has before its first `ready` is written. -/
structure Unready (t : Threads) : Prop where
  sent : ∀ m ∈ t.session.ws.sent, m.isError = true
  flusher : t.flusher = .waiting ∨ t.flusher = .stopped
  receiver : (t.session.configured = false ∧ t.receiver.unready = true) ∨
    (t.session.ws.closed = none ∧ t.session.bufferSize = 0 ∧
      t.receiver = .writing [.message t.session.readyMessage])

theorem unready_init : Unready (init params start) := by
  constructor <;> simp [init, Receiver.unready]

theorem Unready.ne_inferring (h : Unready t) (n : ℕ) : t.flusher ≠ .inferring n := by
  rcases h.flusher with hf | hf <;> rw [hf] <;> simp

theorem Unready.ne_sending (h : Unready t) (m : Message) : t.flusher ≠ .sending m := by
  rcases h.flusher with hf | hf <;> rw [hf] <;> simp

/-- No flush cycle starts before the `ready` is written. -/
theorem Unready.flushReady (h : Unready t) (now : ℤ) : t.session.flushReady now = none := by
  have hsize := h.receiver
  unfold Session.flushReady
  cases he : t.session.engine with
  | none => rfl
  | some e =>
    rcases hsize with ⟨hc, -⟩ | ⟨-, hempty, -⟩
    · simp [hc]
    · have hlen : e.getBufferSize = 0 := by simpa [Session.bufferSize, he] using hempty
      simp [Session.flushTriggered, hlen, Session.minBufferSamples]

/-- A step of the receive loop that writes nothing, in a session that is not configured. -/
theorem Unready.moved {s s' : Session} {r r' : Receiver} {f : Flusher} (h : Unready ⟨s, r, f⟩)
    (hs : s'.ws.sent = s.ws.sent) (hc : s'.configured = false) (hr : r'.unready = true) :
    Unready ⟨s', r', f⟩ :=
  ⟨by rw [hs]; exact h.sent, h.flusher, .inl ⟨hc, hr⟩⟩

/-- The `ready` is not written yet, or it was the first message but for errors. -/
def Opening (params : SessionParams) (t : Threads) : Prop :=
  Unready t ∨ Greeted params t.session.ws.sent

/-- Where the receive loop stands tells whether the session is configured. -/
theorem Unready.configured (h : Unready ⟨s, r, f⟩)
    (hr : ∀ m, r ≠ .writing [.message m]) : s.configured = false ∧ r.unready = true := by
  rcases h.receiver with h | ⟨-, -, hw⟩
  · exact h
  · exact absurd hw (hr _)

theorem Unready.write {o : Output} {out : List Output} (h : Unready ⟨s, .writing (o :: out), f⟩)
    (hp : s.params = params) (hd : s.readyMessage.dumps = true) :
    Opening params ⟨(s.perform o).1, .writing ((s.perform o).2 ++ out), f⟩ := by
  have hreceiver : _ ∨ (s.ws.closed = none ∧ _ ∧
    Receiver.writing (o :: out) = .writing [.message s.readyMessage]) := h.receiver
  rcases hreceiver with ⟨hc, hr⟩ | ⟨hopen, -, hw⟩
  · simp only [Receiver.unready, List.all_cons, Bool.and_eq_true] at hr
    left
    cases o with
    | message m =>
      have hm : m.isError = true := by
        cases m <;> first | rfl | cases hr.1
      refine ⟨?_, h.flusher, .inl ⟨?_, hr.2⟩⟩
      · rw [Session.perform, Session.sent_sendMessage]
        split
        · exact List.forall_mem_append.mpr ⟨h.sent, by simpa using hm⟩
        · simpa using h.sent
      · rw [Session.perform, Session.sendMessage_eq]
        exact hc
    | final => cases hr.1
    | close reason =>
      refine h.moved ?_ hc hr.2
      simp only [Session.perform, WebSocket.close]
      split <;> rfl
  · obtain ⟨rfl, rfl⟩ := List.cons.inj (Receiver.writing.inj hw)
    right
    refine ⟨s.ws.sent, s.language, [], h.sent, ?_⟩
    rw [Session.perform, Session.sent_sendMessage, if_pos ⟨hopen, hd⟩, Session.readyMessage, hp]

theorem Unready.step (h : Unready t) (ho : Orderly t) (hp : t.session.params = params)
    (hd : t.session.readyMessage.dumps = true) (hs : t.step P ev = some t') :
    Opening params t' := by
  cases step_moves hs with
  | write o out => exact h.write hp hd
  | @text s f message validate _ =>
    obtain ⟨hc, -⟩ := h.configured (by simp)
    left
    rcases Session.handleJsonMessage_cases P s message validate with
      ⟨r, heq, hcases⟩ | ⟨-, language, v, heq⟩ <;> rw [heq]
    · refine h.moved rfl hc ?_
      rcases hcases with rfl | ⟨hconf, -⟩ | ⟨out, rfl, hout⟩
      · rfl
      · exact absurd (hc.symm.trans hconf) (by simp)
      · exact List.all_eq_true.mpr hout
    · exact h.moved rfl hc rfl
  | @binary s f data now _ =>
    obtain ⟨hc, -⟩ := h.configured (by simp)
    left
    rcases Session.handleBinaryMessage_cases P s data now with ⟨out, heq, hout⟩ | ⟨hconf, -⟩
    · rw [heq]
      exact h.moved rfl hc (List.all_eq_true.mpr hout)
    · exact absurd (hc.symm.trans hconf) (by simp)
  | @install s f ctx v initState now _ =>
    obtain ⟨hc, -⟩ := h.configured (by simp)
    left
    rcases Session.installEngine_cases s ctx v initState now with
      ⟨_, x, heq⟩ | ⟨_, e, _, he, heq⟩ <;> rw [heq]
    · exact h.moved rfl hc rfl
    · have hempty : e.getBufferSize = 0 := List.length_eq_zero_iff.mpr he
      exact ⟨h.sent, h.flusher, .inr ⟨ho.isOpen rfl, hempty, rfl⟩⟩
  | acquired ctx v => exact .inl (h.moved rfl (h.configured (by simp)).1 rfl)
  | acquireFailed x v => exact .inl (h.moved rfl (h.configured (by simp)).1 rfl)
  | disconnect => exact .inl (h.moved rfl (h.configured (by simp)).1 rfl)
  | audio pcm now _ => cases (h.configured (by simp)).2
  | endLock _ => cases (h.configured (by simp)).2
  | endReturn whisper _ => cases (h.configured (by simp)).2
  | endThrow whisper x _ => cases (h.configured (by simp)).2
  | release _ | joined =>
    rw [Session.releaseModel_eq]
    exact .inl (h.moved rfl (h.configured (by simp)).1 rfl)
  | destroy => exact .inl (h.moved rfl (h.configured (by simp)).1 rfl)
  | flushSkip now slot => exact .inl h
  | flushLock now n _ hready =>
    rw [show _ = none from h.flushReady now] at hready
    cases hready
  | flushReturn n whisper m _ => exact absurd rfl (h.ne_inferring n)
  | flushThrow n whisper x _ => exact absurd rfl (h.ne_inferring n)
  | flushSend m => exact absurd rfl (h.ne_sending m)
  | flushStop => exact .inl { h with flusher := .inr rfl }

theorem opening_of_run (hP : P.ReadsUtf8) (hid : isUtf8 params.sessionId = true)
    (hrun : Run (step P) (init params start) tr t) : Opening params t := by
  induction hrun with
  | nil => exact .inl unready_init
  | @snoc tr s s' ev hr hs ih =>
    have hf := follows_of_run hr
    rcases ih with h | h
    · refine h.step (orderly_of_reachable ⟨tr, hr⟩) hf.sessionParams ?_ hs
      rw [Session.readyMessage, Message.ready_dumps, hf.sessionParams, hid, hf.language,
        choices_utf8 hP tr]
      rfl
    · obtain ⟨sent, hsent⟩ := step_sent hs
      exact .inr (by rw [hsent]; exact h.append sent)

end Threads

section Runs

variable {P : Platform} {params : SessionParams} {start timestamp : ℤ} {dis : ℕ} {t : Threads}

/-- In every reachable state of a session, the first message written that is no error is `ready`,
with the id of the session, the sample rate and the beam size of the server. -/
theorem greeted_of_reachable (hP : P.ReadsUtf8)
    (hid : params.sessionId = generateSessionId timestamp dis)
    (h : Reachable (Threads.step P) (Threads.init params start) t) :
    (∀ m ∈ t.session.ws.sent, m.isError = true) ∨ Greeted params t.session.ws.sent := by
  obtain ⟨tr, hrun⟩ := h
  rcases Threads.opening_of_run hP (by rw [hid, isUtf8_generateSessionId]) hrun with h | h
  · exact .inl h.sent
  · exact .inr h

end Runs

namespace Demo

theorem platform_readsUtf8 : platform.ReadsUtf8 := by
  have hobject (key : Bytes) (s : Bytes) (v : String)
      (h : (Json.object [(lit "type", .string (lit v))]).find? key = some (.string s)) :
      isUtf8 s = true := by
    simp only [Json.find?, List.find?] at h
    split at h
    · obtain rfl : lit v = s := by simpa using h
      exact isUtf8_lit v
    · simp at h
  intro message msg key s hparse hfind
  simp only [platform] at hparse
  split at hparse
  · cases hparse
    exact hobject key s _ hfind
  · split at hparse
    · cases hparse
      exact hobject key s _ hfind
    · cases hparse

/-- A config is answered with `ready`. -/
theorem greeted_config : ∃ t, Reachable (Threads.step platform)
    (Threads.init { params with sessionId := generateSessionId 1700000000000 1234 } 0) t ∧
    t.session.ws.sent ≠ [] ∧ ((∀ m ∈ t.session.ws.sent, m.isError = true) ∨
      Greeted { params with sessionId := generateSessionId 1700000000000 1234 }
        t.session.ws.sent) := by
  have hexec : (exec (Threads.step platform)
      (Threads.init { params with sessionId := generateSessionId 1700000000000 1234 } 0)
      [.text (lit "config") fun _ => true, .acquired (.ok 0), .install true 0, .write]).map
        (fun r => r.2.session.ws.sent.length) = some 1 := by decide +kernel
  obtain ⟨r, hr, hlength⟩ := Option.map_eq_some_iff.mp hexec
  have hreach : Reachable (Threads.step platform) _ r.2 := ⟨_, Run.of_exec hr⟩
  exact ⟨_, hreach, fun h => by simp [h] at hlength,
    greeted_of_reachable platform_readsUtf8 rfl hreach⟩

end Demo

end JotaTranscriber
