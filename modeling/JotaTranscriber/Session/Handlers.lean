import JotaTranscriber.Session.Basic

/-! # What the handlers can do

One statement for each handler: how it leaves the members of the session, and
what it leaves to do. The results about runs are derived from these and never
look into a handler again.
-/

namespace JotaTranscriber

/-- An error message, or a close with the code `policy_error`. -/
def Output.refuses : Output → Bool
  | .message (.error _ _) => true
  | .close (.policyError _) => true
  | _ => false

/-- The frame is a config message with this string under `token`. -/
def ConfigToken (P : Platform) (message token : Bytes) : Prop :=
  ∃ msg, P.parse message = .ok msg ∧ msg.find? (lit "type") = some (.string (lit "config")) ∧
    msg.find? (lit "token") = some (.string token)

/-- The gate of `handleConfig`: with auth enabled, a token of the frame was accepted. -/
def Authorised (P : Platform) (s : Session) (message : Bytes) (validate : Bytes → Bool) : Prop :=
  s.params.authEnabled = true → ∃ token, ConfigToken P message token ∧ validate token = true

namespace Session

variable {P : Platform} {s : Session} {message : Bytes} {validate : Bytes → Bool}

theorem configure_cases (s : Session) (msg : Json) :
    (∃ x, s.configure msg = (s, .writing (configFailed x))) ∨
      ∃ language vadThold, s.configure msg = ({ s with language }, .acquiring vadThold) := by
  unfold configure
  dsimp only
  split
  · exact .inl ⟨_, rfl⟩
  · exact .inr ⟨_, _, rfl⟩

theorem handleConfig_cases (s : Session) (validate : Bytes → Bool) {msg : Json}
    (hp : P.parse message = .ok msg)
    (ht : msg.find? (lit "type") = some (.string (lit "config"))) :
    (∃ out, s.handleConfig msg validate = (s, .writing out) ∧ ∀ o ∈ out, o.refuses = true) ∨
      (Authorised P s message validate ∧ ∃ language vadThold,
        s.handleConfig msg validate = ({ s with language }, .acquiring vadThold)) := by
  have hc (ha : Authorised P s message validate) :
      (∃ out, s.configure msg = (s, .writing out) ∧ ∀ o ∈ out, o.refuses = true) ∨
      (Authorised P s message validate ∧ ∃ language vadThold,
        s.configure msg = ({ s with language }, .acquiring vadThold)) := by
    rcases configure_cases s msg with ⟨x, h⟩ | h
    · exact .inl ⟨_, h, by simp [configFailed, errorOutput, Output.refuses]⟩
    · exact .inr ⟨ha, h⟩
  unfold handleConfig
  split
  · split
    · split
      · exact hc fun _ => ⟨_, ⟨msg, hp, ht, ‹_›⟩, ‹_›⟩
      · exact .inl ⟨_, rfl, by simp [errorOutput, Output.refuses]⟩
    · exact .inl ⟨_, rfl, by simp [errorOutput, Output.refuses]⟩
  · exact hc fun h => absurd h ‹_›

/-- A text frame leaves the session as it was, unless it passes the gate of `handleConfig`. -/
theorem handleJsonMessage_cases (P : Platform) (s : Session) (message : Bytes)
    (validate : Bytes → Bool) :
    (∃ r, s.handleJsonMessage P message validate = (s, r) ∧
        (r = .leaving ∨ (s.configured = true ∧ r = .ending) ∨
          ∃ out, r = .writing out ∧ ∀ o ∈ out, o.refuses = true)) ∨
      (Authorised P s message validate ∧ ∃ language vadThold,
        s.handleJsonMessage P message validate = ({ s with language }, .acquiring vadThold)) := by
  have refusal (m : Bytes) (c : ErrorCode) :
      ∀ o ∈ [errorOutput m c], o.refuses = true := by simp [errorOutput, Output.refuses]
  unfold handleJsonMessage
  split
  · exact .inl ⟨_, rfl, .inr (.inr ⟨_, rfl, refusal _ _⟩)⟩
  · exact .inl ⟨_, rfl, .inl rfl⟩
  · rename_i msg hp
    split
    · exact .inl ⟨_, rfl, .inr (.inr ⟨_, rfl, refusal _ _⟩)⟩
    · rename_i j hj
      split
      · exact .inl ⟨_, rfl, .inl rfl⟩
      · rename_i type htype
        rw [Json.getString_eq_ok.mp htype] at hj
        split
        · rename_i hconfig
          rcases handleConfig_cases s validate hp (hconfig ▸ hj) with
            ⟨out, h, ho⟩ | h
          · exact .inl ⟨_, h, .inr (.inr ⟨_, rfl, ho⟩)⟩
          · exact .inr h
        · split
          · exact .inl ⟨_, rfl, .inr (.inr ⟨_, rfl, refusal _ _⟩)⟩
          · split
            · exact .inl ⟨_, rfl, .inr (.inl ⟨by simpa using ‹¬(!s.configured) = true›, rfl⟩)⟩
            · exact .inl ⟨_, rfl, .inr (.inr ⟨_, rfl, refusal _ _⟩)⟩

/-- A binary frame moves the rate-limit counters at most, and only in a configured session. -/
theorem handleBinaryMessage_cases (P : Platform) (s : Session) (data : Bytes) (now : ℤ) :
    (∃ out, s.handleBinaryMessage P data now = (s, .writing out) ∧
        ∀ o ∈ out, o.refuses = true) ∨
      (s.configured = true ∧ ∃ bytes start r,
        s.handleBinaryMessage P data now =
          ({ s with bytesReceivedInWindow := bytes, rateLimitStart := start }, r) ∧
        (r = .audio (samples P data) ∨ ∃ out, r = .writing out ∧ ∀ o ∈ out, o.refuses = true)) := by
  unfold handleBinaryMessage
  split
  · exact .inl ⟨_, rfl, by simp [Output.refuses]⟩
  split
  · exact .inl ⟨_, rfl, by simp⟩
  split
  · exact .inl ⟨_, rfl, by simp [errorOutput, Output.refuses]⟩
  split
  · exact .inl ⟨_, rfl, by simp⟩
  refine .inr ⟨by simpa using ‹¬(!s.configured) = true›, ?_⟩
  dsimp only
  split
  · split
    · exact ⟨_, s.rateLimitStart, _, rfl, .inr ⟨_, rfl, by simp [Output.refuses]⟩⟩
    · exact ⟨_, _, _, rfl, .inl rfl⟩
  · exact ⟨_, s.rateLimitStart, _, rfl, .inl rfl⟩

/-- Where a text frame leads the receive loop, whatever it holds. -/
theorem handleJsonMessage_receiver (P : Platform) (s : Session) (message : Bytes)
    (validate : Bytes → Bool) {p : Receiver → Prop} (hleaving : p .leaving) (hending : p .ending)
    (hwriting : ∀ out, p (.writing out)) (hacquiring : ∀ vadThold, p (.acquiring vadThold)) :
    p (s.handleJsonMessage P message validate).2 := by
  rcases handleJsonMessage_cases P s message validate with
    ⟨r, hr, hc⟩ | ⟨_, language, vadThold, hr⟩ <;> rw [hr]
  · rcases hc with rfl | ⟨_, rfl⟩ | ⟨out, rfl, _⟩
    · exact hleaving
    · exact hending
    · exact hwriting out
  · exact hacquiring vadThold

/-- Where a binary frame leads the receive loop. -/
theorem handleBinaryMessage_receiver (P : Platform) (s : Session) (data : Bytes) (now : ℤ)
    {p : Receiver → Prop} (hwriting : ∀ out, p (.writing out)) (haudio : ∀ pcm, p (.audio pcm)) :
    p (s.handleBinaryMessage P data now).2 := by
  rcases handleBinaryMessage_cases P s data now with
    ⟨out, hr, _⟩ | ⟨_, bytes, start, r, hr, hc⟩ <;> rw [hr]
  · exact hwriting out
  · rcases hc with rfl | ⟨out, rfl, _⟩
    · exact haudio _
    · exact hwriting out

theorem processAudioChunk_cases (s : Session) (pcm : List ℚ) (now : ℤ) :
    ((s.engine = none ∨ s.configured = false) ∧ s.processAudioChunk pcm now = (s, [])) ∨
      ∃ e out, s.engine = some e ∧ s.configured = true ∧
        s.processAudioChunk pcm now =
          ({ s with lastAudioTime := now, engine := some (e.processAudioChunk pcm).1,
                    bufferOverflowed := (e.processAudioChunk pcm).2 }, out) ∧
        (out = [] ∨ out = [.message bufferFullWarning]) := by
  unfold processAudioChunk
  split
  · exact .inl ⟨.inl ‹_›, rfl⟩
  · split
    · exact .inl ⟨.inr (by simpa using ‹(!s.configured) = true›), rfl⟩
    · refine .inr ⟨_, _, ‹_›, by simpa using ‹¬(!s.configured) = true›, rfl, ?_⟩
      exact (ite_eq_or_eq _ _ _).symm

/-! ### The members that a section may change -/

theorem handleJsonMessage_eq (P : Platform) (s : Session) (message : Bytes)
    (validate : Bytes → Bool) : (s.handleJsonMessage P message validate).1 =
      { s with language := (s.handleJsonMessage P message validate).1.language } := by
  rcases handleJsonMessage_cases P s message validate with
    ⟨r, hr, _⟩ | ⟨_, language, vadThold, hr⟩ <;> rw [hr]

theorem handleBinaryMessage_eq (P : Platform) (s : Session) (data : Bytes) (now : ℤ) :
    (s.handleBinaryMessage P data now).1 =
      { s with
        bytesReceivedInWindow := (s.handleBinaryMessage P data now).1.bytesReceivedInWindow
        rateLimitStart := (s.handleBinaryMessage P data now).1.rateLimitStart } := by
  rcases handleBinaryMessage_cases P s data now with
    ⟨out, hr, _⟩ | ⟨_, bytes, start, r, hr, _⟩ <;> rw [hr]

theorem processAudioChunk_eq (s : Session) (pcm : List ℚ) (now : ℤ) :
    (s.processAudioChunk pcm now).1 =
      { s with
        lastAudioTime := (s.processAudioChunk pcm now).1.lastAudioTime
        engine := (s.processAudioChunk pcm now).1.engine
        bufferOverflowed := (s.processAudioChunk pcm now).1.bufferOverflowed } := by
  rcases processAudioChunk_cases s pcm now with ⟨_, hr⟩ | ⟨e, out, _, _, hr, _⟩ <;> rw [hr]

theorem releaseModel_eq (s : Session) : s.releaseModel =
    { s with engine := s.releaseModel.engine, modelAcquired := s.releaseModel.modelAcquired } := by
  unfold releaseModel
  split <;> rfl

/-- Only the socket changes when something is written. -/
theorem sendMessage_eq (s : Session) (m : Message) :
    s.sendMessage m = { s with ws := (s.sendMessage m).ws } := by
  unfold sendMessage
  split <;> rfl

theorem perform_eq (s : Session) (o : Output) :
    (s.perform o).1 = { s with ws := (s.perform o).1.ws } := by
  cases o with
  | message m => exact sendMessage_eq s m
  | _ => rfl

@[simp] theorem sendMessage_closed (s : Session) (m : Message) :
    (s.sendMessage m).ws.closed = s.ws.closed := by
  unfold sendMessage WebSocket.write
  split
  · split <;> rfl
  · rfl

/-- The engine of a fresh decoder state, with an empty buffer, or the engine there was. -/
theorem installEngine_cases (s : Session) (ctx : WhisperContext) (vadThold : ℚ)
    (initState : Bool) (now : ℤ) :
    (initState = false ∧ ∃ x, s.installEngine ctx vadThold initState now =
        ({ s with modelAcquired := true }, configFailed x)) ∨
      (initState = true ∧ ∃ e, e.ctx = ctx ∧ e.audioBuffer = [] ∧
        s.installEngine ctx vadThold initState now =
          ({ s with modelAcquired := true, engine := some e, configured := true,
                    lastTranscribedSize := 0, fullTranscription := [], rawTranscription := [],
                    lastAudioTime := now }, [.message s.readyMessage])) := by
  cases initState with
  | false => exact .inl ⟨rfl, _, rfl⟩
  | true =>
    refine .inr ⟨rfl, s.setUpEngine { ctx } vadThold, ?_, ?_, rfl⟩ <;>
      simp only [setUpEngine, StreamingWhisperEngine.setThreads,
        StreamingWhisperEngine.setBeamSize] <;>
      split_ifs <;> rfl

/-- A flush cycle that is not cut short by an exception. -/
theorem flushCycle_eq_ok {currentSize : ℕ} {whisper : WhisperFull} {s' : Session}
    {m : Option Message} (h : s.flushCycle currentSize whisper = .ok (s', m)) :
    (s.engine = none ∧ s' = s ∧ m = none) ∨
      ∃ e res e', s.engine = some e ∧ e.transcribeSlidingWindow whisper false = .ok (res, e') ∧
        s' = s.applyResult currentSize res e' ∧
        m = (s.applyResult currentSize res e').partialMessage res := by
  unfold flushCycle at h
  split at h
  · cases h; exact .inl ⟨‹_›, rfl, rfl⟩
  · split at h
    · cases h
    · cases h; exact .inr ⟨_, _, _, ‹_›, ‹_›, rfl, rfl⟩

theorem flushCycle_of_transcribe {e e' : StreamingWhisperEngine} {whisper : WhisperFull}
    {res : TranscribeResult} (currentSize : ℕ) (he : s.engine = some e)
    (h : e.transcribeSlidingWindow whisper false = .ok (res, e')) :
    s.flushCycle currentSize whisper = .ok (s.applyResult currentSize res e',
      (s.applyResult currentSize res e').partialMessage res) := by
  simp only [flushCycle, he, h]

theorem flushCycle_of_error {e : StreamingWhisperEngine} {whisper : WhisperFull} {x : Exn}
    (currentSize : ℕ) (he : s.engine = some e)
    (h : e.transcribeSlidingWindow whisper false = .error x) :
    s.flushCycle currentSize whisper = .error x := by
  simp only [flushCycle, he, h]

theorem handleEndLocked_eq_ok {whisper : WhisperFull} {s' : Session}
    (h : s.handleEndLocked whisper = .ok s') :
    (s.engine = none ∧ s' = s.finishEnd []) ∨
      ∃ e res e', s.engine = some e ∧ e.transcribeSlidingWindow whisper true = .ok (res, e') ∧
        s' = { s with engine := some e' }.finishEnd res.committedText := by
  unfold handleEndLocked at h
  split at h
  · cases h; exact .inl ⟨‹_›, rfl⟩
  · split at h
    · cases h
    · cases h; exact .inr ⟨_, _, _, ‹_›, ‹_›, rfl⟩

end Session

end JotaTranscriber
