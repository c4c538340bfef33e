import JotaTranscriber.Session.ConfigFailure

/-! # The settings of an inference

What a client asks for in its config messages, and which of it is in force: a
config that fails leaves the engine with the settings it had, and the language
`auto` gives way to what whisper detects. Each call of whisper is made with the
settings in force, filled up with those of the server.
-/

namespace JotaTranscriber

open Transition

/-- What a config message chooses. -/
structure Choice where
  language : Bytes
  vadThold : ℚ
  deriving DecidableEq, Repr

/-- The choice of a message, where one without a language keeps the language asked for before. -/
def Json.choice (msg : Json) (language : Bytes) : Choice where
  language :=
    match msg.find? (lit "language") with
    | some (.string asked) => asked
    | _ => language
  vadThold :=
    match msg.find? (lit "vad_thold") with
    | some (.number q) => q
    | _ => 0

/-- A detected language replaces `auto`. -/
def Choice.detect (k : Choice) (reply : WhisperReply) : Choice :=
  if reply.result = 0 ∧ k.language = lit "auto" then
    { k with language := reply.lang.getD k.language }
  else k

/-- The answer of whisper to a call on the buffer of the session, if it makes one. -/
def Session.reply (s : Session) (whisper : WhisperFull) : Option WhisperReply :=
  match s.engine with
  | some e => if e.audioBuffer = [] then none else some (e.infer whisper)
  | none => none

structure Choices where
  asked : Choice := ⟨lit "es", 0⟩
  /-- That of the last config that made a decoder state. -/
  inForce : Option Choice := none

/-- What a step changes. A config message counts once it has passed the gate. -/
def Choices.next (P : Platform) (c : Choices) : Threads × Event → Choices
  | (t, .text message validate) =>
    match P.parse message, (t.session.handleJsonMessage P message validate).2 with
    | .ok msg, .acquiring _ => { c with asked := msg.choice c.asked.language }
    | _, _ => c
  | (_, .install true _) => { c with inForce := some c.asked }
  | (t, .flushReturn whisper) | (t, .endReturn whisper) =>
    match t.session.reply whisper with
    | some reply => { c with inForce := c.inForce.map fun k => k.detect reply }
    | none => c
  | _ => c

/-- The choices of a client after the steps of a trace. -/
def choices (P : Platform) (tr : List (Threads × Event)) : Choices :=
  tr.foldl (Choices.next P) {}

/-- The parameters of an inference on a buffer of `size` samples. -/
def SessionParams.fullParams (p : SessionParams) (k : Choice) (size : ℕ) : WhisperFullParams where
  language := k.language
  nThreads := if 0 < p.whisperThreads then p.whisperThreads else 4
  beamSize :=
    if 1 < p.whisperBeamSize then some p.whisperBeamSize
    else if 0 < p.whisperBeamSize then none
    else some 5
  temperature := p.whisperTemperature
  temperatureInc := p.whisperTemperatureInc
  noSpeechThold := if 0 < k.vadThold then k.vadThold else p.whisperNoSpeechThold
  logprobThold := p.whisperLogprobThold
  audioCtx := StreamingWhisperEngine.audioCtx size
  initialPrompt := if p.whisperInitialPrompt = [] then none else some p.whisperInitialPrompt

/-! ## The settings of an engine -/

namespace StreamingWhisperEngine

variable {e e' : StreamingWhisperEngine} {p : SessionParams} {k : Choice} {whisper : WhisperFull}
  {force : Bool} {res : TranscribeResult}

/-- The engine has the settings of the server and those of a choice. -/
structure Uses (e : StreamingWhisperEngine) (p : SessionParams) (k : Choice) : Prop where
  language : e.language = k.language
  vadThold : e.vadThold = k.vadThold
  nThreads : e.nThreads = if 0 < p.whisperThreads then p.whisperThreads else 4
  beamSize : e.beamSize = if 0 < p.whisperBeamSize then p.whisperBeamSize else 5
  temperature : e.temperature = p.whisperTemperature
  temperatureInc : e.temperatureInc = p.whisperTemperatureInc
  noSpeechThold : e.noSpeechThold = p.whisperNoSpeechThold
  logprobThold : e.logprobThold = p.whisperLogprobThold
  initialPrompt : e.initialPrompt = p.whisperInitialPrompt

theorem Uses.fullParams (h : e.Uses p k) :
    e.fullParams = p.fullParams k e.audioBuffer.length := by
  have hbeam : (if 1 < e.beamSize then some e.beamSize else none) =
      if 1 < p.whisperBeamSize then some p.whisperBeamSize
      else if 0 < p.whisperBeamSize then none else some 5 := by
    rw [h.beamSize]
    split_ifs <;> first | rfl | omega
  simp only [StreamingWhisperEngine.fullParams, SessionParams.fullParams, hbeam, h.language,
    h.vadThold, h.nThreads, h.temperature, h.temperatureInc, h.noSpeechThold, h.logprobThold,
    h.initialPrompt]

/-- The members that adding audio, committing and trimming may change are no settings. -/
theorem Uses.edit (h : e.Uses p k) (audioBuffer : List ℚ) (hpPrevRaw hpPrevFiltered : ℚ) :
    ({ e with audioBuffer, hpPrevRaw, hpPrevFiltered } : StreamingWhisperEngine).Uses p k :=
  { h with }

theorem Uses.processAudioChunk (h : e.Uses p k) (pcm : List ℚ) :
    (e.processAudioChunk pcm).1.Uses p k := by
  unfold StreamingWhisperEngine.processAudioChunk
  split
  · exact h
  · exact h.edit _ _ _

theorem Uses.lockLanguage (h : e.Uses p k) {reply : WhisperReply} (hr : reply.result = 0) :
    (e.lockLanguage reply.lang).Uses p (k.detect reply) := by
  unfold StreamingWhisperEngine.lockLanguage Choice.detect
  rw [h.language]
  by_cases hauto : k.language = lit "auto"
  · rw [if_pos hauto, if_pos ⟨hr, hauto⟩]
    cases hlang : reply.lang with
    | none => exact h
    | some detected =>
      by_cases hd : detected = lit "auto"
      · simp only [if_pos hd]
        exact { h with language := by rw [h.language, hauto, hd]; rfl }
      · simp only [if_neg hd]
        exact { h with language := rfl }
  · rw [if_neg hauto, if_neg fun h => hauto h.2]
    exact h

/-- After a call that returns, the engine has its settings, and the language detected. -/
theorem Uses.transcribe (h : e.Uses p k)
    (hw : e.transcribeSlidingWindow whisper force = .ok (res, e')) :
    e'.Uses p (if e.audioBuffer = [] then k else k.detect (e.infer whisper)) := by
  rcases transcribe_eq_ok.mp hw with ⟨hnil, -, rfl⟩ | ⟨hne, hresult, hc⟩
  · rwa [if_pos hnil]
  · rw [if_neg hne]
    have hlock := h.lockLanguage hresult
    rcases commitWindow_cases (e.lockLanguage (e.infer whisper).lang) (e.infer whisper).segments
      force with ⟨i, t, -, -, heq⟩ | ⟨-, heq⟩
    all_goals
      rw [heq, Prod.mk.injEq] at hc
      rw [hc.2]
    · exact hlock.edit _ _ _
    · exact hlock

end StreamingWhisperEngine

namespace Session

variable {P : Platform} {s s' : Session} {message : Bytes} {validate : Bytes → Bool} {msg : Json}
  {whisper : WhisperFull}

theorem configure_acquiring {v : ℚ} (h : s.configure msg = (s', .acquiring v)) :
    s' = { s with language := (msg.choice s.language).language } ∧
      v = (msg.choice s.language).vadThold := by
  unfold configure at h
  simp only [Json.choice]
  cases hl : msg.find? (lit "language") with
  | none =>
    simp only [hl, Prod.mk.injEq, Receiver.acquiring.injEq] at h
    exact ⟨h.1.symm, h.2.symm⟩
  | some j =>
    cases hj : j.getString with
    | error x => simp [hl, hj] at h
    | ok language =>
      obtain rfl := Json.getString_eq_ok.mp hj
      simp only [hl, hj, Prod.mk.injEq, Receiver.acquiring.injEq] at h
      exact ⟨h.1.symm, h.2.symm⟩

/-- A config that passes the gate leaves the language and the threshold it chooses. -/
theorem handleJsonMessage_acquiring {v : ℚ}
    (h : s.handleJsonMessage P message validate = (s', .acquiring v)) :
    ∃ msg, P.parse message = .ok msg ∧
      s' = { s with language := (msg.choice s.language).language } ∧
      v = (msg.choice s.language).vadThold := by
  obtain ⟨msg, hp, hc⟩ := handleJsonMessage_configure h (.inl rfl)
  exact ⟨msg, hp, configure_acquiring hc⟩

theorem releaseModel_engine (s : Session) :
    s.releaseModel.engine = s.engine ∨ s.releaseModel.engine = none := by
  unfold releaseModel
  split
  · exact .inr rfl
  · exact .inl rfl

/-- The engine of a config has the settings of the session. -/
theorem setUpEngine_uses (s : Session) (ctx : WhisperContext) (v : ℚ) :
    (s.setUpEngine { ctx } v).Uses s.params ⟨s.language, v⟩ := by
  constructor <;>
    simp only [setUpEngine, StreamingWhisperEngine.setThreads,
      StreamingWhisperEngine.setBeamSize] <;>
    split_ifs <;> simp_all

theorem installEngine_true (s : Session) (ctx : WhisperContext) (v : ℚ) (now : ℤ) :
    (s.installEngine ctx v true now).1.engine = some (s.setUpEngine { ctx } v) ∧
      (s.installEngine ctx v true now).1.language = s.language ∧
      (s.installEngine ctx v true now).1.params = s.params :=
  ⟨rfl, rfl, rfl⟩

end Session

/-! ## The settings in force -/

namespace Threads

variable {P : Platform} {params : SessionParams} {start : ℤ} {t t' : Threads} {ev : Event}
  {tr : List (Threads × Event)} {c : Choices} {s : Session} {r : Receiver} {f : Flusher}

/-- The session has what its client has asked for, and its engine what is in force. -/
structure Follows (params : SessionParams) (c : Choices) (t : Threads) : Prop where
  sessionParams : t.session.params = params
  language : t.session.language = c.asked.language
  acquiring : ∀ v, t.receiver = .acquiring v → v = c.asked.vadThold
  installing : ∀ ctx v, t.receiver = .installing ctx v → v = c.asked.vadThold
  engine : ∀ e, t.session.engine = some e → ∃ k, c.inForce = some k ∧ e.Uses params k

theorem follows_init : Follows params {} (init params start) := by
  constructor <;> simp [init]

theorem Follows.frame (h : Follows params c t) (hp : t'.session.params = t.session.params)
    (hl : t'.session.language = t.session.language)
    (he : t'.session.engine = t.session.engine ∨ t'.session.engine = none)
    (hr : t'.receiver.isConfiguring = true → t'.receiver = t.receiver) :
    Follows params c t' where
  sessionParams := hp.trans h.sessionParams
  language := hl.trans h.language
  acquiring v hv := h.acquiring v (by rw [← hr (by rw [hv]; rfl), hv])
  installing ctx v hv := h.installing ctx v (by rw [← hr (by rw [hv]; rfl), hv])
  engine e hs := by
    rcases he with he | he
    · exact h.engine e (he ▸ hs)
    · rw [he] at hs
      cases hs

/-- A step on the engine alone, as its choice takes it. -/
theorem Follows.edit (h : Follows params c t) (hp : t'.session.params = t.session.params)
    (hl : t'.session.language = t.session.language) (hr : t'.receiver.isConfiguring = true →
      t'.receiver = t.receiver) {f : Choice → Choice}
    (he : ∀ e', t'.session.engine = some e' →
      ∃ e, t.session.engine = some e ∧ ∀ k, e.Uses params k → e'.Uses params (f k)) :
    Follows params { c with inForce := c.inForce.map f } t' where
  sessionParams := hp.trans h.sessionParams
  language := hl.trans h.language
  acquiring v hv := h.acquiring v (by rw [← hr (by rw [hv]; rfl), hv])
  installing ctx v hv := h.installing ctx v (by rw [← hr (by rw [hv]; rfl), hv])
  engine e' hs := by
    obtain ⟨e, hse, huses⟩ := he e' hs
    obtain ⟨k, hk, hu⟩ := h.engine e hse
    exact ⟨f k, by rw [hk]; rfl, huses k hu⟩

/-- The choice in force after a step that calls whisper on the engine of the session. -/
theorem next_of_call {whisper : WhisperFull} {e : StreamingWhisperEngine}
    (hev : ev = .flushReturn whisper ∨ ev = .endReturn whisper) (he : t.session.engine = some e) :
    c.next P (t, ev) =
      { c with inForce := c.inForce.map fun k =>
          if e.audioBuffer = [] then k else k.detect (e.infer whisper) } := by
  rcases hev with rfl | rfl <;> simp only [Choices.next, Session.reply, he] <;>
    by_cases hnil : e.audioBuffer = [] <;> simp [hnil]

theorem next_of_no_engine {whisper : WhisperFull}
    (hev : ev = .flushReturn whisper ∨ ev = .endReturn whisper) (he : t.session.engine = none) :
    c.next P (t, ev) = c := by
  rcases hev with rfl | rfl <;> simp only [Choices.next, Session.reply, he]

/-- A call that returns leaves the settings and the language it detected. -/
theorem Follows.call (h : Follows params c t) {whisper : WhisperFull} {force : Bool}
    {res : TranscribeResult} {e e' : StreamingWhisperEngine}
    (hev : ev = .flushReturn whisper ∨ ev = .endReturn whisper)
    (he : t.session.engine = some e) (he' : t'.session.engine = some e')
    (hw : e.transcribeSlidingWindow whisper force = .ok (res, e'))
    (hp : t'.session.params = t.session.params)
    (hl : t'.session.language = t.session.language)
    (hr : t'.receiver.isConfiguring = true → t'.receiver = t.receiver) :
    Follows params (c.next P (t, ev)) t' := by
  rw [next_of_call hev he]
  refine h.edit hp hl hr fun e₁ he₁ => ⟨e, he, fun k hu => ?_⟩
  obtain rfl : e' = e₁ := Option.some.inj (he'.symm.trans he₁)
  exact hu.transcribe hw

/-- A call that throws changes nothing. -/
theorem Follows.throws (h : Follows params c t) {whisper : WhisperFull}
    (hev : ev = .flushReturn whisper ∨ ev = .endReturn whisper)
    (hfail : ∀ e, t.session.engine = some e → (e.infer whisper).result ≠ 0)
    (hs : t'.session = t.session)
    (hr : t'.receiver.isConfiguring = true → t'.receiver = t.receiver) :
    Follows params (c.next P (t, ev)) t' := by
  cases he : t.session.engine with
  | none =>
    rw [next_of_no_engine hev he]
    exact h.frame (by rw [hs]) (by rw [hs]) (.inl (by rw [hs])) hr
  | some e =>
    rw [next_of_call hev he]
    refine h.edit (by rw [hs]) (by rw [hs]) hr fun e₁ he₁ => ⟨e₁, by rw [← hs]; exact he₁, ?_⟩
    intro k hu
    have hkeep : k.detect (e.infer whisper) = k := if_neg fun hd => hfail e he hd.1
    rw [hkeep, ite_self]
    exact hu

theorem Follows.text (h : Follows params c ⟨s, r, f⟩) (message : Bytes)
    (validate : Bytes → Bool) :
    Follows params (c.next P (⟨s, r, f⟩, .text message validate))
      ⟨(s.handleJsonMessage P message validate).1,
        (s.handleJsonMessage P message validate).2, f⟩ := by
  rcases Session.handleJsonMessage_cases P s message validate with
    ⟨r', hr, hc⟩ | ⟨-, language, v, hr⟩
  · have hnot : ∀ v, r' ≠ .acquiring v := by
      rintro v rfl
      rcases hc with hc | ⟨-, hc⟩ | ⟨out, hc, -⟩ <;> cases hc
    have hnext : c.next P (⟨s, r, f⟩, .text message validate) = c := by
      simp only [Choices.next, hr]
      split
      · exact absurd rfl (hnot _)
      · rfl
    rw [hnext, hr]
    refine h.frame rfl rfl (.inl rfl) ?_
    rcases hc with rfl | ⟨-, rfl⟩ | ⟨out, rfl, -⟩ <;> rintro ⟨⟩
  · obtain ⟨msg, hp, hs, hv⟩ := Session.handleJsonMessage_acquiring hr
    have hnext : c.next P (⟨s, r, f⟩, .text message validate) =
        { c with asked := msg.choice c.asked.language } := by
      simp only [Choices.next, hp, hr]
    have hlang : s.language = c.asked.language := h.language
    rw [hnext, hr, hs, hv, hlang]
    exact ⟨h.sessionParams, rfl, by rintro _ ⟨⟩; rfl, by rintro _ _ ⟨⟩, h.engine⟩

theorem Follows.step (h : Follows params c t) (hs : t.step P ev = some t') :
    Follows params (c.next P (t, ev)) t' := by
  cases step_moves hs with
  | text message validate _ => exact h.text message validate
  | binary data now _ =>
    rw [Session.handleBinaryMessage_eq]
    exact h.frame rfl rfl (.inl rfl)
      (Session.handleBinaryMessage_receiver P _ data now
        (p := fun r => r.isConfiguring = true → r = _) (by rintro _ ⟨⟩) (by rintro _ ⟨⟩))
  | write o out =>
    rw [Session.perform_eq]
    exact h.frame rfl rfl (.inl rfl) (by rintro ⟨⟩)
  | @audio s f pcm now _ =>
    rcases Session.processAudioChunk_cases s pcm now with ⟨-, hr⟩ | ⟨e, out, he, -, hr, -⟩ <;>
      rw [hr]
    · exact h.frame rfl rfl (.inl rfl) (by rintro ⟨⟩)
    · refine ⟨h.sessionParams, h.language, by rintro _ ⟨⟩, by rintro _ _ ⟨⟩, ?_⟩
      rintro _ ⟨⟩
      obtain ⟨k, hk, hu⟩ := h.engine e he
      exact ⟨k, hk, hu.processAudioChunk pcm⟩
  | acquired ctx v =>
    refine ⟨h.sessionParams, h.language, by rintro _ ⟨⟩, ?_, h.engine⟩
    rintro _ _ ⟨⟩
    exact h.acquiring v rfl
  | @install s f ctx v initState now _ =>
    cases initState with
    | false => exact h.frame rfl rfl (.inl rfl) (by rintro ⟨⟩)
    | true =>
      obtain ⟨hengine, hl, hp⟩ := Session.installEngine_true s ctx v now
      refine ⟨hp.trans h.sessionParams, hl.trans h.language, by rintro _ ⟨⟩, by rintro _ _ ⟨⟩, ?_⟩
      intro e he
      obtain rfl := Option.some.inj (hengine.symm.trans he)
      obtain rfl := h.installing ctx v rfl
      have hu := Session.setUpEngine_uses s ctx c.asked.vadThold
      rw [show s.params = params from h.sessionParams,
        show s.language = c.asked.language from h.language] at hu
      exact ⟨_, rfl, hu⟩
  | @endReturn s s' f whisper hw =>
    rcases Session.handleEndLocked_eq_ok hw with ⟨he, rfl⟩ | ⟨e, res, e', he, htr, rfl⟩
    · rw [next_of_no_engine (.inr rfl) he]
      exact h.frame rfl rfl (.inl rfl) (by rintro ⟨⟩)
    · exact h.call (.inr rfl) he rfl htr rfl rfl (by rintro ⟨⟩)
  | @endThrow s f whisper x hw =>
    refine h.throws (.inr rfl) (fun e he hok => ?_) rfl (by rintro ⟨⟩)
    obtain ⟨res, htr⟩ :=
      (StreamingWhisperEngine.transcribe_isOk_iff e whisper true).mpr (.inr hok)
    simp only at he
    simp [Session.handleEndLocked, he, htr] at hw
  | @flushReturn s s' r n whisper m hw =>
    rcases Session.flushCycle_eq_ok hw with ⟨he, rfl, -⟩ | ⟨e, res, e', he, htr, rfl, -⟩
    · rw [next_of_no_engine (.inl rfl) he]
      exact h.frame rfl rfl (.inl rfl) fun _ => rfl
    · exact h.call (.inl rfl) he rfl htr rfl rfl fun _ => rfl
  | @flushThrow s r n whisper x hw =>
    refine h.throws (.inl rfl) (fun e he hok => ?_) rfl fun _ => rfl
    obtain ⟨res, htr⟩ :=
      (StreamingWhisperEngine.transcribe_isOk_iff e whisper false).mpr (.inr hok)
    simp only at he
    simp [Session.flushCycle, he, htr] at hw
  | release _ | joined =>
    refine h.frame (by rw [Session.releaseModel_eq]) (by rw [Session.releaseModel_eq]) ?_
      (by rintro ⟨⟩)
    exact Session.releaseModel_engine _
  | flushSend m =>
    rw [Session.sendMessage_eq]
    exact h.frame rfl rfl (.inl rfl) fun _ => rfl
  | flushSkip now slot => exact h
  | flushLock now n _ _ => exact h.frame rfl rfl (.inl rfl) fun _ => rfl
  | flushStop => exact h.frame rfl rfl (.inl rfl) fun _ => rfl
  | _ => exact h.frame rfl rfl (.inl rfl) (by rintro ⟨⟩)

theorem follows_of_run (hrun : Run (step P) (init params start) tr t) :
    Follows params (choices P tr) t := by
  induction hrun with
  | nil => exact follows_init
  | snoc _ hs ih =>
    rw [choices, List.foldl_append]
    exact ih.step hs

end Threads

section Runs

variable {P : Platform} {params : SessionParams} {start : ℤ} {t : Threads}
  {tr : List (Threads × Event)} {e : StreamingWhisperEngine}

end Runs

namespace Demo

end Demo

end JotaTranscriber
