import JotaTranscriber.Text.HallucinationGuard
import JotaTranscriber.Whisper.Engine

/-! # A streaming session

The members of a session, the messages it writes, and the code of its handlers
cut where a thread takes or gives up `state_mutex_`: what the receive loop does
with a frame, the sections it runs under the lock, and the section of the flush
thread. Handlers that answer return what is left to write on the socket.
-/

namespace JotaTranscriber

/-- The libraries a frame goes through first: `json::parse`, and the reading of four bytes as a
`float`. -/
structure Platform where
  parse : Bytes → Except Exn Json
  sample : UInt8 → UInt8 → UInt8 → UInt8 → ℚ

inductive ErrorCode where
  | notConfigured | invalidMessage | unknownType | parseError | authRequired | authFailed
  | configError
  deriving DecidableEq, Repr

def ErrorCode.text : ErrorCode → Bytes
  | notConfigured => lit "NOT_CONFIGURED"
  | invalidMessage => lit "INVALID_MESSAGE"
  | unknownType => lit "UNKNOWN_TYPE"
  | parseError => lit "PARSE_ERROR"
  | authRequired => lit "AUTH_REQUIRED"
  | authFailed => lit "AUTH_FAILED"
  | configError => lit "CONFIG_ERROR"

/-- The JSON messages of the server. -/
inductive Message where
  | ready (protocolVersion : ℕ) (sessionId language : Bytes) (sampleRate : ℕ) (beamSize : ℤ)
  | transcription (text : Bytes) (isFinal : Bool)
  | warning (code message : Bytes)
  | error (message : Bytes) (code : ErrorCode)
  deriving DecidableEq, Repr

/-- The string values of a message. -/
def Message.strings : Message → List Bytes
  | ready _ sessionId language _ _ => [lit "ready", sessionId, language]
  | transcription text _ => [lit "transcription", text]
  | warning code message => [lit "warning", code, message]
  | error message code => [lit "error", message, code.text]

/-- Whether `dump` returns; it throws on a string that is not UTF-8. -/
def Message.dumps (m : Message) : Bool := m.strings.all isUtf8

inductive CloseReason where
  | normal
  | policyError (reason : Bytes)
  deriving DecidableEq, Repr

structure WebSocket where
  /-- The messages written so far, oldest first. -/
  sent : List Message := []
  closed : Option CloseReason := none
  deriving DecidableEq, Repr

/-- `write` throws on a closed socket, and its caller only logs that. -/
def WebSocket.write (ws : WebSocket) (m : Message) : WebSocket :=
  if ws.closed = none then { ws with sent := ws.sent ++ [m] } else ws

def WebSocket.close (ws : WebSocket) (reason : CloseReason) : WebSocket :=
  if ws.closed = none then { ws with closed := some reason } else ws

/-- What a session is constructed with. -/
structure SessionParams where
  modelPath : Bytes
  sessionId : Bytes
  authEnabled : Bool
  whisperBeamSize : ℤ
  whisperThreads : ℤ
  whisperInitialPrompt : Bytes
  whisperTemperature : ℚ
  whisperTemperatureInc : ℚ
  whisperNoSpeechThold : ℚ
  whisperLogprobThold : ℚ
  deriving DecidableEq, Repr

structure Session where
  params : SessionParams
  ws : WebSocket := {}
  engine : Option StreamingWhisperEngine := none
  configured : Bool := false
  bufferOverflowed : Bool := false
  lastTranscribedSize : ℕ := 0
  language : Bytes := lit "es"
  modelAcquired : Bool := false
  bytesReceivedInWindow : ℕ := 0
  rateLimitStart : ℤ
  flushRunning : Bool := true
  lastAudioTime : ℤ
  fullTranscription : Bytes := []
  rawTranscription : Bytes := []

/-- What the receive loop has still to do on the socket before it reads again. -/
inductive Output where
  | message (m : Message)
  /-- The final transcription, whose text is read when it is composed. -/
  | final
  | close (reason : CloseReason)
  deriving DecidableEq, Repr

/-- Where the receive loop stands; `writing []` is `ws_.read`. -/
inductive Receiver where
  | writing (out : List Output)
  /-- In `processAudioChunk`, before the lock. -/
  | audio (pcm : List ℚ)
  /-- In `handleConfig`, before `ModelCache::acquire`. -/
  | acquiring (vadThold : ℚ)
  /-- In `handleConfig`, before the lock. -/
  | installing (ctx : WhisperContext) (vadThold : ℚ)
  /-- In `handleEnd`, before the lock. -/
  | ending
  /-- In `handleEnd`, with the lock, in the forced transcription. -/
  | forcing
  /-- An exception ended the loop of `run`. -/
  | leaving
  /-- `run` has returned. -/
  | left
  /-- In the destructor, before the join of the flush thread. -/
  | joining
  | destroyed
  deriving DecidableEq, Repr

def errorOutput (message : Bytes) (code : ErrorCode) : Output := .message (.error message code)

/-- The catch clause of `handleConfig`. -/
def configFailed (x : Exn) : List Output :=
  [errorOutput (lit "Configuration failed: " ++ x.what) .configError]

/-- The subtraction of two `size_t`. -/
def sizeSub (a b : ℕ) : ℕ := (a + 2 ^ 64 - b) % 2 ^ 64

@[simp] theorem sizeSub_self (a : ℕ) : sizeSub a a = 0 := by
  rw [sizeSub, Nat.add_sub_cancel_left, Nat.mod_self]

namespace Session

def sendMessage (s : Session) (m : Message) : Session :=
  if m.dumps then { s with ws := s.ws.write m } else s

/-- The next thing on the socket, and what it leaves to do. -/
def perform (s : Session) : Output → Session × List Output
  | .message m => (s.sendMessage m, [])
  | .final => (s, [.message (.transcription s.fullTranscription true)])
  | .close reason => ({ s with ws := s.ws.close reason }, [])

def bufferSize (s : Session) : ℕ :=
  match s.engine with
  | some e => e.getBufferSize
  | none => 0

/-! ## Frames -/

/-- `handleConfig` from the authentication on. -/
def configure (s : Session) (msg : Json) : Session × Receiver :=
  let language :=
    match msg.find? (lit "language") with
    | some j => j.getString
    | none => .ok s.language
  match language with
  | .error x => (s, .writing (configFailed x))
  | .ok language =>
    let vadThold :=
      match msg.find? (lit "vad_thold") with
      | some (.number q) => q
      | _ => 0
    ({ s with language }, .acquiring vadThold)

/-- `handleConfig` up to `ModelCache::acquire`. The close after a refusal may throw; the handler
then tries to write one more error on the socket, which is closed. -/
def handleConfig (s : Session) (msg : Json) (validate : Bytes → Bool) : Session × Receiver :=
  if s.params.authEnabled then
    match msg.find? (lit "token") with
    | some (.string token) =>
      if validate token then s.configure msg
      else (s, .writing [errorOutput (lit "Invalid token") .authFailed, .close (.policyError [])])
    | _ =>
      (s, .writing [errorOutput (lit "Missing or invalid 'token'") .authRequired,
        .close (.policyError [])])
  else s.configure msg

/-- Only a parse error is caught here; any other exception ends the loop of `run`. -/
def handleJsonMessage (P : Platform) (s : Session) (message : Bytes)
    (validate : Bytes → Bool) : Session × Receiver :=
  match P.parse message with
  | .error (.parseError what) =>
    (s, .writing [errorOutput (lit "Invalid JSON: " ++ what) .parseError])
  | .error _ => (s, .leaving)
  | .ok msg =>
    match msg.find? (lit "type") with
    | none => (s, .writing [errorOutput (lit "Missing 'type' field") .invalidMessage])
    | some j =>
      match j.getString with
      | .error _ => (s, .leaving)
      | .ok type =>
        if type = lit "config" then s.handleConfig msg validate
        else if !s.configured then
          (s, .writing [errorOutput (lit "Session not configured. Send 'config' first.")
            .notConfigured])
        else if type = lit "end" then (s, .ending)
        else (s, .writing [errorOutput (lit "Unknown message type: " ++ type) .unknownType])

/-- The frame's bytes read as an array of `float`. -/
def samples (P : Platform) : Bytes → List ℚ
  | a :: b :: c :: d :: rest => P.sample a b c d :: samples P rest
  | _ => []

def maxFrameBytes : ℕ := 1024 * 1024
def maxBytesPerWindow : ℕ := 200 * 1024 * 3

def handleBinaryMessage (P : Platform) (s : Session) (data : Bytes) (now : ℤ) :
    Session × Receiver :=
  if maxFrameBytes < data.length then
    (s, .writing [.close (.policyError (lit "Frame too large"))])
  else if data.length < 4 then (s, .writing [])
  else if !s.configured then
    (s, .writing [errorOutput (lit "Session not configured. Send 'config' first.")
      .notConfigured])
  else if data.length % 4 ≠ 0 then (s, .writing [])
  else
    let elapsedS := (now - s.rateLimitStart).tdiv 1000000000
    let bytes := s.bytesReceivedInWindow + data.length
    if 3 ≤ elapsedS then
      if maxBytesPerWindow < bytes then
        ({ s with bytesReceivedInWindow := bytes },
          .writing [.close (.policyError (lit "Rate limit exceeded"))])
      else
        ({ s with bytesReceivedInWindow := 0, rateLimitStart := now }, .audio (samples P data))
    else ({ s with bytesReceivedInWindow := bytes }, .audio (samples P data))

/-! ## The receive loop under the lock -/

def bufferFullWarning : Message :=
  .warning (lit "buffer_full") (lit "Audio buffer full, dropping incoming audio")

def processAudioChunk (s : Session) (audio : List ℚ) (now : ℤ) : Session × List Output :=
  match s.engine with
  | none => (s, [])
  | some e =>
    if !s.configured then (s, [])
    else
      let (e', overflow) := e.processAudioChunk audio
      ({ s with lastAudioTime := now, engine := some e', bufferOverflowed := overflow },
        if overflow ∧ !s.bufferOverflowed then [.message bufferFullWarning] else [])

/-- A new engine, with the settings of the session. -/
def setUpEngine (s : Session) (e : StreamingWhisperEngine) (vadThold : ℚ) :
    StreamingWhisperEngine :=
  let e := { e with language := s.language }
  let e := e.setThreads s.params.whisperThreads
  let e := e.setBeamSize s.params.whisperBeamSize
  { e with
    vadThold
    temperature := s.params.whisperTemperature
    temperatureInc := s.params.whisperTemperatureInc
    noSpeechThold := s.params.whisperNoSpeechThold
    logprobThold := s.params.whisperLogprobThold
    initialPrompt :=
      if s.params.whisperInitialPrompt = [] then e.initialPrompt
      else s.params.whisperInitialPrompt }

def readyMessage (s : Session) : Message :=
  .ready 1 s.params.sessionId s.language 16000 s.params.whisperBeamSize

/-- `handleConfig` after `ModelCache::acquire`. `initState` tells whether whisper can make a
decoder state. -/
def installEngine (s : Session) (ctx : WhisperContext) (vadThold : ℚ) (initState : Bool)
    (now : ℤ) : Session × List Output :=
  match StreamingWhisperEngine.new (some ctx) initState with
  | .error x => ({ s with modelAcquired := true }, configFailed x)
  | .ok e =>
    let s :=
      { s with
        modelAcquired := true
        engine := some (s.setUpEngine e vadThold)
        configured := true
        lastTranscribedSize := 0
        fullTranscription := []
        rawTranscription := []
        lastAudioTime := now }
    (s, [.message s.readyMessage])

/-- What `handleEnd` does with the result of the forced call before it unlocks. -/
def finishEnd (s : Session) (committed : Bytes) : Session :=
  let full := s.fullTranscription ++ committed
  { s with
    fullTranscription := if full = [] ∧ s.rawTranscription ≠ [] then s.rawTranscription else full }

/-- `handleEnd` under the lock. -/
def handleEndLocked (s : Session) (whisper : WhisperFull) : Except Exn Session :=
  match s.engine with
  | none => .ok (s.finishEnd [])
  | some e =>
    match e.transcribeSlidingWindow whisper true with
    | .error x => .error x
    | .ok (res, e') => .ok ({ s with engine := some e' }.finishEnd res.committedText)

/-- `handleEnd` after it has unlocked. -/
def endOutputs : List Output := [.final, .close .normal]

/-- `releaseModel`, without the release of the cache's reference. -/
def releaseModel (s : Session) : Session :=
  if s.modelAcquired then { s with engine := none, modelAcquired := false } else s

/-! ## The flush thread under the lock -/

def minNewSamples : ℕ := 4000
def minBufferSamples : ℕ := 32000

/-- The triggers of a flush cycle on a buffer of `currentSize` samples. -/
def flushTriggered (s : Session) (currentSize : ℕ) (now : ℤ) : Bool :=
  minBufferSamples ≤ currentSize &&
    (minNewSamples ≤ sizeSub currentSize s.lastTranscribedSize ||
      (400 < (now - s.lastAudioTime).tdiv 1000000 && s.lastTranscribedSize < currentSize))

/-- The checks of a flush cycle before it asks for an inference slot: the size of the buffer it
is going to transcribe, or nothing. -/
def flushReady (s : Session) (now : ℤ) : Option ℕ :=
  match s.engine with
  | none => none
  | some e =>
    if s.configured && s.flushTriggered e.getBufferSize now then some e.getBufferSize else none

end Session

namespace TranscribeResult

def committedOk (res : TranscribeResult) : Bool :=
  res.committedText ≠ [] && !isHallucination res.committedText

def partialOk (res : TranscribeResult) : Bool :=
  res.partialText ≠ [] && !isHallucination res.partialText

end TranscribeResult

namespace Session

/-- The members a flush cycle updates after its inference. -/
def applyResult (s : Session) (currentSize : ℕ) (res : TranscribeResult)
    (e : StreamingWhisperEngine) : Session :=
  { s with
    engine := some e
    bufferOverflowed :=
      if s.bufferOverflowed ∧ e.getBufferSize < highWaterMark then false else s.bufferOverflowed
    rawTranscription :=
      if res.committedText ≠ [] then s.rawTranscription ++ res.committedText
      else s.rawTranscription
    fullTranscription :=
      if res.committedOk then s.fullTranscription ++ res.committedText else s.fullTranscription
    lastTranscribedSize := if res.committedText ≠ [] then e.getBufferSize else currentSize }

/-- The message of a flush cycle, composed before it unlocks. -/
def partialMessage (s : Session) (res : TranscribeResult) : Option Message :=
  if res.committedOk || res.partialOk then
    some (.transcription (s.fullTranscription ++ if res.partialOk then res.partialText else [])
      false)
  else none

/-- A flush cycle from its inference to its unlock. Nothing catches what the engine throws. -/
def flushCycle (s : Session) (currentSize : ℕ) (whisper : WhisperFull) :
    Except Exn (Session × Option Message) :=
  match s.engine with
  | none => .ok (s, none)
  | some e =>
    match e.transcribeSlidingWindow whisper false with
    | .error x => .error x
    | .ok (res, e') =>
      let s := s.applyResult currentSize res e'
      .ok (s, s.partialMessage res)

end Session

end JotaTranscriber
