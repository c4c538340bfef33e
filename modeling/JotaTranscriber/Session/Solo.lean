import JotaTranscriber.Session.Invariants
import JotaTranscriber.Whisper.Commit

/-! # Undisturbed runs

What a client gets when nothing comes between: a config brings the session to
`ws_.read` with a fresh engine, a frame within the limits is added to the
buffer, and a flush cycle that gets the lock and a slot applies its result.
-/

namespace JotaTranscriber

open Transition

namespace Session

theorem length_samples (P : Platform) (data : Bytes) :
    (samples P data).length = data.length / 4 := by
  fun_induction samples P data with
  | case1 a b c d rest ih => simp only [List.length_cons, ih]; omega
  | case2 data h =>
    match data with
    | [] | [_] | [_, _] | [_, _, _] => simp
    | a :: b :: c :: d :: rest => exact absurd rfl (h a b c d rest)

/-- A session whose engine has been given the samples of a frame. -/
def withFrame (P : Platform) (s : Session) (e : StreamingWhisperEngine) (data : Bytes)
    (now : ℤ) : Session :=
  { s with
    bytesReceivedInWindow := s.bytesReceivedInWindow + data.length
    lastAudioTime := now
    engine := some (e.processAudioChunk (samples P data)).1
    bufferOverflowed := false }

section

variable {P : Platform} {s : Session} {e : StreamingWhisperEngine} {data : Bytes} {now : ℤ}

@[simp] theorem withFrame_engine :
    (s.withFrame P e data now).engine = some (e.processAudioChunk (samples P data)).1 := rfl

@[simp] theorem withFrame_ws : (s.withFrame P e data now).ws = s.ws := rfl

@[simp] theorem withFrame_configured : (s.withFrame P e data now).configured = s.configured := rfl

@[simp] theorem withFrame_flushRunning :
    (s.withFrame P e data now).flushRunning = s.flushRunning := rfl

@[simp] theorem withFrame_rateLimitStart :
    (s.withFrame P e data now).rateLimitStart = s.rateLimitStart := rfl

@[simp] theorem withFrame_lastTranscribedSize :
    (s.withFrame P e data now).lastTranscribedSize = s.lastTranscribedSize := rfl

@[simp] theorem withFrame_fullTranscription :
    (s.withFrame P e data now).fullTranscription = s.fullTranscription := rfl

@[simp] theorem withFrame_rawTranscription :
    (s.withFrame P e data now).rawTranscription = s.rawTranscription := rfl

end

end Session

namespace Threads

variable {P : Platform} {s : Session} {e : StreamingWhisperEngine} {data : Bytes} {now : ℤ}

/-- The steps of a frame that is handled at once. -/
def frameTrace (P : Platform) (s : Session) (data : Bytes) (now : ℤ) : List (Threads × Event) :=
  [(⟨s, .writing [], .waiting⟩, .binary data now),
    (⟨{ s with bytesReceivedInWindow := s.bytesReceivedInWindow + data.length },
      .audio (Session.samples P data), .waiting⟩, .audio now)]

/-- A frame of whole samples, within the size and rate limits, on a buffer below the high-water
mark reaches the engine. -/
theorem frame_run (hc : s.configured = true) (he : s.engine = some e)
    (ho : s.ws.closed = none) (h4 : data.length % 4 = 0) (hmin : 4 ≤ data.length)
    (hmax : data.length ≤ Session.maxFrameBytes)
    (hw : (now - s.rateLimitStart).tdiv 1000000000 < 3)
    (hb : e.audioBuffer.length < highWaterMark) :
    Run (step P) ⟨s, .writing [], .waiting⟩ (frameTrace P s data now)
      ⟨s.withFrame P e data now, .writing [], .waiting⟩ := by
  have hover : (e.processAudioChunk (Session.samples P data)).2 = false := by
    rw [StreamingWhisperEngine.processAudioChunk_dropped]
    exact decide_eq_false (by omega)
  refine Run.cons ?_ (Run.single ?_)
  · simp only [step, receiverStep, ho, if_true, Session.handleBinaryMessage]
    rw [if_neg (by omega), if_neg (by omega), if_neg (by simp [hc]), if_neg (by simp [h4]),
      if_neg (by omega)]
  · simp [step, receiverStep, Flusher.holdsLock, Session.processAudioChunk, he, hc, hover,
      Session.withFrame]

theorem step_of_flushReady {r : Receiver} {currentSize : ℕ} (hr : r ≠ .forcing)
    (hf : s.flushRunning = true) (h : s.flushReady now = some currentSize) :
    step P ⟨s, r, .waiting⟩ (.flushLock now true) = some ⟨s, r, .inferring currentSize⟩ := by
  simp [step, flusherStep, hf, hr, h]

/-- A flush cycle that gets the lock and a slot. -/
theorem flush_run {r : Receiver} {currentSize : ℕ} {whisper : WhisperFull} {s' : Session}
    {m : Option Message} (hr : r ≠ .forcing) (hf : s.flushRunning = true)
    (h : s.flushReady now = some currentSize)
    (hw : s.flushCycle currentSize whisper = .ok (s', m)) :
    Run (step P) ⟨s, r, .waiting⟩
      [(⟨s, r, .waiting⟩, .flushLock now true),
        (⟨s, r, .inferring currentSize⟩, .flushReturn whisper)]
      ⟨s', r, m.elim .waiting .sending⟩ := by
  refine Run.cons (step_of_flushReady hr hf h) (Run.single ?_)
  cases m <;> simp [step, flusherStep, hw]

end Threads

/-! ## A session that has just been configured -/

namespace Demo

/-- Two messages parse, and every sample is zero. -/
def platform : Platform where
  parse message :=
    if message = lit "config" then .ok (.object [(lit "type", .string (lit "config"))])
    else if message = lit "end" then .ok (.object [(lit "type", .string (lit "end"))])
    else .error (.parseError (lit "syntax error"))
  sample _ _ _ _ := 0

def params : SessionParams where
  modelPath := lit "ggml-small.bin"
  sessionId := lit "session-0"
  authEnabled := false
  whisperBeamSize := 1
  whisperThreads := 4
  whisperInitialPrompt := []
  whisperTemperature := 0
  whisperTemperatureInc := 0
  whisperNoSpeechThold := 3 / 10
  whisperLogprobThold := -7 / 10

def start : Session := { params, rateLimitStart := 0, lastAudioTime := 0 }

/-- Before the locked section of `handleConfig`. -/
def installing : Threads := ⟨start, .installing 0 0, .waiting⟩

def configured : Session := (start.installEngine 0 0 true 0).1

/-- After the locked section of `handleConfig`. -/
def installed : Threads := ⟨configured, .writing [.message configured.readyMessage], .waiting⟩

def ready : Session := configured.sendMessage configured.readyMessage

/-- The engine of the config, with an empty buffer. -/
def engine : StreamingWhisperEngine := start.setUpEngine { ctx := 0 } 0

theorem step_install :
    installing.step platform (.install true 0) = some installed := rfl

theorem step_ready :
    installed.step platform .write = some ⟨ready, .writing [], .waiting⟩ := rfl

def readyTrace : List (Threads × Event) :=
  [(Threads.init params 0, .text (lit "config") fun _ => true),
    (⟨start, .acquiring 0, .waiting⟩, .acquired (.ok 0)), (installing, .install true 0),
    (installed, .write)]

theorem ready_run :
    Run (Threads.step platform) (Threads.init params 0) readyTrace ⟨ready, .writing [], .waiting⟩ :=
  .cons rfl (.cons rfl (.cons step_install (.single step_ready)))

theorem installing_reachable :
    Reachable (Threads.step platform) (Threads.init params 0) installing :=
  ⟨_, .cons (e := .text (lit "config") fun _ => true) rfl (.single (e := .acquired (.ok 0)) rfl)⟩

theorem ready_eq : ready = { configured with ws := ready.ws } := Session.sendMessage_eq _ _

@[simp] theorem ready_engine : ready.engine = some engine := by rw [ready_eq]; rfl

@[simp] theorem ready_open : ready.ws.closed = none := Session.sendMessage_closed _ _

@[simp] theorem ready_configured : ready.configured = true := by rw [ready_eq]; rfl

@[simp] theorem ready_flushRunning : ready.flushRunning = true := by rw [ready_eq]; rfl

@[simp] theorem ready_rateLimitStart : ready.rateLimitStart = 0 := by rw [ready_eq]; rfl

@[simp] theorem ready_lastTranscribedSize : ready.lastTranscribedSize = 0 := by rw [ready_eq]; rfl

@[simp] theorem ready_fullTranscription : ready.fullTranscription = [] := by rw [ready_eq]; rfl

@[simp] theorem ready_rawTranscription : ready.rawTranscription = [] := by rw [ready_eq]; rfl

@[simp] theorem engine_audioBuffer : engine.audioBuffer = [] := rfl

/-- A frame of `n` samples. -/
@[irreducible] def frame (n : ℕ) : Bytes := List.replicate (4 * n) 0

/-- The engine `e` with a frame of `n` samples more. -/
@[irreducible] def fill (e : StreamingWhisperEngine) (n : ℕ) : StreamingWhisperEngine :=
  (e.processAudioChunk (Session.samples platform (frame n))).1

theorem frame_length (n : ℕ) : (frame n).length = 4 * n := by
  rw [frame, List.length_replicate]

theorem fill_eq (e : StreamingWhisperEngine) (n : ℕ) :
    (e.processAudioChunk (Session.samples platform (frame n))).1 = fill e n := by
  rw [fill]

theorem fill_size {e : StreamingWhisperEngine} {n : ℕ} (h : e.audioBuffer.length < highWaterMark) :
    (fill e n).audioBuffer.length = min maxBufferSamples (e.audioBuffer.length + n) := by
  rw [fill, StreamingWhisperEngine.processAudioChunk_size, if_neg (by omega),
    Session.length_samples, frame_length, Nat.mul_div_cancel_left n (by decide)]

/-- A session between two frames, within its first rate-limit window. -/
structure Listening (s : Session) (e : StreamingWhisperEngine) : Prop where
  configured : s.configured = true
  engine : s.engine = some e
  isOpen : s.ws.closed = none
  running : s.flushRunning = true
  window : s.rateLimitStart = 0

theorem listening_ready : Listening ready engine :=
  ⟨ready_configured, ready_engine, ready_open, ready_flushRunning, ready_rateLimitStart⟩

theorem Listening.withFrame {s : Session} {e : StreamingWhisperEngine} (h : Listening s e)
    (n : ℕ) : Listening (s.withFrame platform e (frame n) 0) (fill e n) where
  configured := h.configured
  engine := by rw [Session.withFrame_engine, fill_eq]
  isOpen := h.isOpen
  running := h.running
  window := h.window

theorem Listening.applyResult {s : Session} {e : StreamingWhisperEngine} (h : Listening s e)
    (n : ℕ) (res : TranscribeResult) (e' : StreamingWhisperEngine) :
    Listening (s.applyResult n res e') e' :=
  ⟨h.configured, rfl, h.isOpen, h.running, h.window⟩

theorem Listening.flushReady {s : Session} {e : StreamingWhisperEngine} (h : Listening s e)
    (hmin : 32000 ≤ e.audioBuffer.length)
    (hnew : s.lastTranscribedSize + 4000 ≤ e.audioBuffer.length)
    (hmax : e.audioBuffer.length ≤ maxBufferSamples) :
    s.flushReady 0 = some e.audioBuffer.length := by
  have hsub : 4000 ≤ sizeSub e.audioBuffer.length s.lastTranscribedSize := by
    rw [sizeSub]
    simp only [maxBufferSamples] at hmax
    omega
  simp [Session.flushReady, h.engine, h.configured, StreamingWhisperEngine.getBufferSize,
    Session.flushTriggered, Session.minBufferSamples, Session.minNewSamples, hmin, hsub]

/-- A frame of at most 16 s, sent at once after the config. -/
theorem frame_run {s : Session} {e : StreamingWhisperEngine} {n : ℕ} (h : Listening s e)
    (hmin : 1 ≤ n) (hmax : n ≤ 262144) (hb : e.audioBuffer.length < highWaterMark) :
    Run (Threads.step platform) ⟨s, .writing [], .waiting⟩
      (Threads.frameTrace platform s (frame n) 0)
      ⟨s.withFrame platform e (frame n) 0, .writing [], .waiting⟩ := by
  have hl := frame_length n
  refine Threads.frame_run h.configured h.engine h.isOpen ?_ ?_ ?_ ?_ hb
  · omega
  · omega
  · rw [hl, Session.maxFrameBytes]; omega
  · simp [h.window]

/-- A flush thread between two cycles, with a message to write or not. -/
def idle (m : Option Message) : Flusher := m.elim .waiting .sending

/-- The steps of a flush cycle on a buffer of `n` samples. -/
def cycleTrace (s : Session) (r : Receiver) (n : ℕ) (whisper : WhisperFull) :
    List (Threads × Event) :=
  [(⟨s, r, .waiting⟩, .flushLock 0 true), (⟨s, r, .inferring n⟩, .flushReturn whisper)]

theorem cycle_run {s : Session} {e e' : StreamingWhisperEngine} {r : Receiver}
    {whisper : WhisperFull} {res : TranscribeResult} {n : ℕ} (h : Listening s e)
    (hn : e.audioBuffer.length = n) (hr : r ≠ .forcing) (hmin : 32000 ≤ n)
    (hnew : s.lastTranscribedSize + 4000 ≤ n) (hmax : n ≤ maxBufferSamples)
    (htr : e.transcribeSlidingWindow whisper false = .ok (res, e')) :
    Run (Threads.step platform) ⟨s, r, .waiting⟩ (cycleTrace s r n whisper)
      ⟨s.applyResult n res e', r, idle ((s.applyResult n res e').partialMessage res)⟩ := by
  subst hn
  exact Threads.flush_run hr h.running (h.flushReady hmin hnew hmax)
    (Session.flushCycle_of_transcribe _ h.engine htr)

theorem step_end {s : Session} {e : StreamingWhisperEngine} (h : Listening s e)
    (m : Option Message) :
    Threads.step platform ⟨s, .writing [], idle m⟩ (.text (lit "end") fun _ => true) =
      some ⟨s, .ending, idle m⟩ := by
  have hp : platform.parse (lit "end") = .ok (.object [(lit "type", .string (lit "end"))]) := rfl
  have hne : lit "end" ≠ lit "config" := by decide
  have hm : s.handleJsonMessage platform (lit "end") (fun _ => true) = (s, .ending) := by
    simp [Session.handleJsonMessage, hp, Json.find?, Json.getString, hne, h.configured]
  cases m <;> simp [Threads.step, Threads.receiverStep, idle, h.isOpen, hm]

/-- The locked section of `end`, when nothing is heard. -/
def endTrace (s : Session) (m : Option Message) : List (Threads × Event) :=
  [(⟨s, .ending, idle m⟩, .endLock), (⟨s, .forcing, idle m⟩, .endReturn (hears []))]

theorem end_run {s : Session} {e : StreamingWhisperEngine} (h : Listening s e)
    (m : Option Message) :
    Run (Threads.step platform) ⟨s, .ending, idle m⟩ (endTrace s m)
      ⟨s.finishEnd [], .writing Session.endOutputs, idle m⟩ := by
  have hlock : s.handleEndLocked (hears []) = .ok (s.finishEnd []) := by
    have he : ({ s with engine := some e } : Session) = s := by rw [← h.engine]
    simp only [Session.handleEndLocked, h.engine, transcribe_hears_nothing, he]
  refine Run.cons (s := ⟨s, .forcing, idle m⟩) ?_ (Run.single ?_) <;> cases m <;>
    simp [Threads.step, Threads.receiverStep, idle, Flusher.holdsLock, hlock]

/-- The final message composed and written. -/
def finalTrace (s : Session) (m : Option Message) : List (Threads × Event) :=
  [(⟨s, .writing Session.endOutputs, idle m⟩, .write),
    (⟨s, .writing [.message (.transcription s.fullTranscription true), .close .normal], idle m⟩,
      .write)]

theorem final_run (s : Session) (m : Option Message) :
    Run (Threads.step platform) ⟨s, .writing Session.endOutputs, idle m⟩ (finalTrace s m)
      ⟨s.sendMessage (.transcription s.fullTranscription true), .writing [.close .normal],
        idle m⟩ := by
  cases m <;> exact .cons rfl (.single rfl)

end Demo

end JotaTranscriber
