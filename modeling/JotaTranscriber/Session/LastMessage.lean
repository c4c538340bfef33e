import JotaTranscriber.Session.HandleEnd

/-! # The last transcription of a session

A partial message is composed under the lock and written after it, and so is
the final one. The final message is the last as long as none overtakes: it is
written with no partial pending, and no cycle composes one before the close.
-/

namespace JotaTranscriber

open Transition

/-- No partial transcription after a final one. -/
def FinalLast (sent : List Message) : Prop :=
  sent.Pairwise fun m m' => m.isFinal = true → m'.isPartial = false

theorem finalLast_append {sent : List Message} {m : Message} :
    FinalLast (sent ++ [m]) ↔
      FinalLast sent ∧ ∀ m' ∈ sent, m'.isFinal = true → m.isPartial = false := by
  simp [FinalLast, List.pairwise_append]

/-- The final message is written while a partial one is pending, or a partial one is composed after
the final message was written, and the socket is still open. -/
def Overtakes (t : Threads) : Event → Prop
  | .write => t.session.ws.closed = none ∧ (∃ m, t.flusher = .sending m) ∧
      ∃ m out, t.receiver = .writing (.message m :: out) ∧ m.isFinal = true ∧ m.dumps = true
  | .flushReturn whisper => t.session.ws.closed = none ∧
      (∃ m ∈ t.session.ws.sent, m.isFinal = true) ∧
      ((t.session.heard whisper false).committedOk = true ∨
        (t.session.heard whisper false).partialOk = true)
  | _ => False

namespace Threads

variable {P : Platform} {params : SessionParams} {start : ℤ} {t t' : Threads} {ev : Event}
  {tr : History}

/-- While the socket is open after the final message, no partial one is pending. -/
structure Concluded (t : Threads) : Prop where
  finalLast : FinalLast t.session.ws.sent
  quiet : t.session.ws.closed = none → (∃ m ∈ t.session.ws.sent, m.isFinal = true) →
    ∀ m, t.flusher ≠ .sending m

theorem Concluded.frame (h : Concluded t) (hw : t'.session.ws = t.session.ws)
    (hf : ∀ m, t'.flusher = .sending m → t.flusher = .sending m) : Concluded t' where
  finalLast := by rw [hw]; exact h.finalLast
  quiet hc hm m hs := h.quiet (by rwa [hw] at hc) (by rwa [hw] at hm) m (hf m hs)

theorem Concluded.step (h : Concluded t) (ho : Orderly t) (hg : ¬ Overtakes t ev)
    (hs : t.step P ev = some t') : Concluded t' := by
  cases step_moves hs with
  | text message validate _ =>
    rw [Session.handleJsonMessage_eq]
    exact h.frame rfl fun _ => id
  | binary data now _ =>
    rw [Session.handleBinaryMessage_eq]
    exact h.frame rfl fun _ => id
  | audio pcm now _ =>
    rw [Session.processAudioChunk_eq]
    exact h.frame rfl fun _ => id
  | install ctx vadThold initState now _ =>
    rcases Session.installEngine_cases _ ctx vadThold initState now with
      ⟨_, x, hr⟩ | ⟨_, e, _, _, hr⟩ <;> rw [hr] <;> exact h.frame rfl fun _ => id
  | endReturn whisper hw => exact h.frame (Session.handleEndLocked_ws hw) fun _ => id
  | @flushReturn s s' r n whisper m hw =>
    cases m with
    | none => exact h.frame (Session.flushCycle_ws hw) (by simp)
    | some msg =>
      refine ⟨by rw [Session.flushCycle_ws hw]; exact h.finalLast, fun hc hm _ _ => hg ?_⟩
      rw [Session.flushCycle_ws hw] at hc hm
      exact ⟨hc, hm, (Session.flushCycle_message hw).1⟩
  | @flushSend s r m =>
    obtain ⟨text, rfl⟩ := ho.sending m rfl
    refine ⟨?_, by rintro _ _ _ ⟨⟩⟩
    rw [Session.sent_sendMessage]
    split
    · rename_i hopen
      refine finalLast_append.mpr ⟨h.finalLast, fun m' hm hf => ?_⟩
      exact absurd rfl (h.quiet hopen.1 ⟨m', hm, hf⟩ _)
    · rw [List.append_nil]; exact h.finalLast
  | @write s f o out =>
    cases o with
    | message m =>
      have hp : m.isPartial = false := by
        have := ho.writes
        simp only [Receiver.partialFree, List.all_cons, Bool.and_eq_true] at this
        simpa using this.1
      refine ⟨?_, fun hc hm msg hsend => ?_⟩
      · simp only [Session.perform]
        rw [Session.sent_sendMessage]
        split
        · exact finalLast_append.mpr ⟨h.finalLast, fun _ _ _ => hp⟩
        · rw [List.append_nil]; exact h.finalLast
      · simp only [Session.perform, Session.sendMessage_closed] at hc
        simp only [Session.perform, Session.sent_sendMessage] at hm
        obtain ⟨m', hm', hf⟩ := hm
        rcases List.mem_append.mp hm' with hm' | hm'
        · exact h.quiet hc ⟨m', hm', hf⟩ msg hsend
        · split at hm'
          · obtain rfl := List.mem_singleton.mp hm'
            rename_i hd
            exact hg ⟨hc, ⟨msg, hsend⟩, m', out, rfl, hf, hd.2⟩
          · simp at hm'
    | final => exact h.frame rfl fun _ => id
    | close reason =>
      simp only [Session.perform, WebSocket.close]
      split
      · exact ⟨h.finalLast, by rintro ⟨⟩⟩
      · exact h.frame rfl fun _ => id
  | release _ | joined =>
    rw [Session.releaseModel_eq]
    exact h.frame rfl fun _ => id
  | flushLock now n _ _ => exact h.frame rfl (by simp)
  | flushThrow n whisper x _ => exact h.frame rfl (by simp)
  | flushStop => exact h.frame rfl (by simp)
  | _ => exact h.frame rfl fun _ => id

theorem concluded_of_run (hrun : Run (step P) (init params start) tr t)
    (hg : ∀ p ∈ tr, ¬ Overtakes p.1 p.2) : Concluded t := by
  refine hrun.invariant_of_eachStep (I := fun _ t => Concluded t)
    (G := fun _ t ev => ¬ Overtakes t ev)
    ⟨.nil, by simp [init]⟩ ?_ (.of_forall fun p hp _ => hg p hp)
  exact fun tr s ev s' hr h hg hs => h.step (orderly_of_reachable ⟨tr, hr⟩) hg hs

/-- A cycle that has something to show composes a message. -/
theorem sending_of_shown {whisper : WhisperFull} (hs : t.step P (.flushReturn whisper) = some t')
    (hm : (t.session.heard whisper false).committedOk = true ∨
      (t.session.heard whisper false).partialOk = true) : ∃ m, t'.flusher = .sending m := by
  cases step_moves hs with
  | @flushReturn s s' r n _ m hw =>
    rcases Session.flushCycle_eq_ok hw with ⟨hn, _⟩ | ⟨e, res, e', he, htr, _, hmsg⟩
    · simp [Session.heard, hn, TranscribeResult.committedOk, TranscribeResult.partialOk] at hm
    · rw [Session.heard_eq he htr, ← Bool.or_eq_true] at hm
      rw [Session.partialMessage, if_pos hm] at hmsg
      exact ⟨_, by rw [hmsg]; rfl⟩
  | flushThrow n _ x hw =>
    simp [Session.heard_of_flushThrow hw, TranscribeResult.committedOk,
      TranscribeResult.partialOk] at hm

end Threads

section Runs

variable {P : Platform} {params : SessionParams} {start : ℤ} {t t' : Threads} {ev : Event}
  {tr : History}

/-- In every run in which no partial message overtakes the final one, the final transcription is the
last one. -/
theorem finalLast_of_not_overtakes
    (hrun : Run (Threads.step P) (Threads.init params start) tr t)
    (hg : ∀ p ∈ tr, ¬ Overtakes p.1 p.2) : FinalLast t.session.ws.sent :=
  (Threads.concluded_of_run hrun hg).finalLast

/-- After a step that overtakes, a partial message is pending which the next write of the flush
thread puts behind the final one. -/
theorem not_finalLast_of_overtakes (ho : t.Orderly) (hb : Overtakes t ev)
    (hs : t.step P ev = some t') :
    ∃ m, t'.flusher = .sending m ∧ (m.dumps = true → ∃ t'', t'.step P .flushSend = some t'' ∧
      ¬ FinalLast t''.session.ws.sent) := by
  have hafter : t'.session.ws.closed = none ∧ (∃ m ∈ t'.session.ws.sent, m.isFinal = true) ∧
      ∃ m, t'.flusher = .sending m := by
    cases ev with
    | write =>
      obtain ⟨hc, hf, m, out, hr, hfin, hd⟩ := hb
      cases Threads.step_moves hs with
      | write o out' =>
        cases hr
        refine ⟨by rwa [Session.perform, Session.sendMessage_closed], ⟨m, ?_, hfin⟩, hf⟩
        rw [Session.perform, Session.sent_sendMessage, if_pos ⟨hc, hd⟩]
        simp
    | flushReturn whisper =>
      obtain ⟨hc, hm, hshown⟩ := hb
      have hf := Threads.sending_of_shown hs hshown
      cases Threads.step_moves hs with
      | flushReturn n _ m hw => exact ⟨by rwa [Session.flushCycle_ws hw],
          by rwa [Session.flushCycle_ws hw], hf⟩
      | flushThrow n _ x hw => exact ⟨hc, hm, hf⟩
    | _ => exact hb.elim
  obtain ⟨hc, ⟨m, hm, hfin⟩, msg, hf⟩ := hafter
  obtain ⟨text, rfl⟩ := (ho.step hs).sending msg hf
  refine ⟨_, hf, fun hd => ⟨⟨t'.session.sendMessage (.transcription text false), t'.receiver,
    .waiting⟩, by simp only [Threads.step, Threads.flusherStep, hf], ?_⟩⟩
  rw [Session.sent_sendMessage, if_pos ⟨hc, hd⟩, finalLast_append]
  exact fun h => absurd (h.2 m hm hfin) (by simp [Message.isPartial])

end Runs

namespace Demo

/-- A cycle has composed a message when `end` comes, and writes it after the final one. -/
theorem late_partial_run {s : Session} {e : StreamingWhisperEngine} (h : Listening s e)
    (hmin : 32000 ≤ e.audioBuffer.length) (hmax : e.audioBuffer.length < maxWindowSamples)
    (h0 : s.lastTranscribedSize = 0) (hf : s.fullTranscription = [])
    (hr : s.rawTranscription = []) :
    ∃ tr t, Run (Threads.step platform) ⟨s, .writing [], .waiting⟩ tr t ∧
      t.session.ws.sent = s.ws.sent ++ [.transcription [] true] ++
        [.transcription (lit "hola") false] := by
  have hne : e.audioBuffer ≠ [] := List.length_pos_iff.mp (by omega)
  have r₁ := cycle_run (r := .writing []) h rfl (by simp) hmin (by omega)
    (hmax.le.trans (by decide))
    (transcribe_hears_short [⟨some (lit "hola"), 50⟩] hne hmax)
  generalize hres : ({ partialText := joinTexts [⟨some (lit "hola"), 50⟩] } :
    TranscribeResult) = res at r₁
  have h₁ := h.applyResult e.audioBuffer.length res e
  have hfull : (s.applyResult e.audioBuffer.length res e).fullTranscription = [] := by
    rw [Session.applyResult_fullTranscription, hf, ← hres]; rfl
  have hraw : (s.applyResult e.audioBuffer.length res e).rawTranscription = [] := by
    rw [Session.applyResult_rawTranscription, hr, ← hres]; rfl
  have hmsg : (s.applyResult e.audioBuffer.length res e).partialMessage res =
      some (.transcription (lit "hola") false) := by
    have hok : res.partialOk = true := by rw [← hres]; decide
    rw [Session.partialMessage, hok, hfull, ← hres]
    simp [joinTexts]
  have hws : (s.applyResult e.audioBuffer.length res e).ws = s.ws := rfl
  rw [hmsg] at r₁
  generalize s.applyResult e.audioBuffer.length res e = s₁ at *
  have hfinish : (s₁.finishEnd []).fullTranscription = [] := by
    simp [Session.finishEnd, hfull, hraw]
  have r₂ := final_run (s₁.finishEnd []) (some (.transcription (lit "hola") false))
  rw [hfinish] at r₂
  have hopen : (s₁.finishEnd []).ws.closed = none := h₁.isOpen
  have hd : (Message.transcription [] true).dumps = true := by decide
  have hd' : (Message.transcription (lit "hola") false).dumps = true := by decide
  refine ⟨_, _, (r₁.append (.cons (step_end h₁ _) ((end_run h₁ _).append r₂))).snoc
    (e := .flushSend) rfl, ?_⟩
  rw [Session.sent_sendMessage, Session.sendMessage_closed, Session.sent_sendMessage,
    if_pos ⟨hopen, hd⟩, if_pos ⟨hopen, hd'⟩]
  exact congrArg (fun ws : WebSocket => ws.sent ++ [.transcription [] true] ++
    [.transcription (lit "hola") false]) hws

theorem finalLast_ready :
    FinalLast ((ready.finishEnd []).sendMessage (.transcription [] true)).ws.sent := by
  have hrun := ready_run.append (.cons (step_end listening_ready none)
    ((end_run listening_ready none).append (final_run (ready.finishEnd []) none)))
  have hlast := finalLast_of_not_overtakes hrun (by
    simp [readyTrace, endTrace, finalTrace, idle, installed, Overtakes])
  have hfull : (ready.finishEnd []).fullTranscription = [] := by simp [Session.finishEnd]
  rwa [hfull] at hlast

/-- Two seconds of audio, of which a cycle composes a partial message that is written only after
the final one. -/
theorem not_finalLast_of_late_partial :
    ¬ ∀ (P : Platform) (params : SessionParams) (start : ℤ) (t : Threads) (tr : History),
        Run (Threads.step P) (Threads.init params start) tr t → FinalLast t.session.ws.sent := by
  intro h
  have hsize : (fill engine 32000).audioBuffer.length = 32000 := by
    rw [fill_size] <;> simp [highWaterMark, maxBufferSamples]
  have hframe := frame_run (n := 32000) listening_ready (by omega) (by omega)
    (by simp [highWaterMark])
  obtain ⟨tr, t, hrun, hsent⟩ := late_partial_run (listening_ready.withFrame 32000) (by omega)
    (by rw [hsize]; decide) (by simp) (by simp) (by simp)
  have hlast := h _ _ _ _ _ ((ready_run.append hframe).append hrun)
  rw [hsent, finalLast_append] at hlast
  exact absurd (hlast.2 (.transcription [] true) (by simp) rfl) (by decide)

end Demo

end JotaTranscriber
