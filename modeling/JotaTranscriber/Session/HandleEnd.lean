import JotaTranscriber.Session.Sending
import JotaTranscriber.Session.Solo

/-! # What `end` delivers

One `end` message, from `handleEnd`'s lock until the receive loop reads again
or leaves, interleaved with the flush thread in any way: the final message is
delivered and the socket closed unless whisper fails or the text is not UTF-8.
-/

namespace JotaTranscriber

open Transition

/-- The receive loop is inside `handleEnd`, or in another handler's writes. -/
def Receiver.inEnd : Receiver → Bool
  | ending | forcing | writing (_ :: _) => true
  | _ => false

/-- The run of one `handleEnd`, to its return or its exception. -/
structure HandlesEnd (P : Platform) (t : Threads) (tr : History) (t' : Threads) : Prop where
  run : Run (Threads.step P) t tr t'
  starts : t.receiver = .ending
  within : ∀ p ∈ tr, p.1.receiver.inEnd = true
  finished : t'.receiver.inEnd = false

/-- Exactly one final transcription was sent between the two states, with at least the text there
was before, and the socket is closed normally. -/
def Delivers (t t' : Threads) : Prop :=
  ∃ text, t.session.fullTranscription <+: text ∧
    finals t'.session.ws.sent = finals t.session.ws.sent ++ [text] ∧
    t'.session.ws.closed = some .normal

/-- The forced call finds no audio or whisper succeeds; the text composed is UTF-8. -/
def Serves (t : Threads) : Event → Prop
  | .endReturn whisper => ∀ e, t.session.engine = some e →
      e.audioBuffer = [] ∨ (e.infer whisper).result = 0
  | .write => ∀ out, t.receiver = .writing (.final :: out) →
      isUtf8 t.session.fullTranscription = true
  | _ => True

/-- The stages of `handleEnd` begun in `t₀`, where `good` tells whether all went well so far. -/
inductive EndPhase (t₀ : Threads) : Prop → Threads → Prop where
  | locking {good : Prop} {s : Session} {r : Receiver} {f : Flusher} :
      r = .ending ∨ r = .forcing ∨ r = .writing Session.endOutputs → good →
      t₀.session.fullTranscription <+: s.fullTranscription →
      finals s.ws.sent = finals t₀.session.ws.sent → s.ws.closed = none →
      EndPhase t₀ good ⟨s, r, f⟩
  | composed {good : Prop} {s : Session} {f : Flusher} (text : Bytes) :
      (good ↔ isUtf8 text = true) → t₀.session.fullTranscription <+: text →
      finals s.ws.sent = finals t₀.session.ws.sent → s.ws.closed = none →
      EndPhase t₀ good ⟨s, .writing [.message (.transcription text true), .close .normal], f⟩
  | written {good : Prop} {s : Session} {f : Flusher} :
      (good → ∃ text, t₀.session.fullTranscription <+: text ∧
        finals s.ws.sent = finals t₀.session.ws.sent ++ [text]) →
      (¬ good → finals s.ws.sent = finals t₀.session.ws.sent) → s.ws.closed = none →
      EndPhase t₀ good ⟨s, .writing [.close .normal], f⟩
  | closed {good : Prop} {s : Session} {f : Flusher} :
      (good → ∃ text, t₀.session.fullTranscription <+: text ∧
        finals s.ws.sent = finals t₀.session.ws.sent ++ [text]) →
      (¬ good → finals s.ws.sent = finals t₀.session.ws.sent) →
      s.ws.closed = some .normal → EndPhase t₀ good ⟨s, .writing [], f⟩
  | failed {good : Prop} {s : Session} {f : Flusher} :
      ¬ good → s.ws.closed = none → EndPhase t₀ good ⟨s, .leaving, f⟩

namespace Session

variable {s s' : Session} {whisper : WhisperFull}

theorem handleEndLocked_ws (h : s.handleEndLocked whisper = .ok s') : s'.ws = s.ws := by
  rcases handleEndLocked_eq_ok h with ⟨_, rfl⟩ | ⟨e, res, e', _, _, rfl⟩ <;> rfl

/-- The locked section of `handleEnd` returns unless whisper is asked and fails. -/
theorem handleEndLocked_isOk_iff :
    (∃ s', s.handleEndLocked whisper = .ok s') ↔
      ∀ e, s.engine = some e → e.audioBuffer = [] ∨ (e.infer whisper).result = 0 := by
  unfold handleEndLocked
  cases he : s.engine with
  | none => simp
  | some e =>
    simp only [Option.some.injEq, forall_eq',
      ← StreamingWhisperEngine.transcribe_isOk_iff e whisper true]
    cases e.transcribeSlidingWindow whisper true <;> simp

/-- The locked section of `handleEnd` loses no text. -/
theorem handleEndLocked_prefix (h : s.handleEndLocked whisper = .ok s') :
    s.fullTranscription <+: s'.fullTranscription := by
  rw [(handleEndLocked_texts h).1]
  dsimp only
  split
  · rename_i hc
    rw [(List.append_eq_nil_iff.mp hc.1).1]
    exact List.nil_prefix
  · exact List.prefix_append _ _

end Session

namespace Threads

variable {P : Platform} {t t' t₀ : Threads} {ev : Event} {good : Prop} {s s' : Session}
  {r : Receiver} {f f' : Flusher}

/-- What the flush thread does to a session that handles `end`: it may add text and write
messages that are not final. -/
structure FlushFrame (s s' : Session) : Prop where
  grows : s.fullTranscription <+: s'.fullTranscription
  finals : finals s'.ws.sent = finals s.ws.sent
  closed : s'.ws.closed = s.ws.closed

theorem FlushFrame.refl : FlushFrame s s := ⟨List.prefix_rfl, rfl, rfl⟩

theorem FlushFrame.endPhase (h : FlushFrame s s') (hp : EndPhase t₀ good ⟨s, r, f⟩) :
    EndPhase t₀ good ⟨s', r, f'⟩ := by
  cases hp with
  | locking hr hg hf hs hc =>
    exact .locking hr hg (hf.trans h.grows) (h.finals.trans hs) (h.closed.trans hc)
  | composed text hg hf hs hc => exact .composed text hg hf (h.finals.trans hs) (h.closed.trans hc)
  | written hg hn hc =>
    exact .written (by rwa [h.finals]) (by rwa [h.finals]) (h.closed.trans hc)
  | closed hg hn hc =>
    exact .closed (by rwa [h.finals]) (by rwa [h.finals]) (h.closed.trans hc)
  | failed hg hc => exact .failed hg (h.closed.trans hc)

theorem flushFrame_flushCycle {n : ℕ} {whisper : WhisperFull} {m : Option Message}
    (h : s.flushCycle n whisper = .ok (s', m)) : FlushFrame s s' where
  grows := by rw [(Session.flushCycle_texts h).1]; exact List.prefix_append _ _
  finals := by rw [Session.flushCycle_ws h]
  closed := by rw [Session.flushCycle_ws h]

theorem flushFrame_sendMessage (text : Bytes) :
    FlushFrame s (s.sendMessage (.transcription text false)) where
  grows := by
    have hsame : (s.sendMessage (.transcription text false)).fullTranscription =
        s.fullTranscription := by rw [Session.sendMessage_eq]
    exact hsame ▸ List.prefix_rfl
  finals := by
    rw [Session.sent_sendMessage, finals_append]
    split <;> simp [JotaTranscriber.finals]
  closed := Session.sendMessage_closed _ _

theorem endPhase_step (h : EndPhase t₀ good t) (ho : Orderly t) (hin : t.receiver.inEnd = true)
    (hs : t.step P ev = some t') : EndPhase t₀ (good ∧ Serves t ev) t' := by
  cases step_moves hs with
  | flushSkip now slot => simpa only [Serves, and_true] using h
  | flushLock now n _ _ => simpa only [Serves, and_true] using FlushFrame.refl.endPhase h
  | flushStop => simpa only [Serves, and_true] using FlushFrame.refl.endPhase h
  | flushThrow n whisper x _ => simpa only [Serves, and_true] using FlushFrame.refl.endPhase h
  | flushReturn n whisper m hw =>
    simpa only [Serves, and_true] using (flushFrame_flushCycle hw).endPhase h
  | flushSend m =>
    obtain ⟨text, rfl⟩ := ho.sending m rfl
    simpa only [Serves, and_true] using (flushFrame_sendMessage text).endPhase h
  | endLock _ =>
    cases h with
    | locking hr hg hf hs hc =>
      exact .locking (.inr (.inl rfl)) ⟨hg, trivial⟩ hf hs hc
  | endReturn whisper hw =>
    cases h with
    | locking hr hg hf hs hc =>
      have hws := Session.handleEndLocked_ws hw
      exact .locking (.inr (.inr rfl)) ⟨hg, Session.handleEndLocked_isOk_iff.mp ⟨_, hw⟩⟩
        (hf.trans (Session.handleEndLocked_prefix hw)) (by rw [hws, hs]) (by rw [hws, hc])
  | endThrow whisper x hw =>
    cases h with
    | locking hr hg hf hs hc =>
      refine .failed (fun hgood => ?_) hc
      obtain ⟨s', hok⟩ := Session.handleEndLocked_isOk_iff.mpr hgood.2
      rw [hw] at hok
      cases hok
  | @write s f o out =>
    cases h with
    | locking hr hg hf hsent hc =>
      rcases hr with hr | hr | hr <;> cases hr
      exact .composed _ (by simp [Serves, hg]) hf hsent hc
    | composed text hg hf hsent hc =>
      have hserves : Serves ⟨s, .writing [.message (.transcription text true), .close .normal], f⟩
          .write := by rintro _ ⟨⟩
      have hfinals : finals (s.sendMessage (.transcription text true)).ws.sent =
          finals t₀.session.ws.sent ++ if isUtf8 text then [text] else [] := by
        rw [Session.sent_sendMessage, Session.transcription_dumps, finals_append, hsent]
        by_cases hu : isUtf8 text = true <;> simp [hu, hc, finals]
      refine .written (fun hgood => ⟨text, hf, ?_⟩) (fun hbad => ?_)
        (by rw [Session.perform, Session.sendMessage_closed]; exact hc)
      · rw [if_pos (hg.mp hgood.1)] at hfinals
        exact hfinals
      · rw [if_neg fun hu => hbad ⟨hg.mpr hu, hserves⟩, List.append_nil] at hfinals
        exact hfinals
    | written hg hn hc =>
      have hserves : Serves ⟨s, .writing [.close .normal], f⟩ .write := by rintro _ ⟨⟩
      have hclose : (s.perform (.close .normal)).1.ws = { s.ws with closed := some .normal } := by
        simp [Session.perform, WebSocket.close, hc]
      exact .closed (by rw [hclose]; exact fun hgood => hg hgood.1)
        (by rw [hclose]; exact fun hbad => hn fun h => hbad ⟨h, hserves⟩) (by rw [hclose])
  | _ => cases hin

end Threads

section Runs

variable {P : Platform} {params : SessionParams} {start : ℤ} {t t' : Threads} {tr : History}

/-- `handleEnd` delivers the final transcription and closes the socket if and only if its forced
call finds no audio or whisper succeeds, and the text it composes is UTF-8. -/
theorem delivers_iff (h₀ : Reachable (Threads.step P) (Threads.init params start) t)
    (h : HandlesEnd P t tr t') : Delivers t t' ↔ ∀ p ∈ tr, Serves p.1 p.2 := by
  have hstart : EndPhase t (∀ p ∈ ([] : History), Serves p.1 p.2) t := by
    obtain ⟨s, r, f⟩ := t
    obtain rfl : r = .ending := h.starts
    exact .locking (.inl rfl) (by simp) List.prefix_rfl rfl
      ((Threads.orderly_of_reachable h₀).isOpen rfl)
  have hphase : EndPhase t (∀ p ∈ tr, Serves p.1 p.2) t' := by
    refine h.run.invariant_of_eachStep (I := fun tr s => EndPhase t (∀ p ∈ tr, Serves p.1 p.2) s)
      (G := fun _ t _ => t.receiver.inEnd = true) hstart ?_ (.of_forall fun p hp _ => h.within p hp)
    intro tr s ev s' hr hp hin hs
    simp only [List.forall_mem_append, List.forall_mem_singleton]
    exact Threads.endPhase_step hp (Threads.orderly_of_reachable (h₀.run hr)) hin hs
  have hfinished := h.finished
  cases hphase with
  | closed hg hn hc =>
    constructor
    · rintro ⟨text, _, hsent, _⟩
      by_contra hbad
      rw [hn hbad] at hsent
      simp at hsent
    · intro hgood
      obtain ⟨text, hf, hsent⟩ := hg hgood
      exact ⟨text, hf, hsent, hc⟩
  | failed hg hc =>
    refine iff_of_false ?_ hg
    rintro ⟨_, _, _, hclosed⟩
    rw [hc] at hclosed
    cases hclosed
  | locking hr _ _ _ _ => rcases hr with rfl | rfl | rfl <;> cases hfinished
  | composed _ _ _ _ _ => cases hfinished
  | written _ _ _ => cases hfinished

end Runs

namespace Demo

variable {s : Session} {e : StreamingWhisperEngine}

/-- A whisper that returns an error. -/
def errs : WhisperFull := fun _ _ => ⟨1, [], none⟩

theorem reachable_ready :
    Reachable (Threads.step platform) (Threads.init params 0) ⟨ready, .writing [], .waiting⟩ :=
  (installing_reachable.next step_install).next step_ready

theorem failed_run (h : Listening s e) (hne : e.audioBuffer ≠ []) :
    HandlesEnd platform ⟨s, .ending, .waiting⟩
      [(⟨s, .ending, .waiting⟩, .endLock), (⟨s, .forcing, .waiting⟩, .endReturn errs)]
      ⟨s, .leaving, .waiting⟩ where
  run := by
    have hthrow : ∃ x, s.handleEndLocked errs = .error x := by
      cases hs : s.handleEndLocked errs with
      | error x => exact ⟨x, rfl⟩
      | ok s' =>
        rcases Session.handleEndLocked_isOk_iff.mp ⟨s', hs⟩ e h.engine with hb | hb
        · exact absurd hb hne
        · cases hb
    obtain ⟨x, hx⟩ := hthrow
    refine Run.cons rfl (Run.single ?_)
    simp [Threads.step, Threads.receiverStep, hx]
  starts := rfl
  within := by simp [Receiver.inEnd]
  finished := rfl

/-- One second of audio, and an error of whisper in the forced call: nothing is delivered. -/
theorem not_delivers_of_error :
    ¬ ∀ (P : Platform) (params : SessionParams) (start : ℤ) (t t' : Threads) (tr : History),
        Reachable (Threads.step P) (Threads.init params start) t → HandlesEnd P t tr t' →
        Delivers t t' := by
  intro h
  have hl := listening_ready.withFrame 16000
  have hrun := frame_run (n := 16000) listening_ready (by omega) (by omega)
    (by simp [highWaterMark])
  have hsize : (fill engine 16000).audioBuffer.length = 16000 := by
    rw [fill_size] <;> simp [highWaterMark, maxBufferSamples]
  have hne : (fill engine 16000).audioBuffer ≠ [] := by
    rw [← List.length_pos_iff, hsize]
    omega
  obtain ⟨_, _, _, hclosed⟩ := h platform params 0 _ _ _
    ((reachable_ready.run hrun).next (step_end hl none)) (failed_run hl hne)
  rw [hl.isOpen] at hclosed
  cases hclosed

theorem delivers_ready :
    ∃ tr t', HandlesEnd platform ⟨ready, .ending, .waiting⟩ tr t' ∧
      Delivers ⟨ready, .ending, .waiting⟩ t' := by
  have hend : HandlesEnd platform ⟨ready, .ending, .waiting⟩
      (endTrace ready none ++ (finalTrace (ready.finishEnd []) none ++ [(_, .write)])) _ :=
    { run := (end_run listening_ready none).append ((final_run _ none).snoc rfl)
      starts := rfl
      within := by simp [endTrace, finalTrace, Session.endOutputs, Receiver.inEnd]
      finished := rfl }
  have hutf : isUtf8 [] = true := by decide
  have hreachable := reachable_ready.next (step_end listening_ready none)
  refine ⟨_, _, hend, (delivers_iff hreachable hend).mpr ?_⟩
  simp [endTrace, finalTrace, Session.endOutputs, Serves, Session.finishEnd, hutf]

end Demo

end JotaTranscriber
