import JotaTranscriber.Session.History

/-! # From a config to the final message

A session accumulates until the lock of `handleEnd`, then finishes: the final
text is composed, written, and the socket closed. Each step keeps the texts
equal to the history or moves on to the next phase, unless a flush cycle
intrudes on the finish.
-/

namespace JotaTranscriber

open Transition

def Output.interim : Output → Bool
  | .final => false
  | .message (.transcription _ _) => false
  | _ => true

/-- The receive loop has no part of a final message to write. -/
def Receiver.serving : Receiver → Bool
  | writing out => out.all Output.interim
  | _ => true

/-- The receive loop will handle no frame any more. -/
def Receiver.silent : Receiver → Bool
  | writing [] | leaving | left | joining | destroyed => true
  | _ => false

namespace Threads

structure Accumulating (tr : History) (t : Threads) : Prop where
  full : t.session.fullTranscription = tr.kept
  raw : t.session.rawTranscription = tr.raw
  ended : tr.ended = []
  serving : t.receiver.serving = true

structure Finishing (tr : History) (t : Threads) : Prop where
  full : t.session.fullTranscription = tr.finalText
  drained : tr.ended ≠ [] → t.session.bufferSize = 0
  pending : t.receiver = .writing Session.endOutputs ∨
    t.receiver = .writing [.message (.transcription tr.finalText true), .close .normal]

/-- The final message has been written. -/
def Finished (t : Threads) : Prop :=
  t.receiver = .writing [.close .normal] ∨
    (t.session.ws.closed ≠ none ∧ t.receiver.silent = true)

def Phase (tr : History) (t : Threads) : Prop :=
  Accumulating tr t ∨ Finishing tr t ∨ Finished t

variable {P : Platform} {tr : History} {t t' t₀ : Threads} {ev : Event} {s s' : Session}
  {r r' : Receiver} {f f' : Flusher}

theorem Accumulating.frame (h : Accumulating tr ⟨s, r, f⟩) (hi : ev.returns = false)
    (hf : s'.fullTranscription = s.fullTranscription)
    (hr : s'.rawTranscription = s.rawTranscription) (hs : r'.serving = true) :
    Accumulating (tr ++ [(t₀, ev)]) ⟨s', r', f'⟩ := by
  obtain ⟨hraw, hkept, hended⟩ := History.snoc_of_not_returns tr t₀ hi
  exact ⟨by rw [hkept]; exact hf.trans h.full, by rw [hraw]; exact hr.trans h.raw,
    by rw [hended]; exact h.ended, hs⟩

/-- A step that keeps the text and the engine, and at most composes the final message. -/
theorem Finishing.frame (h : Finishing tr ⟨s, r, f⟩) (hi : ev.returns = false)
    (hf : s'.fullTranscription = s.fullTranscription) (he : s'.engine = s.engine)
    (hr : r' = r ∨
      r' = .writing [.message (.transcription s.fullTranscription true), .close .normal]) :
    Finishing (tr ++ [(t₀, ev)]) ⟨s', r', f'⟩ := by
  obtain ⟨hraw, hkept, hended⟩ := History.snoc_of_not_returns tr t₀ hi
  have hfin : History.finalText (tr ++ [(t₀, ev)]) = tr.finalText := by
    simp only [History.finalText, hraw, hkept, hended]
  refine ⟨by rw [hfin]; exact hf.trans h.full, fun hne => ?_, ?_⟩
  · rw [Session.bufferSize, he]
    exact h.drained (by rwa [hended] at hne)
  · rw [hfin]
    rcases hr with rfl | rfl
    · exact h.pending
    · exact .inr (by rw [h.full])

theorem serving_of_refuses {out : List Output} (h : ∀ o ∈ out, o.refuses = true) :
    (Receiver.writing out).serving = true := by
  apply List.all_eq_true.mpr
  intro o ho
  have := h o ho
  cases o with
  | message m => cases m <;> first | rfl | cases this
  | final => cases this
  | close => rfl

/-- Steps that are not the end of a call of the engine and not a config that succeeds keep what has
been accumulated. -/
theorem Accumulating.step (h : Accumulating tr t) (hi : ev.returns = false)
    (hl : ∀ now, ev ≠ .install true now) (hs : t.step P ev = some t') :
    Accumulating (tr ++ [(t, ev)]) t' := by
  cases step_moves hs with
  | text message validate _ =>
    rcases Session.handleJsonMessage_cases P _ message validate with
      ⟨r, hr, hc⟩ | ⟨_, language, vadThold, hr⟩ <;> rw [hr]
    · apply h.frame hi rfl rfl
      rcases hc with rfl | ⟨_, rfl⟩ | ⟨out, rfl, ho⟩
      · rfl
      · rfl
      · exact serving_of_refuses ho
    · exact h.frame hi rfl rfl rfl
  | binary data now _ =>
    rcases Session.handleBinaryMessage_cases P _ data now with
      ⟨out, hr, ho⟩ | ⟨_, bytes, start, r, hr, hc⟩ <;> rw [hr]
    · exact h.frame hi rfl rfl (serving_of_refuses ho)
    · refine h.frame hi rfl rfl ?_
      rcases hc with rfl | ⟨out, rfl, ho⟩
      · rfl
      · exact serving_of_refuses ho
  | write o out =>
    have hserv := h.serving
    simp only [Receiver.serving, List.all_cons, Bool.and_eq_true] at hserv
    rw [Session.perform_eq]
    refine h.frame hi rfl rfl ?_
    cases o with
    | final => simp [Output.interim] at hserv
    | _ => exact hserv.2
  | audio pcm now _ =>
    rcases Session.processAudioChunk_cases _ pcm now with
      ⟨_, hr⟩ | ⟨e, out, _, _, hr, ho⟩ <;> rw [hr]
    · exact h.frame hi rfl rfl rfl
    · refine h.frame hi rfl rfl ?_
      rcases ho with rfl | rfl <;> rfl
  | install ctx vadThold initState now _ =>
    rcases Session.installEngine_cases _ ctx vadThold initState now with
      ⟨_, x, hr⟩ | ⟨rfl, _⟩
    · rw [hr]
      exact h.frame hi rfl rfl rfl
    · exact absurd rfl (hl now)
  | endReturn whisper _ => cases hi
  | endThrow whisper x _ => cases hi
  | flushReturn n whisper m _ => cases hi
  | flushThrow n whisper x _ => cases hi
  | release _ =>
    rw [Session.releaseModel_eq]
    exact h.frame hi rfl rfl rfl
  | joined =>
    rw [Session.releaseModel_eq]
    exact h.frame hi rfl rfl rfl
  | flushSend m =>
    rw [Session.sendMessage_eq]
    exact h.frame hi rfl rfl h.serving
  | flushSkip now slot => exact h.frame hi rfl rfl h.serving
  | flushLock now n _ _ => exact h.frame hi rfl rfl h.serving
  | flushStop => exact h.frame hi rfl rfl h.serving
  | _ => exact h.frame hi rfl rfl rfl

/-- A call that throws adds nothing to the history. -/
theorem Accumulating.throws {t₀ : Threads} (h : Accumulating tr t) (hs : t'.session = t.session)
    (hp : History.flushed (t₀, ev) = {}) (hq : History.forced (t₀, ev) = {})
    (hserv : t'.receiver.serving = true) : Accumulating (tr ++ [(t₀, ev)]) t' where
  full := by rw [hs, h.full, History.kept_snoc, hp, TranscribeResult.keptText_eq_nil rfl]; simp
  raw := by rw [hs, h.raw, History.raw_snoc, hp]; simp
  ended := by rw [History.ended_snoc, hq, h.ended]; rfl
  serving := hserv

/-- The end of a call of the engine, while the receive loop serves frames. -/
theorem Accumulating.returns (h : Accumulating tr t) (hi : ev.returns = true)
    (hs : t.step P ev = some t') : Phase (tr ++ [(t, ev)]) t' := by
  cases step_moves hs with
  | flushReturn n whisper m hw =>
    obtain ⟨hf, hr⟩ := Session.flushCycle_texts hw
    refine .inl ⟨?_, ?_, ?_, h.serving⟩
    · rw [hf, h.full, History.kept_snoc]; rfl
    · rw [hr, h.raw, History.raw_snoc]; rfl
    · rw [History.ended_snoc, h.ended]; rfl
  | flushThrow n whisper x hw =>
    exact .inl (h.throws rfl (Session.heard_of_flushThrow hw) rfl h.serving)
  | endReturn whisper hw =>
    obtain ⟨hf, hr, hb⟩ := Session.handleEndLocked_texts hw
    refine .inr (.inl ⟨?_, ?_, .inl rfl⟩)
    · rw [hf, h.full, h.raw]
      simp only [History.finalText, History.kept_snoc, History.raw_snoc, History.ended_snoc,
        h.ended, History.flushed, History.forced, TranscribeResult.keptText_eq_nil,
        List.append_nil, List.nil_append]
      split_ifs <;> simp_all
    · rw [History.ended_snoc, h.ended]
      exact hb
  | endThrow whisper x hw =>
    exact .inl (h.throws rfl rfl (Session.heard_of_endThrow hw) rfl)
  | _ => cases hi

theorem Finishing.step (h : Finishing tr t) (hi : ev.returns = false)
    (hs : t.step P ev = some t') : Phase (tr ++ [(t, ev)]) t' := by
  have hp := h.pending
  cases step_moves hs with
  | write o out =>
    rcases hp with hp | hp <;> cases hp
    · exact .inr (.inl (h.frame hi rfl rfl (.inr rfl)))
    · exact .inr (.inr (.inl rfl))
  | flushSend m =>
    rw [Session.sendMessage_eq]
    exact .inr (.inl (h.frame hi rfl rfl (.inl rfl)))
  | flushSkip now slot => exact .inr (.inl (h.frame hi rfl rfl (.inl rfl)))
  | flushLock now n _ _ => exact .inr (.inl (h.frame hi rfl rfl (.inl rfl)))
  | flushStop => exact .inr (.inl (h.frame hi rfl rfl (.inl rfl)))
  | endReturn whisper _ => cases hi
  | endThrow whisper x _ => cases hi
  | flushReturn n whisper m _ => cases hi
  | flushThrow n whisper x _ => cases hi
  | _ => rcases hp with hp | hp <;> cases hp

/-- The final message once written, the receive loop only closes the socket. -/
theorem Finished.step (h : Finished t) (hs : t.step P ev = some t') : Finished t' := by
  have closed (ws : WebSocket) (reason : CloseReason) : (ws.close reason).closed ≠ none := by
    unfold WebSocket.close
    split <;> simp_all
  cases step_moves hs with
  | write o out =>
    rcases h with h | ⟨_, h⟩ <;> cases h
    exact .inr ⟨closed _ _, rfl⟩
  | text message validate ho =>
    rcases h with h | ⟨h, _⟩
    · cases h
    · exact absurd ho h
  | binary data now ho =>
    rcases h with h | ⟨h, _⟩
    · cases h
    · exact absurd ho h
  | disconnect =>
    rcases h with h | ⟨h, _⟩
    · cases h
    · exact .inr ⟨h, rfl⟩
  | release _ =>
    rcases h with h | ⟨h, _⟩
    · cases h
    · rw [Session.releaseModel_eq]
      exact .inr ⟨h, rfl⟩
  | destroy =>
    rcases h with h | ⟨h, _⟩
    · cases h
    · exact .inr ⟨h, rfl⟩
  | joined =>
    rcases h with h | ⟨h, _⟩
    · cases h
    · rw [Session.releaseModel_eq]
      exact .inr ⟨h, rfl⟩
  | flushReturn n whisper m hw =>
    rcases h with h | ⟨h, hr⟩
    · exact .inl h
    · exact .inr ⟨by rw [Session.flushCycle_ws hw]; exact h, hr⟩
  | flushSend m =>
    rcases h with h | ⟨h, hr⟩
    · exact .inl h
    · exact .inr ⟨by rw [Session.sendMessage_closed]; exact h, hr⟩
  | flushSkip now slot => exact h
  | flushLock now n _ _ => exact h
  | flushThrow n whisper x _ => exact h
  | flushStop => exact h
  | _ => rcases h with h | ⟨_, h⟩ <;> cases h

/-- A flush cycle in progress has audio, so the forced call left some and committed nothing. -/
theorem Finishing.ended_of_inferring (h : Finishing tr t) (hc : Consistent t) {n : ℕ}
    (hf : t.flusher = .inferring n) : tr.ended = [] := by
  obtain ⟨e, he, hsize, hmin⟩ := hc.inferring n hf
  by_contra hne
  have hzero := h.drained hne
  simp only [Session.bufferSize, he] at hzero
  simp only [Session.minBufferSamples] at hmin
  omega

/-- The final text grows with a cycle that does not intrude. -/
theorem Finishing.finalText_snoc (h : Finishing tr t) {whisper : WhisperFull}
    (hended : tr.ended = []) (hg : ¬ Intrudes tr t (.flushReturn whisper)) :
    History.finalText (tr ++ [(t, .flushReturn whisper)]) =
      tr.finalText ++ (t.session.heard whisper false).keptText := by
  apply History.finalText_snoc hended rfl
  intro hk hc
  have hd : t.receiver.delivering = true := by
    rcases h.pending with hp | hp <;> rw [hp] <;> rfl
  simp only [Intrudes, hd, hk, hended, true_and, List.append_nil, not_or, not_and,
    Bool.not_eq_true] at hg
  obtain ⟨hraw, hh⟩ := hg.2.2 hc
  exact ⟨by simpa using hraw, hh⟩

/-- A cycle that does not intrude while the final message is pending. -/
theorem Finishing.returns (h : Finishing tr t) (hc : Consistent t) (hi : ev.returns = true)
    (hg : ¬ Intrudes tr t ev) (hs : t.step P ev = some t') :
    Finishing (tr ++ [(t, ev)]) t' := by
  have hp := h.pending
  cases step_moves hs with
  | @flushReturn s s' r n whisper m hw =>
    have hended := h.ended_of_inferring hc rfl
    have hfin := h.finalText_snoc hended hg
    refine ⟨?_, fun hne => absurd ?_ hne, ?_⟩
    · rw [(Session.flushCycle_texts hw).1, h.full, hfin]
    · rw [History.ended_snoc, hended]; rfl
    · rcases hp with hp | hp
      · exact .inl hp
      · -- the final message is composed: the cycle commits nothing that is kept
        have hk : (s.heard whisper false).keptText = [] := by
          simp only at hp
          simp only [Intrudes, hp, Receiver.delivering, Receiver.composed, true_and, not_or,
            Bool.not_eq_true] at hg
          rw [Session.keptText_of_committedOk, hg.1]
          rfl
        exact .inr (by rw [hfin, hk, List.append_nil]; exact hp)
  | @flushThrow s r n whisper x hw =>
    have hended := h.ended_of_inferring hc rfl
    have hfin := h.finalText_snoc hended hg
    rw [Session.heard_of_flushThrow hw, TranscribeResult.keptText_eq_nil rfl,
      List.append_nil] at hfin
    refine ⟨by rw [hfin]; exact h.full, fun hne => absurd ?_ hne, by rw [hfin]; exact hp⟩
    rw [History.ended_snoc, hended]; rfl
  | endReturn whisper _ => rcases hp with hp | hp <;> cases hp
  | endThrow whisper x _ => rcases hp with hp | hp <;> cases hp
  | _ => cases hi

theorem phase_step (h : Phase tr t) (hc : Consistent t) (hg : ¬ Intrudes tr t ev)
    (hl : ∀ now, ev ≠ .install true now) (hs : t.step P ev = some t') :
    Phase (tr ++ [(t, ev)]) t' := by
  cases hi : ev.returns with
  | false =>
    rcases h with h | h | h
    · exact .inl (h.step hi hl hs)
    · exact h.step hi hs
    · exact .inr (.inr (h.step hs))
  | true =>
    rcases h with h | h | h
    · exact h.returns hi hs
    · exact .inr (.inl (h.returns hc hi hg hs))
    · exact .inr (.inr (h.step hs))

/-- Where a cycle that does not intrude composes a message, the final text is what was kept. -/
theorem Finishing.finalText_eq_kept (h : Finishing tr t) {whisper : WhisperFull}
    (hended : tr.ended = []) (hg : ¬ Intrudes tr t (.flushReturn whisper))
    (hm : (t.session.heard whisper false).committedOk = true ∨
      (t.session.heard whisper false).partialOk = true) :
    History.finalText (tr ++ [(t, .flushReturn whisper)]) =
      History.kept (tr ++ [(t, .flushReturn whisper)]) := by
  have hfin := h.finalText_snoc hended hg
  rw [hfin, History.kept_snoc]
  have hd : t.receiver.delivering = true := by
    rcases h.pending with hp | hp <;> rw [hp] <;> rfl
  simp only [Intrudes, hd, hended, true_and, List.append_nil, not_or, not_and,
    Bool.not_eq_true] at hg
  by_cases hk : tr.kept = []
  · -- a cycle that shows something has no flagged commit to stand behind it
    have hraw : tr.raw = [] := by
      by_contra hraw
      obtain ⟨hp, hc⟩ := hg.2 hk
      rcases hm with hm | hm
      · simp only [TranscribeResult.committedOk, Bool.and_eq_true, decide_eq_true_eq] at hm
        exact (hc hm.1).1 hraw
      · rw [hp hraw] at hm
        cases hm
    simp [History.finalText, hk, hended, hraw, History.flushed]
  · simp [History.finalText, hk, hended, History.flushed]

theorem partial_of_phase (h : Accumulating tr t ∨ Finishing tr t) (hc : Consistent t)
    {whisper : WhisperFull} {m : Message} (hg : ¬ Intrudes tr t (.flushReturn whisper))
    (hs : t.step P (.flushReturn whisper) = some t') (hm : t'.flusher = .sending m) :
    m = .transcription (History.kept (tr ++ [(t, .flushReturn whisper)]) ++
      if (t.session.heard whisper false).partialOk then
        (t.session.heard whisper false).partialText else []) false := by
  cases step_moves hs with
  | @flushReturn s s' r n _ m' hw =>
    cases m' with
    | none => cases hm
    | some msg =>
      cases hm
      obtain ⟨hshown, hmsg⟩ := Session.flushCycle_message hw
      rw [hmsg, (Session.flushCycle_texts hw).1]
      rcases h with h | h
      · rw [h.full, History.kept_snoc]; rfl
      · have hended := h.ended_of_inferring hc rfl
        rw [h.full, ← h.finalText_snoc hended hg, h.finalText_eq_kept hended hg hshown]
  | flushThrow _ _ x _ => cases hm

/-- A successful config starts an empty history. -/
theorem accumulating_of_install {now : ℤ} (hs : t.step P (.install true now) = some t') :
    Accumulating [] t' := by
  cases step_moves hs with
  | install ctx vadThold _ _ _ =>
    rcases Session.installEngine_cases _ ctx vadThold true now with ⟨h, _⟩ | ⟨_, e, _, _, hr⟩
    · cases h
    · rw [hr]
      exact ⟨rfl, rfl, rfl, rfl⟩

theorem phase_of_run (hc : Consistent t) (h : Accumulating [] t)
    (hrun : Run (Threads.step P) t tr t') (hlatest : ∀ p ∈ tr, ∀ now, p.2 ≠ .install true now)
    (hquiet : EachStep (fun tr t ev => ¬ Intrudes tr t ev) tr) : Phase tr t' := by
  have hlate : EachStep (fun _ _ ev => ∀ now, ev ≠ .install true now) tr :=
    .of_forall fun p hp _ => hlatest p hp
  refine hrun.invariant_of_eachStep (I := Phase) (.inl h) ?_ (hquiet.and hlate)
  exact fun tr s ev s' hr hp hg hs => phase_step hp (hc.run hr) hg.1 hg.2 hs

/-- Where a final message waits to be written, it carries the final text. -/
theorem Phase.of_composed {text : Bytes} {out : List Output} (h : Phase tr t)
    (hend : t.receiver = .writing (.message (.transcription text true) :: out)) :
    Finishing tr t ∧ text = tr.finalText := by
  rcases h with h | h | h | ⟨_, h⟩
  · have := h.serving
    simp [hend, Receiver.serving, Output.interim] at this
  · refine ⟨h, ?_⟩
    rcases h.pending with hp | hp <;> rw [hend] at hp <;> cases hp
    rfl
  · rw [hend] at h
    cases h
  · rw [hend] at h
    cases h

end Threads

end JotaTranscriber
