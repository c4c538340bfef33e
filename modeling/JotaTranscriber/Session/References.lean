import JotaTranscriber.Session.Invariants

/-! # What a session has of the model

A session counts for one reference from `ModelCache::acquire` to its
`releaseModel`, however often it is configured in between, and uses the
context of its engine, or of the engine it is about to build.
-/

namespace JotaTranscriber

/-- Between `ModelCache::acquire` and the lock of `handleConfig`. -/
def Receiver.isInstalling : Receiver → Bool
  | installing _ _ => true
  | _ => false

/-- The event takes or gives back a reference. -/
def Event.countsReference : Event → Bool
  | acquired (.ok _) | release | joined => true
  | _ => false

namespace Threads

/-- The session counts for a reference: it has one, or is about to record one. -/
def holdsReference (t : Threads) : Bool := t.session.modelAcquired || t.receiver.isInstalling

/-- The session has an engine on the context, or is about to build one. -/
def Uses (t : Threads) (ctx : WhisperContext) : Prop :=
  (∃ e, t.session.engine = some e ∧ e.ctx = ctx) ∨
    ∃ vadThold, t.receiver = .installing ctx vadThold

variable {P : Platform} {t t' : Threads} {ev : Event} {ctx : WhisperContext}

theorem Uses.holdsReference (h : t.Uses ctx) (hc : Consistent t) : t.holdsReference = true := by
  rcases h with ⟨e, he, _⟩ | ⟨v, hr⟩
  · simp [Threads.holdsReference, hc.acquired (by simp [he])]
  · simp [Threads.holdsReference, hr, Receiver.isInstalling]

/-- No step changes the parameters of a session. -/
theorem step_params (hs : t.step P ev = some t') : t'.session.params = t.session.params := by
  cases step_moves hs with
  | text message validate _ => rw [Session.handleJsonMessage_eq]
  | binary data now _ => rw [Session.handleBinaryMessage_eq]
  | write o out => rw [Session.perform_eq]
  | audio pcm now _ => rw [Session.processAudioChunk_eq]
  | install ctx vadThold initState now _ =>
    rcases Session.installEngine_cases _ ctx vadThold initState now with
      ⟨_, x, hr⟩ | ⟨_, e, _, _, hr⟩ <;> rw [hr]
  | endReturn whisper hw =>
    rcases Session.handleEndLocked_eq_ok hw with ⟨_, rfl⟩ | ⟨e, res, e', _, _, rfl⟩ <;> rfl
  | release _ | joined => rw [Session.releaseModel_eq]
  | flushReturn n whisper m hw =>
    rcases Session.flushCycle_eq_ok hw with ⟨_, rfl, _⟩ | ⟨e, res, e', _, _, rfl, _⟩ <;> rfl
  | flushSend m => rw [Session.sendMessage_eq]
  | _ => rfl

/-- Only `acquire` and `releaseModel` change whether a session counts for a reference. -/
theorem step_holdsReference (hev : ev.countsReference = false) (hs : t.step P ev = some t') :
    t'.holdsReference = t.holdsReference := by
  cases step_moves hs with
  | @text s f message validate _ =>
    have hreceiver := Session.handleJsonMessage_receiver P s message validate
      (p := fun r => r.isInstalling = false) rfl rfl (fun _ => rfl) fun _ => rfl
    rw [holdsReference, hreceiver, Session.handleJsonMessage_eq]
    rfl
  | @binary s f data now _ =>
    have hreceiver := Session.handleBinaryMessage_receiver P s data now
      (p := fun r => r.isInstalling = false) (fun _ => rfl) fun _ => rfl
    rw [holdsReference, hreceiver, Session.handleBinaryMessage_eq]
    rfl
  | write o out => rw [Session.perform_eq]; rfl
  | audio pcm now _ =>
    rcases Session.processAudioChunk_cases _ pcm now with
      ⟨_, hr⟩ | ⟨e, out, _, _, hr, _⟩ <;> rw [hr] <;> rfl
  | install ctx vadThold initState now _ =>
    rcases Session.installEngine_cases _ ctx vadThold initState now with
      ⟨_, x, hr⟩ | ⟨_, e, _, _, hr⟩ <;> rw [hr] <;>
      simp [holdsReference, Receiver.isInstalling]
  | endReturn whisper hw =>
    rcases Session.handleEndLocked_eq_ok hw with ⟨_, rfl⟩ | ⟨e, res, e', _, _, rfl⟩ <;> rfl
  | flushReturn n whisper m hw =>
    rcases Session.flushCycle_eq_ok hw with ⟨_, rfl, _⟩ | ⟨e, res, e', _, _, rfl, _⟩ <;> rfl
  | flushSend m => rw [Session.sendMessage_eq]; rfl
  | acquired ctx vadThold => cases hev
  | release _ | joined => cases hev
  | _ => rfl

/-- A session comes to use a context only by acquiring it. -/
theorem step_uses (h : t'.Uses ctx) (hs : t.step P ev = some t') :
    t.Uses ctx ∨ ev = .acquired (.ok ctx) := by
  have frame {s s' : Session} {r r' : Receiver} {f f' : Flusher} (h : Uses ⟨s', r', f'⟩ ctx)
      (he : ∀ e', s'.engine = some e' → ∃ e, s.engine = some e ∧ e.ctx = e'.ctx)
      (hr : r' = r ∨ r'.isInstalling = false) : Uses ⟨s, r, f⟩ ctx := by
    rcases h with ⟨e', he', rfl⟩ | ⟨v, hv⟩
    · exact .inl (he e' he')
    · rcases hr with rfl | hr
      · exact .inr ⟨v, hv⟩
      · simp only at hv
        rw [hv] at hr
        cases hr
  have keep {s : Session} : ∀ e', s.engine = some e' → ∃ e, s.engine = some e ∧ e.ctx = e'.ctx :=
    fun e' he' => ⟨e', he', rfl⟩
  cases step_moves hs with
  | text message validate _ =>
    left
    rw [Session.handleJsonMessage_eq] at h
    exact frame h keep (.inr (Session.handleJsonMessage_receiver P _ message validate
      (p := fun r => r.isInstalling = false) rfl rfl (fun _ => rfl) fun _ => rfl))
  | binary data now _ =>
    left
    rw [Session.handleBinaryMessage_eq] at h
    exact frame h keep (.inr (Session.handleBinaryMessage_receiver P _ data now
      (p := fun r => r.isInstalling = false) (fun _ => rfl) fun _ => rfl))
  | write o out =>
    rw [Session.perform_eq] at h
    exact .inl (frame h keep (.inr rfl))
  | audio pcm now _ =>
    left
    rcases Session.processAudioChunk_cases _ pcm now with
      ⟨_, hr⟩ | ⟨e, out, he, _, hr, _⟩ <;> rw [hr] at h
    · exact frame h keep (.inr rfl)
    · refine frame h (fun e' he' => ⟨e, he, ?_⟩) (.inr rfl)
      rw [← Option.some.inj he', StreamingWhisperEngine.processAudioChunk_ctx]
  | install ctx' vadThold initState now _ =>
    left
    rcases Session.installEngine_cases _ ctx' vadThold initState now with
      ⟨_, x, hr⟩ | ⟨_, e, hctx, _, hr⟩ <;> rw [hr] at h
    · exact frame h keep (.inr rfl)
    · rcases h with ⟨e', he', rfl⟩ | ⟨v, hv⟩
      · obtain rfl := Option.some.inj he'
        exact .inr ⟨vadThold, by rw [hctx]⟩
      · cases hv
  | endReturn whisper hw =>
    left
    rcases Session.handleEndLocked_eq_ok hw with ⟨_, rfl⟩ | ⟨e, res, e', he, htr, rfl⟩
    · exact frame h keep (.inr rfl)
    · refine frame h (fun e'' he'' => ⟨e, he, ?_⟩) (.inr rfl)
      rw [← Option.some.inj he'', StreamingWhisperEngine.transcribe_ctx htr]
  | flushReturn n whisper m hw =>
    left
    rcases Session.flushCycle_eq_ok hw with ⟨_, rfl, _⟩ | ⟨e, res, e', he, htr, rfl, _⟩
    · exact frame h keep (.inl rfl)
    · refine frame h (fun e'' he'' => ⟨e, he, ?_⟩) (.inl rfl)
      rw [← Option.some.inj he'', StreamingWhisperEngine.transcribe_ctx htr]
  | release _ | joined =>
    left
    unfold Session.releaseModel at h
    split at h
    · exact frame h (by rintro _ ⟨⟩) (.inr rfl)
    · exact frame h keep (.inr rfl)
  | flushSend m =>
    rw [Session.sendMessage_eq] at h
    exact .inl (frame h keep (.inl rfl))
  | acquired ctx' vadThold =>
    rcases h with h | ⟨v, hv⟩
    · exact .inl (.inl h)
    · cases hv
      exact .inr rfl
  | flushSkip now slot => exact .inl h
  | flushLock n now _ _ => exact .inl (frame h keep (.inl rfl))
  | flushThrow n whisper x _ => exact .inl (frame h keep (.inl rfl))
  | flushStop => exact .inl (frame h keep (.inl rfl))
  | _ => exact .inl (frame h keep (.inr rfl))

/-- After `releaseModel` the session counts for nothing, and before it only for what it holds. -/
theorem step_release (hc : Consistent t) (hev : ev = .release ∨ ev = .joined)
    (hs : t.step P ev = some t') :
    t'.holdsReference = false ∧ t.holdsReference = t.session.modelAcquired := by
  have hreleased : t'.session.modelAcquired = false ∧ t'.receiver.isInstalling = false ∧
      t.receiver.isInstalling = false := by
    rcases hev with rfl | rfl <;> cases step_moves hs <;> exact ⟨hc.releaseModel.2, rfl, rfl⟩
  simp [holdsReference, hreleased]

theorem step_acquired_ok (hs : t.step P (.acquired (.ok ctx)) = some t') :
    t'.holdsReference = true ∧ t.holdsReference = t.session.modelAcquired := by
  cases step_moves hs with
  | acquired _ vadThold => exact ⟨by simp [holdsReference, Receiver.isInstalling],
      by simp [holdsReference, Receiver.isInstalling]⟩

end Threads

end JotaTranscriber
