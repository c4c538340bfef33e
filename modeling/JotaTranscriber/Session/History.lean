import JotaTranscriber.Session.Invariants

/-! # What was heard in a run

The commits of a run, read off its trace: those of the flush cycles, with and
without the ones the guard flags, and the commit of `end`. One lemma for each
locked section says what it does to the two texts of the session.
-/

namespace JotaTranscriber

abbrev History := List (Threads × Event)

/-- What a call of the engine returns; nothing where there is no engine or the call throws. -/
def Session.heard (s : Session) (whisper : WhisperFull) (force : Bool) : TranscribeResult :=
  match s.engine with
  | none => {}
  | some e =>
    match e.transcribeSlidingWindow whisper force with
    | .ok (res, _) => res
    | .error _ => {}

/-- The text of a commit that the guard does not flag. -/
def TranscribeResult.keptText (res : TranscribeResult) : Bytes :=
  if isHallucination res.committedText then [] else res.committedText

theorem TranscribeResult.keptText_eq_nil {res : TranscribeResult} (h : res.committedText = []) :
    res.keptText = [] := by
  simp [keptText, h]

/-- The event ends a call of the engine. -/
def Event.returns : Event → Bool
  | flushReturn _ | endReturn _ => true
  | _ => false

namespace History

/-- The result of the flush cycle that a step ends. -/
def flushed : Threads × Event → TranscribeResult
  | (t, .flushReturn whisper) => t.session.heard whisper false
  | _ => {}

/-- The result of the forced call that a step ends. -/
def forced : Threads × Event → TranscribeResult
  | (t, .endReturn whisper) => t.session.heard whisper true
  | _ => {}

/-- All commits of the flush cycles, in order. -/
def raw (tr : History) : Bytes := tr.flatMap fun p => (flushed p).committedText

/-- The commits of the flush cycles that the guard does not flag, in order. -/
def kept (tr : History) : Bytes := tr.flatMap fun p => (flushed p).keptText

/-- The commit of the forced call. -/
def ended (tr : History) : Bytes := tr.flatMap fun p => (forced p).committedText

/-- What the client should get at the end. -/
def finalText (tr : History) : Bytes :=
  if kept tr ++ ended tr = [] then raw tr else kept tr ++ ended tr

end History

/-- The final message has been composed and not yet written. -/
def Receiver.composed : Receiver → Bool
  | writing (.message (.transcription _ true) :: _) => true
  | _ => false

/-- `handleEnd` has unlocked and not yet written the final message. -/
def Receiver.delivering : Receiver → Bool
  | writing (.final :: _) => true
  | r => r.composed

/-- The step ends a flush cycle between the lock of `handleEnd` and its final message, which adds
to a text that is composed already, or to a transcript that fell back on the flagged commits, or
whose commit would have changed that fallback. -/
def Intrudes (tr : History) (t : Threads) : Event → Prop
  | .flushReturn whisper =>
    t.receiver.delivering = true ∧
      ((t.receiver.composed = true ∧ (t.session.heard whisper false).committedOk = true) ∨
        (tr.kept ++ tr.ended = [] ∧
          ((tr.raw ≠ [] ∧ (t.session.heard whisper false).partialOk = true) ∨
            ((t.session.heard whisper false).committedText ≠ [] ∧
              (tr.raw ≠ [] ∨
                isHallucination (t.session.heard whisper false).committedText = true)))))
  | _ => False

namespace Session

variable {s s' : Session} {e : StreamingWhisperEngine} {res : TranscribeResult} {n : ℕ}
  {whisper : WhisperFull} {m : Option Message}

theorem heard_eq (he : s.engine = some e) {force : Bool} {e' : StreamingWhisperEngine}
    (h : e.transcribeSlidingWindow whisper force = .ok (res, e')) :
    s.heard whisper force = res := by
  simp only [heard, he, h]

theorem keptText_of_committedOk :
    res.keptText = if res.committedOk then res.committedText else [] := by
  unfold TranscribeResult.keptText TranscribeResult.committedOk
  by_cases hc : res.committedText = [] <;>
    by_cases hh : isHallucination res.committedText = true <;> simp [hc, hh]

theorem applyResult_fullTranscription :
    (s.applyResult n res e).fullTranscription = s.fullTranscription ++ res.keptText := by
  rw [keptText_of_committedOk]
  unfold applyResult
  dsimp only
  split <;> simp

theorem applyResult_rawTranscription :
    (s.applyResult n res e).rawTranscription = s.rawTranscription ++ res.committedText := by
  unfold applyResult
  by_cases hc : res.committedText = [] <;> simp [hc]

/-- A flush cycle appends its commit to the raw text, and to the full text unless the guard flags
it. -/
theorem flushCycle_texts (h : s.flushCycle n whisper = .ok (s', m)) :
    s'.fullTranscription = s.fullTranscription ++ (s.heard whisper false).keptText ∧
      s'.rawTranscription = s.rawTranscription ++ (s.heard whisper false).committedText := by
  rcases flushCycle_eq_ok h with ⟨hn, rfl, _⟩ | ⟨e, res, e', he, htr, rfl, _⟩
  · simp [heard, hn, TranscribeResult.keptText_eq_nil]
  · rw [heard_eq he htr]
    exact ⟨applyResult_fullTranscription, applyResult_rawTranscription⟩

/-- The message of a flush cycle shows the full text and at most the partial text of the cycle. -/
theorem flushCycle_message {msg : Message} (h : s.flushCycle n whisper = .ok (s', some msg)) :
    ((s.heard whisper false).committedOk = true ∨ (s.heard whisper false).partialOk = true) ∧
      msg = .transcription (s'.fullTranscription ++
        if (s.heard whisper false).partialOk then (s.heard whisper false).partialText else [])
        false := by
  rcases flushCycle_eq_ok h with ⟨_, _, hm⟩ | ⟨e, res, e', he, htr, rfl, hm⟩
  · cases hm
  · rw [heard_eq he htr]
    unfold partialMessage at hm
    split at hm
    · rename_i hc
      rw [Bool.or_eq_true] at hc
      exact ⟨hc, Option.some.inj hm⟩
    · cases hm

/-- The locked section of `handleEnd`: the forced commit is appended, the raw text stands in for an
empty one, and audio is only kept where nothing was committed. -/
theorem handleEndLocked_texts (h : s.handleEndLocked whisper = .ok s') :
    s'.fullTranscription =
        (let full := s.fullTranscription ++ (s.heard whisper true).committedText
         if full = [] ∧ s.rawTranscription ≠ [] then s.rawTranscription else full) ∧
      s'.rawTranscription = s.rawTranscription ∧
      ((s.heard whisper true).committedText ≠ [] → s'.bufferSize = 0) := by
  rcases handleEndLocked_eq_ok h with ⟨hn, rfl⟩ | ⟨e, res, e', he, htr, rfl⟩
  · exact ⟨by simp [heard, hn, finishEnd], rfl, by simp [heard, hn]⟩
  · rw [heard_eq he htr]
    refine ⟨rfl, rfl, fun hc => ?_⟩
    rcases eq_or_ne e.audioBuffer [] with hb | hb
    · rcases StreamingWhisperEngine.transcribe_eq_ok.mp htr with ⟨_, rfl, _⟩ | ⟨hne, _⟩
      · exact absurd rfl hc
      · exact absurd hb hne
    · obtain ⟨hcommit, he' | hs⟩ := StreamingWhisperEngine.transcribe_forced htr hb
      · simp [bufferSize, finishEnd, StreamingWhisperEngine.getBufferSize, he']
      · simp [hcommit, hs, joinTexts] at hc

/-- Nothing is heard in a call that throws. -/
theorem heard_of_flushThrow {x : Exn} (h : s.flushCycle n whisper = .error x) :
    s.heard whisper false = {} := by
  unfold flushCycle at h
  unfold heard
  split at h
  · cases h
  · split at h
    · simp only [*]
    · cases h

theorem heard_of_endThrow {x : Exn} (h : s.handleEndLocked whisper = .error x) :
    s.heard whisper true = {} := by
  unfold handleEndLocked at h
  unfold heard
  split at h
  · cases h
  · split at h
    · simp only [*]
    · cases h

theorem flushCycle_ws (h : s.flushCycle n whisper = .ok (s', m)) : s'.ws = s.ws := by
  rcases flushCycle_eq_ok h with ⟨_, rfl, _⟩ | ⟨e, res, e', _, _, rfl, _⟩ <;> rfl

end Session

namespace History

variable {tr tr₁ tr₂ : History} {p : Threads × Event} {t : Threads} {ev : Event}

theorem raw_append : raw (tr₁ ++ tr₂) = raw tr₁ ++ raw tr₂ := List.flatMap_append

theorem kept_append : kept (tr₁ ++ tr₂) = kept tr₁ ++ kept tr₂ := List.flatMap_append

theorem ended_append : ended (tr₁ ++ tr₂) = ended tr₁ ++ ended tr₂ := List.flatMap_append

theorem raw_snoc : raw (tr ++ [p]) = raw tr ++ (flushed p).committedText := by
  simp [raw]

theorem kept_snoc : kept (tr ++ [p]) = kept tr ++ (flushed p).keptText := by
  simp [kept]

theorem ended_snoc : ended (tr ++ [p]) = ended tr ++ (forced p).committedText := by
  simp [ended]

/-- A step that is not the end of a call of the engine adds nothing. -/
theorem snoc_of_not_returns (tr : History) (t : Threads) (h : ev.returns = false) :
    raw (tr ++ [(t, ev)]) = raw tr ∧ kept (tr ++ [(t, ev)]) = kept tr ∧
      ended (tr ++ [(t, ev)]) = ended tr := by
  cases ev with
  | flushReturn | endReturn => cases h
  | _ => simp [raw_snoc, kept_snoc, ended_snoc, flushed, forced, TranscribeResult.keptText_eq_nil]

/-- The final text grows with a flush cycle unless the cycle changes which text is final. -/
theorem finalText_snoc (he : ended tr = []) (hp : forced p = {})
    (h : kept tr = [] → (flushed p).committedText ≠ [] →
      raw tr = [] ∧ isHallucination (flushed p).committedText = false) :
    finalText (tr ++ [p]) = finalText tr ++ (flushed p).keptText := by
  unfold finalText
  rw [kept_snoc, ended_snoc, raw_snoc, he, hp]
  by_cases hk : kept tr = []
  · by_cases hc : (flushed p).committedText = []
    · simp [hk, hc, TranscribeResult.keptText_eq_nil hc]
    · obtain ⟨hr, hh⟩ := h hk hc
      simp [hk, hr, hh, hc, TranscribeResult.keptText]
  · simp [hk]

theorem kept_prefix_finalText {tr₁ tr₂ : History} (h : tr = tr₁ ++ tr₂) :
    kept tr₁ <+: finalText tr := by
  subst h
  unfold finalText
  split
  · rename_i hk
    simp only [kept_append, List.append_eq_nil_iff] at hk
    rw [hk.1.1]
    exact List.nil_prefix
  · rw [kept_append, List.append_assoc]
    exact List.prefix_append _ _

theorem committed_eq_nil_of_finalText (h : finalText tr = []) :
    ∀ p ∈ tr, (flushed p).committedText = [] ∧ (forced p).committedText = [] := by
  unfold finalText at h
  split at h
  · rename_i hk
    have hended := (List.append_eq_nil_iff.mp hk).2
    exact fun p hp => ⟨List.flatMap_eq_nil_iff.mp h p hp, List.flatMap_eq_nil_iff.mp hended p hp⟩
  · exact absurd h ‹_›

end History

end JotaTranscriber
