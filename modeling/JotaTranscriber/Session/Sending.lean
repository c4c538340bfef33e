import JotaTranscriber.Session.History

/-! # What is written on the socket

Only the receive loop closes the socket, and it handles a frame only while the
socket is open. The flush thread writes partial transcriptions and nothing else.
-/

namespace JotaTranscriber

open Transition

/-- The texts of the final transcriptions among some messages. -/
def finals (sent : List Message) : List Bytes :=
  sent.filterMap fun
    | .transcription text true => some text
    | _ => none

theorem finals_append (sent sent' : List Message) :
    finals (sent ++ sent') = finals sent ++ finals sent' := List.filterMap_append

def Message.isFinal : Message → Bool
  | transcription _ true => true
  | _ => false

def Message.isPartial : Message → Bool
  | transcription _ false => true
  | _ => false

/-- The receive loop has no partial transcription to write. -/
def Receiver.partialFree : Receiver → Bool
  | writing out => out.all fun
    | .message m => !m.isPartial
    | _ => true
  | _ => true

theorem Receiver.partialFree_of_refuses {out : List Output} (h : ∀ o ∈ out, o.refuses = true) :
    (writing out).partialFree = true := by
  apply List.all_eq_true.mpr
  intro o ho
  have := h o ho
  cases o with
  | message m => cases m <;> first | rfl | cases this
  | _ => rfl

/-- The receive loop is in a handler, and not in a write. -/
def Receiver.handling : Receiver → Bool
  | audio _ | acquiring _ | installing _ _ | ending | forcing => true
  | _ => false

namespace Session

variable {s : Session} {m : Message}

/-- A message is written if the socket is open and `dump` returns. -/
theorem sent_sendMessage :
    (s.sendMessage m).ws.sent =
      s.ws.sent ++ if s.ws.closed = none ∧ m.dumps = true then [m] else [] := by
  unfold sendMessage WebSocket.write
  by_cases hd : m.dumps = true <;> by_cases hc : s.ws.closed = none <;> simp [hd, hc]

theorem transcription_dumps {text : Bytes} {isFinal : Bool} :
    (Message.transcription text isFinal).dumps = isUtf8 text := by
  have ht : isUtf8 (lit "transcription") = true := by decide
  simp [Message.dumps, Message.strings, ht]

end Session

namespace Threads

variable {P : Platform} {params : SessionParams} {now : ℤ} {t t' : Threads} {ev : Event}

/-- What holds of the socket and of the messages still to be written. -/
structure Orderly (t : Threads) : Prop where
  isOpen : t.receiver.handling = true → t.session.ws.closed = none
  writes : t.receiver.partialFree = true
  sending : ∀ m, t.flusher = .sending m → ∃ text, m = .transcription text false

theorem orderly_init : Orderly (init params now) :=
  ⟨by simp [init, Receiver.handling], rfl, by simp [init]⟩

theorem Orderly.frame {s s' : Session} {r r' : Receiver} {f : Flusher} (h : Orderly ⟨s, r, f⟩)
    (ho : r'.handling = true → s'.ws.closed = none) (hw : r'.partialFree = true) :
    Orderly ⟨s', r', f⟩ :=
  ⟨ho, hw, h.sending⟩

theorem Orderly.step (h : Orderly t) (hs : t.step P ev = some t') : Orderly t' := by
  cases step_moves hs with
  | text message validate ho =>
    rcases Session.handleJsonMessage_cases P _ message validate with
      ⟨r, hr, hc⟩ | ⟨_, language, vadThold, hr⟩ <;> rw [hr]
    · refine h.frame (fun _ => ho) ?_
      rcases hc with rfl | ⟨_, rfl⟩ | ⟨out, rfl, hout⟩
      · rfl
      · rfl
      · exact Receiver.partialFree_of_refuses hout
    · exact h.frame (fun _ => ho) rfl
  | binary data now ho =>
    rcases Session.handleBinaryMessage_cases P _ data now with
      ⟨out, hr, hout⟩ | ⟨_, bytes, start, r, hr, hc⟩ <;> rw [hr]
    · exact h.frame (fun _ => ho) (Receiver.partialFree_of_refuses hout)
    · refine h.frame (fun _ => ho) ?_
      rcases hc with rfl | ⟨out, rfl, hout⟩
      · rfl
      · exact Receiver.partialFree_of_refuses hout
  | write o out =>
    have hw := h.writes
    simp only [Receiver.partialFree, List.all_cons, Bool.and_eq_true] at hw
    refine h.frame (by rintro ⟨⟩) ?_
    cases o with
    | final => simpa [Session.perform, Receiver.partialFree, Message.isPartial] using hw.2
    | _ => exact hw.2
  | audio pcm now _ =>
    rcases Session.processAudioChunk_cases _ pcm now with
      ⟨_, hr⟩ | ⟨e, out, _, _, hr, ho⟩ <;> rw [hr]
    · exact h.frame (by rintro ⟨⟩) rfl
    · refine h.frame (by rintro ⟨⟩) ?_
      rcases ho with rfl | rfl <;> rfl
  | install ctx vadThold initState now _ =>
    rcases Session.installEngine_cases _ ctx vadThold initState now with
      ⟨_, x, hr⟩ | ⟨_, e, _, _, hr⟩ <;> rw [hr] <;> exact h.frame (by rintro ⟨⟩) rfl
  | acquired ctx vadThold => exact h.frame (fun _ => h.isOpen rfl) rfl
  | endLock _ => exact h.frame (fun _ => h.isOpen rfl) rfl
  | @flushReturn s s' r n whisper m hw =>
    refine ⟨fun hr => by rw [Session.flushCycle_ws hw]; exact h.isOpen hr, h.writes,
      fun msg hm => ?_⟩
    cases m with
    | none => cases hm
    | some m =>
      cases hm
      exact ⟨_, (Session.flushCycle_message hw).2⟩
  | flushSend m =>
    exact ⟨fun hr => by rw [Session.sendMessage_closed]; exact h.isOpen hr, h.writes, by simp⟩
  | flushSkip now slot => exact h
  | flushLock now n _ _ => exact ⟨h.isOpen, h.writes, by simp⟩
  | flushThrow n whisper x _ => exact ⟨h.isOpen, h.writes, by simp⟩
  | flushStop => exact ⟨h.isOpen, h.writes, by simp⟩
  | _ => exact h.frame (by rintro ⟨⟩) rfl

theorem orderly_of_reachable (h : Reachable (step P) (init params now) t) : Orderly t :=
  h.invariant orderly_init fun _ _ _ h hs => h.step hs

end Threads

end JotaTranscriber
