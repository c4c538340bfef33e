import JotaTranscriber.Session.ConfigFailure
import JotaTranscriber.Session.Sending

/-! # The answer to a text frame

A text frame that is neither an accepted config nor an `end` is to be answered
with one error. `handleJsonMessage` catches parse errors only, so another
exception of the JSON library ends `run`; and `sendMessage` only logs what
`dump` throws at a text that is not UTF-8, so an error that quotes one is lost.
-/

namespace JotaTranscriber

open Transition

/-- The receive loop is handling a frame. -/
def Receiver.busy : Receiver → Bool
  | writing out => !out.isEmpty
  | audio _ | acquiring _ | installing _ _ | ending | forcing => true
  | leaving | left | joining | destroyed => false

/-- The steps that a failing config or an error answer still takes. -/
def Receiver.remaining : Receiver → ℕ
  | acquiring _ => 3
  | installing _ _ => 2
  | writing out => out.length
  | _ => 0

theorem Receiver.busy_of_isConfiguring {r : Receiver} (h : r.isConfiguring = true) :
    r.busy = true ∧ 0 < r.remaining := by
  cases r with
  | acquiring vadThold => exact ⟨rfl, Nat.succ_pos 2⟩
  | installing ctx vadThold => exact ⟨rfl, Nat.succ_pos 1⟩
  | _ => cases h

/-- The frame is JSON with this string under `type`. -/
def HasType (P : Platform) (message type : Bytes) : Prop :=
  ∃ msg, P.parse message = .ok msg ∧ msg.find? (lit "type") = some (.string type)

/-- The handling of a text frame, complete or not: the receive loop reads it in the state `t`, and
the flush thread may take steps in between. -/
structure Handling (P : Platform) (message : Bytes) (validate : Bytes → Bool) (t : Threads)
    (tr : List (Threads × Event)) (t' : Threads) : Prop where
  run : Run (Threads.step P) t ((t, .text message validate) :: tr) t'
  busy : ∀ p ∈ tr, p.1.receiver.busy = true

/-- The frame is no accepted config, no `end` in a configured session and no config that is refused
by auth. -/
structure CallsForError (P : Platform) (s : Session) (message : Bytes) (validate : Bytes → Bool)
    (tr : List (Threads × Event)) : Prop where
  notAccepted : ∀ p ∈ tr, ∀ now, p.2 ≠ .install true now
  notEnd : s.configured = true → ¬ HasType P message (lit "end")
  notRefused : HasType P message (lit "config") → Authorised P s message validate

/-- The messages of the receive loop: the flush thread writes partial transcriptions only. -/
def replies (ws : WebSocket) : List Message := ws.sent.filter fun m => !m.isPartial

/-- The session reads on, and has written one message, an error, between the two states. -/
structure Answered (t t' : Threads) : Prop where
  reads : t'.receiver = .writing []
  isOpen : t'.session.ws.closed = none
  error : ∃ message code, replies t'.session.ws = replies t.session.ws ++ [.error message code]

/-- The frame is JSON or a plain parse error, its `type` is a string, and what an error quotes of it
is UTF-8. -/
structure Readable (P : Platform) (s : Session) (message : Bytes) : Prop where
  json : ∀ x, P.parse message = .error x → ∃ what, x = .parseError what ∧ isUtf8 what = true
  type : ∀ msg j, P.parse message = .ok msg → msg.find? (lit "type") = some j →
    ∃ type, j = .string type ∧ (type ≠ lit "config" → s.configured = true → isUtf8 type = true)

/-- The texts of the failed loads are UTF-8. -/
def LoadsReadable (tr : List (Threads × Event)) : Prop :=
  ∀ p ∈ tr, ∀ x, p.2 = .acquired (.error x) → isUtf8 x.what = true

/-- The receive loop has a next step, unless the flush thread has the lock or has ended the
process. -/
def Threads.Proceeds (P : Platform) (t : Threads) : Prop :=
  t.flusher.holdsLock = false → (∀ x, t.flusher ≠ .thrown x) →
    ∃ ev t', ev.isFlush = false ∧ t.step P ev = some t'

theorem Message.error_dumps {message : Bytes} {code : ErrorCode} :
    (Message.error message code).dumps = isUtf8 message := by
  have hcode : isUtf8 code.text = true := by cases code <;> exact isUtf8_lit _
  simp [Message.dumps, Message.strings, isUtf8_lit, hcode]

namespace Session

variable {P : Platform} {s : Session} {message : Bytes} {validate : Bytes → Bool} {msg : Json}

/-- The language of the wrong type is reported in ASCII. -/
theorem configure_answer (s : Session) (msg : Json) :
    (∃ text, s.configure msg = (s, .writing [errorOutput text .configError]) ∧
        isUtf8 text = true) ∨
      ∃ language vadThold, s.configure msg = ({ s with language }, .acquiring vadThold) := by
  cases hfind : msg.find? (lit "language") with
  | none => exact .inr ⟨s.language, _, by simp only [configure, hfind]; rfl⟩
  | some j =>
    cases hj : j.getString with
    | ok language => exact .inr ⟨language, _, by simp only [configure, hfind, hj]; rfl⟩
    | error x =>
      refine .inl ⟨_, by simp only [configure, hfind, hj]; rfl, ?_⟩
      rw [isUtf8_lit_append]
      cases j with
      | string language => cases hj
      | _ =>
        cases hj
        simp only [Exn.what, isUtf8_lit_append]
        exact isUtf8_lit _

theorem readable_iff_of_parseError {what : Bytes}
    (h : P.parse message = .error (.parseError what)) :
    Readable P s message ↔ isUtf8 what = true := by
  constructor
  · intro hr
    obtain ⟨_, ⟨⟩, hutf8⟩ := hr.json _ h
    exact hutf8
  · intro hutf8
    constructor
    · intro x hx
      cases h.symm.trans hx
      exact ⟨what, rfl, hutf8⟩
    · intro msg j hmsg
      cases h.symm.trans hmsg

theorem readable_iff_of_parse (h : P.parse message = .ok msg) :
    Readable P s message ↔ ∀ j, msg.find? (lit "type") = some j →
      ∃ type, j = .string type ∧
        (type ≠ lit "config" → s.configured = true → isUtf8 type = true) := by
  constructor
  · exact fun hr j => hr.type msg j h
  · intro htype
    constructor
    · intro x hx
      cases h.symm.trans hx
    · intro msg' j hmsg
      cases h.symm.trans hmsg
      exact htype j

/-- A config that auth does not refuse goes on to its language. -/
theorem handleConfig_of_authorised (hparse : P.parse message = .ok msg)
    (ha : Authorised P s message validate) : s.handleConfig msg validate = s.configure msg := by
  unfold handleConfig
  split
  · obtain ⟨token, ⟨msg', hmsg, -, htoken⟩, hvalid⟩ := ha ‹_›
    cases hparse.symm.trans hmsg
    simp only [htoken, hvalid, if_true]
  · rfl

/-- The first step of an answer: an error, the rest of `handleConfig`, or an exception, which
happens to the frames that are not readable alone. -/
theorem handleJsonMessage_answer (hend : s.configured = true → ¬ HasType P message (lit "end"))
    (hauth : HasType P message (lit "config") → Authorised P s message validate) :
    (s.handleJsonMessage P message validate = (s, .leaving) ∧ ¬ Readable P s message) ∨
      (∃ text code, s.handleJsonMessage P message validate =
          (s, .writing [errorOutput text code]) ∧
        (isUtf8 text = true ↔ Readable P s message)) ∨
      (Readable P s message ∧ ∃ language vadThold,
        s.handleJsonMessage P message validate = ({ s with language }, .acquiring vadThold)) := by
  cases hparse : P.parse message with
  | error x =>
    cases x with
    | parseError what =>
      refine .inr (.inl ⟨_, _, by simp only [handleJsonMessage, hparse]; rfl, ?_⟩)
      rw [isUtf8_lit_append, readable_iff_of_parseError hparse]
    | _ =>
      refine .inl ⟨by simp only [handleJsonMessage, hparse], fun hr => ?_⟩
      obtain ⟨_, hx, -⟩ := hr.json _ hparse
      cases hx
  | ok msg =>
    rw [readable_iff_of_parse hparse]
    cases hfind : msg.find? (lit "type") with
    | none =>
      refine .inr (.inl ⟨_, _, by simp only [handleJsonMessage, hparse, hfind]; rfl, ?_⟩)
      exact iff_of_true (isUtf8_lit _) (by simp)
    | some j =>
      cases hj : j.getString with
      | error x =>
        refine .inl ⟨by simp only [handleJsonMessage, hparse, hfind, hj], fun hr => ?_⟩
        obtain ⟨type, rfl, -⟩ := hr j rfl
        cases hj
      | ok type =>
        obtain rfl := Json.getString_eq_ok.mp hj
        have hreadable : (∀ j, some (Json.string type) = some j →
            ∃ type, j = .string type ∧
              (type ≠ lit "config" → s.configured = true → isUtf8 type = true)) ↔
            (type ≠ lit "config" → s.configured = true → isUtf8 type = true) := by
          simp
        rw [hreadable]
        by_cases hconfig : type = lit "config"
        · have ha := hauth ⟨msg, hparse, by rw [hfind, hconfig]⟩
          have hhandle : s.handleJsonMessage P message validate = s.configure msg := by
            simp only [handleJsonMessage, hparse, hfind, hj, if_pos hconfig,
              handleConfig_of_authorised hparse ha]
          rw [hhandle]
          right
          rcases configure_answer s msg with ⟨text, hr, hutf8⟩ | ⟨language, vadThold, hr⟩
          · exact .inl ⟨text, _, hr, iff_of_true hutf8 fun hne => absurd hconfig hne⟩
          · exact .inr ⟨fun hne => absurd hconfig hne, language, vadThold, hr⟩
        · right
          left
          cases hc : s.configured with
          | false =>
            refine ⟨_, _, by simp only [handleJsonMessage, hparse, hfind, hj, if_neg hconfig, hc,
              Bool.not_false, if_true]; rfl, ?_⟩
            exact iff_of_true (isUtf8_lit _) fun _ h => by cases h
          | true =>
            have hnotEnd : type ≠ lit "end" := by
              rintro rfl
              exact hend hc ⟨msg, hparse, hfind⟩
            refine ⟨_, _, by simp only [handleJsonMessage, hparse, hfind, hj, if_neg hconfig, hc,
              Bool.not_true, Bool.false_eq_true, if_false, if_neg hnotEnd]; rfl, ?_⟩
            rw [isUtf8_lit_append]
            exact ⟨fun h _ _ => h, fun h => h hconfig rfl⟩

end Session

namespace Threads

variable {P : Platform} {t t' : Threads} {ev : Event} {tr : List (Threads × Event)}

/-- The flush thread leaves the receive loop and its messages alone. -/
theorem step_flush (ho : Orderly t) (hflush : ev.isFlush = true) (hs : t.step P ev = some t') :
    t'.receiver = t.receiver ∧ replies t'.session.ws = replies t.session.ws ∧
      t'.session.ws.closed = t.session.ws.closed := by
  cases step_moves hs with
  | flushSkip now slot => exact ⟨rfl, rfl, rfl⟩
  | flushLock now n _ _ => exact ⟨rfl, rfl, rfl⟩
  | flushThrow n whisper x _ => exact ⟨rfl, rfl, rfl⟩
  | flushStop => exact ⟨rfl, rfl, rfl⟩
  | flushReturn n whisper m hw =>
    refine ⟨rfl, ?_⟩
    rw [Session.flushCycle_ws hw]
    exact ⟨rfl, rfl⟩
  | flushSend m =>
    obtain ⟨text, rfl⟩ := ho.sending m rfl
    refine ⟨rfl, ?_, Session.sendMessage_closed _ _⟩
    rw [replies, Session.sent_sendMessage, List.filter_append]
    split <;> simp [replies, Message.isPartial]
  | _ => cases hflush

/-- What the answer to a frame has come to after the steps `tr` that follow the frame. The frame
itself is readable if `U` holds. -/
inductive Stage (U : Prop) (before : List Message) (tr : List (Threads × Event)) (t : Threads) :
    Prop where
  | configuring : t.receiver.isConfiguring = true → replies t.session.ws = before →
      U ∧ LoadsReadable tr → Stage U before tr t
  | pending (text : Bytes) (code : ErrorCode) : t.receiver = .writing [errorOutput text code] →
      replies t.session.ws = before → (isUtf8 text = true ↔ U ∧ LoadsReadable tr) →
      Stage U before tr t
  | answered : t.receiver = .writing [] →
      ((∃ message code, replies t.session.ws = before ++ [.error message code]) ↔
        U ∧ LoadsReadable tr) →
      Stage U before tr t

structure Answering (U : Prop) (before : List Message) (tr : List (Threads × Event))
    (t : Threads) : Prop where
  orderly : Orderly t
  isOpen : t.session.ws.closed = none
  /-- The receive loop takes no more than three steps. -/
  steps : tr.countP (fun p => !p.2.isFlush) + t.receiver.remaining ≤ 3
  stage : Stage U before tr t

theorem loadsReadable_snoc : LoadsReadable (tr ++ [(t, ev)]) ↔
    LoadsReadable tr ∧ ∀ x, ev = .acquired (.error x) → isUtf8 x.what = true := by
  simp only [LoadsReadable, List.forall_mem_append, List.mem_singleton, forall_eq]

/-- A step of the receive loop leaves less to do. -/
theorem steps_snoc (h : tr.countP (fun p => !p.2.isFlush) + t.receiver.remaining ≤ 3)
    (hflush : ev.isFlush = false) (hless : t'.receiver.remaining < t.receiver.remaining) :
    (tr ++ [(t, ev)]).countP (fun p => !p.2.isFlush) + t'.receiver.remaining ≤ 3 := by
  simp only [List.countP_append, List.countP_singleton, hflush, Bool.not_false, if_true]
  omega

variable {U : Prop} {before : List Message}

theorem Answering.step_flush (h : Answering U before tr t) (hbusy : t.receiver.busy = true)
    (hflush : ev.isFlush = true) (hs : t.step P ev = some t') :
    Answering U before (tr ++ [(t, ev)]) t' := by
  obtain ⟨hsame, hreplies, hclosed⟩ := Threads.step_flush h.orderly hflush hs
  have hloads : LoadsReadable (tr ++ [(t, ev)]) ↔ LoadsReadable tr := by
    rw [loadsReadable_snoc, and_iff_left_iff_imp]
    rintro - x rfl
    cases hflush
  refine ⟨h.orderly.step hs, hclosed.trans h.isOpen, ?_, ?_⟩
  · simpa [hflush, hsame] using h.steps
  · cases h.stage with
    | configuring hrec hbefore hU =>
      exact .configuring (by rw [hsame, hrec]) (hreplies.trans hbefore) (by rwa [hloads])
    | pending text code hrec hbefore hU =>
      exact .pending text code (hsame.trans hrec) (hreplies.trans hbefore) (by rwa [hloads])
    | answered hrec _ =>
      rw [hrec] at hbusy
      cases hbusy

theorem Answering.step_configuring (h : Answering U before tr t)
    (hrec : t.receiver.isConfiguring = true) (hbefore : replies t.session.ws = before)
    (hU : U ∧ LoadsReadable tr) (hflush : ev.isFlush = false)
    (hev : ∀ now, ev ≠ .install true now) (hs : t.step P ev = some t') :
    Answering U before (tr ++ [(t, ev)]) t' := by
  have horderly := h.orderly.step hs
  cases Threads.step_configuring hrec hs with
  | flush hflush' _ =>
    rw [hflush] at hflush'
    cases hflush'
  | acquired vadThold hnext hsession hacq =>
    have hless : t'.receiver.remaining < t.receiver.remaining := by
      simp [hnext, hacq, Receiver.remaining]
    refine ⟨horderly, by rw [hsession]; exact h.isOpen, steps_snoc h.steps hflush hless,
      .configuring ?_ ?_ ?_⟩
    · rw [hnext]
      rfl
    · rw [hsession, hbefore]
    · rw [loadsReadable_snoc]
      exact ⟨hU.1, hU.2, by simp⟩
  | acquireFailed vadThold hnext hsession hacq =>
    have hless : t'.receiver.remaining < t.receiver.remaining := by
      simp [hnext, hacq, Receiver.remaining, configFailed]
    refine ⟨horderly, by rw [hsession]; exact h.isOpen, steps_snoc h.steps hflush hless,
      .pending _ _ hnext ?_ ?_⟩
    · rw [hsession, hbefore]
    · rw [loadsReadable_snoc, isUtf8_lit_append]
      simp [hU.1, hU.2]
  | installed s _ => exact absurd rfl (hev _)
  | installFailed ctx vadThold x hnext hutf8 hsession hinst =>
    have hless : t'.receiver.remaining < t.receiver.remaining := by
      simp [hnext, hinst, Receiver.remaining, configFailed]
    refine ⟨horderly, by rw [hsession]; exact h.isOpen, steps_snoc h.steps hflush hless,
      .pending _ _ hnext ?_ ?_⟩
    · rw [hsession, ← hbefore]
    · rw [loadsReadable_snoc, isUtf8_lit_append]
      exact iff_of_true hutf8 ⟨hU.1, hU.2, by simp⟩

/-- The error is written, unless `dump` throws. -/
theorem Answering.step_pending {text : Bytes} {code : ErrorCode} (h : Answering U before tr t)
    (hrec : t.receiver = .writing [errorOutput text code]) (hbefore : replies t.session.ws = before)
    (hU : isUtf8 text = true ↔ U ∧ LoadsReadable tr) (hflush : ev.isFlush = false)
    (hs : t.step P ev = some t') : Answering U before (tr ++ [(t, ev)]) t' := by
  have horderly := h.orderly.step hs
  have hopen := h.isOpen
  cases step_moves hs with
  | @write s f o out =>
    obtain ⟨rfl, rfl⟩ := List.cons.inj (Receiver.writing.inj hrec)
    refine ⟨horderly, (Session.sendMessage_closed _ _).trans hopen, ?_, .answered rfl ?_⟩
    · exact steps_snoc h.steps hflush (Nat.lt_succ_self 0)
    · have hloads : LoadsReadable (tr ++ [(⟨s, .writing [errorOutput text code], f⟩, .write)]) ↔
          LoadsReadable tr := by simp [loadsReadable_snoc]
      have hsent : replies (s.perform (errorOutput text code)).1.ws =
          before ++ if isUtf8 text = true then [.error text code] else [] := by
        simp only [Session.perform, errorOutput, replies, Session.sent_sendMessage,
          Message.error_dumps, List.filter_append]
        rw [← hbefore, show s.ws.closed = none from hopen]
        by_cases hutf8 : isUtf8 text = true <;> simp [hutf8, replies, Message.isPartial]
      rw [hloads, ← hU, hsent]
      by_cases hutf8 : isUtf8 text = true <;> simp [hutf8]
  | flushSkip _ _ | flushLock _ _ _ _ | flushReturn _ _ _ _ | flushThrow _ _ _ _ | flushSend _
  | flushStop => cases hflush
  | _ => cases hrec

theorem Answering.step (h : Answering U before tr t) (hbusy : t.receiver.busy = true)
    (hev : ∀ now, ev ≠ .install true now) (hs : t.step P ev = some t') :
    Answering U before (tr ++ [(t, ev)]) t' := by
  cases hflush : ev.isFlush with
  | true => exact h.step_flush hbusy hflush hs
  | false =>
    cases h.stage with
    | configuring hrec hbefore hU => exact h.step_configuring hrec hbefore hU hflush hev hs
    | pending text code hrec hbefore hU => exact h.step_pending hrec hbefore hU hflush hs
    | answered hrec _ =>
      rw [hrec] at hbusy
      cases hbusy

theorem answering_of_run (h : Answering U before [] t) (hrun : Run (step P) t tr t')
    (hbusy : ∀ p ∈ tr, p.1.receiver.busy = true) (hev : ∀ p ∈ tr, ∀ now, p.2 ≠ .install true now) :
    Answering U before tr t' :=
  hrun.invariant_of_eachStep (I := fun tr t => Answering U before tr t)
    (G := fun _ t ev => t.receiver.busy = true ∧ ∀ now, ev ≠ .install true now) h
    (fun _ _ _ _ _ h hG hs => h.step hG.1 hG.2 hs)
    (.of_forall fun p hp _ => ⟨hbusy p hp, hev p hp⟩)

theorem Answering.proceeds (h : Answering U before tr t) (hbusy : t.receiver.busy = true) :
    Proceeds P t := by
  intro hlock hlive
  obtain ⟨s, r, f⟩ := t
  have hstep {ev : Event} (hev : ev.isFlush = false) :
      Threads.step P ⟨s, r, f⟩ ev = receiverStep P ⟨s, r, f⟩ ev := by
    cases f with
    | thrown x => exact absurd rfl (hlive x)
    | _ => cases ev <;> first | rfl | cases hev
  cases h.stage with
  | configuring hrec _ _ =>
    cases r with
    | acquiring vadThold => exact ⟨.acquired (.ok 0), _, rfl, (hstep rfl).trans rfl⟩
    | installing ctx vadThold =>
      have hfree : receiverStep P ⟨s, .installing ctx vadThold, f⟩ (.install true 0) =
          some ⟨_, .writing (s.installEngine ctx vadThold true 0).2, f⟩ :=
        if_neg (by simp [show f.holdsLock = false from hlock])
      exact ⟨.install true 0, _, rfl, (hstep rfl).trans hfree⟩
    | _ => cases hrec
  | pending text code hrec _ _ =>
    obtain rfl : r = .writing [errorOutput text code] := hrec
    exact ⟨.write, _, rfl, (hstep rfl).trans rfl⟩
  | answered hrec _ =>
    rw [hrec] at hbusy
    cases hbusy

theorem Answering.done (h : Answering U before tr t')
    (hbefore : before = replies t.session.ws) (hdone : t'.receiver.busy = false) :
    Answered t t' ↔ U ∧ LoadsReadable tr := by
  cases h.stage with
  | configuring hrec _ _ =>
    rw [(Receiver.busy_of_isConfiguring hrec).1] at hdone
    cases hdone
  | pending text code hrec _ _ =>
    rw [hrec] at hdone
    cases hdone
  | answered hrec hiff =>
    rw [← hiff, hbefore]
    exact ⟨fun ha => ha.error, fun herror => ⟨hrec, h.isOpen, herror⟩⟩

end Threads

section Runs

variable {P : Platform} {params : SessionParams} {now : ℤ} {t t' : Threads} {message : Bytes}
  {validate : Bytes → Bool} {tr : List (Threads × Event)}

/-- A frame that calls for an error is handled in at most four steps, and is answered with exactly
one error by a session that reads on if and only if it is readable and so are the failed loads. -/
theorem answered_iff (hreach : Reachable (Threads.step P) (Threads.init params now) t)
    (h : Handling P message validate t tr t')
    (hcalls : CallsForError P t.session message validate tr) :
    (t'.receiver.busy = true → Threads.Proceeds P t' ∧ tr.countP (fun p => !p.2.isFlush) ≤ 2) ∧
      (t'.receiver.busy = false →
        (Answered t t' ↔ Readable P t.session message ∧ LoadsReadable tr)) := by
  obtain ⟨-, t₁, hs, hseg⟩ := run_cons.mp h.run
  have horderly := (Threads.orderly_of_reachable hreach).step hs
  cases Threads.step_moves hs with
  | @text s f _ _ hopen =>
    have hanswering (hfirst : Threads.Answering (Readable P s message) (replies s.ws) []
        ⟨(s.handleJsonMessage P message validate).1,
          (s.handleJsonMessage P message validate).2, f⟩) :
        (t'.receiver.busy = true →
          Threads.Proceeds P t' ∧ tr.countP (fun p => !p.2.isFlush) ≤ 2) ∧
        (t'.receiver.busy = false → (Answered ⟨s, .writing [], f⟩ t' ↔
          Readable P s message ∧ LoadsReadable tr)) := by
      have hlast := Threads.answering_of_run hfirst hseg h.busy hcalls.notAccepted
      refine ⟨fun hbusy => ⟨hlast.proceeds hbusy, ?_⟩, fun hdone => hlast.done rfl hdone⟩
      have hsteps := hlast.steps
      have hpos : 0 < t'.receiver.remaining := by
        cases hlast.stage with
        | configuring hrec _ _ => exact (Receiver.busy_of_isConfiguring hrec).2
        | pending text code hrec _ _ =>
          rw [hrec]
          exact Nat.succ_pos 0
        | answered hrec _ =>
          rw [hrec] at hbusy
          cases hbusy
      omega
    rcases Session.handleJsonMessage_answer hcalls.notEnd hcalls.notRefused with
      ⟨hr, hnot⟩ | ⟨text, code, hr, hiff⟩ | ⟨hreadable, language, vadThold, hr⟩
    · -- the exception has ended the loop, and there is no further step of a handling
      rw [hr] at hseg
      have hnil : tr = [] := by
        cases tr with
        | nil => rfl
        | cons p tr =>
          have hbusy := h.busy p List.mem_cons_self
          rw [(run_cons.mp hseg).1] at hbusy
          cases hbusy
      subst hnil
      rw [run_nil.mp hseg]
      refine ⟨by rintro ⟨⟩, fun _ => iff_of_false ?_ fun h => hnot h.1⟩
      intro hanswered
      cases hanswered.reads
    · apply hanswering
      rw [hr] at horderly ⊢
      refine ⟨horderly, hopen, (by decide : 0 + 1 ≤ 3), .pending text code rfl rfl ?_⟩
      simp [hiff, LoadsReadable]
    · apply hanswering
      rw [hr] at horderly ⊢
      exact ⟨horderly, hopen, (by decide : 0 + 3 ≤ 3),
        .configuring rfl rfl ⟨hreadable, by simp [LoadsReadable]⟩⟩

end Runs

namespace Demo

/-- A frame that is not JSON, before any config. -/
theorem answered_of_no_json : ∃ tr t',
    Handling platform (lit "hola") (fun _ => true) (.init params 0) tr t' ∧
      Answered (.init params 0) t' := by
  obtain ⟨tr, t', h, hwrites, hdone⟩ : ∃ tr t',
      Handling platform (lit "hola") (fun _ => true) (.init params 0) tr t' ∧
        (∀ p ∈ tr, p.2 = .write) ∧ t'.receiver.busy = false :=
    ⟨_, _, ⟨.cons rfl (.single (e := .write) rfl), by simp [Receiver.busy]⟩, by simp, rfl⟩
  have hparse : platform.parse (lit "hola") = .error (.parseError (lit "syntax error")) := rfl
  have htype (type : Bytes) : ¬ HasType platform (lit "hola") type := by
    rintro ⟨msg, hmsg, -⟩
    cases hparse.symm.trans hmsg
  have hcalls : CallsForError platform (Threads.init params 0).session (lit "hola")
      (fun _ => true) tr :=
    ⟨fun p hp now => by simp [hwrites p hp], fun _ => htype _, fun h => absurd h (htype _)⟩
  have hloads : LoadsReadable tr := fun p hp x => by simp [hwrites p hp]
  have hreadable : Readable platform (Threads.init params 0).session (lit "hola") :=
    (Session.readable_iff_of_parseError hparse).mpr (isUtf8_lit _)
  exact ⟨tr, t', h, ((answered_iff ⟨[], .nil⟩ h hcalls).2 hdone).mpr ⟨hreadable, hloads⟩⟩

/-- Every frame is an object with a number under `type`. -/
def numberPlatform : Platform where
  parse _ := .ok (.object [(lit "type", .number 1)])
  sample _ _ _ _ := 0

/-- A `type` that is no string ends the session without an answer. -/
theorem not_answered_of_number :
    ¬ ∀ (P : Platform) (params : SessionParams) (now : ℤ) (message : Bytes)
        (validate : Bytes → Bool) (tr : List (Threads × Event)) (t t' : Threads),
        Reachable (Threads.step P) (.init params now) t → Handling P message validate t tr t' →
        CallsForError P t.session message validate tr → t'.receiver.busy = false →
        Answered t t' := by
  intro h
  have hhandling : Handling numberPlatform (lit "frame") (fun _ => true) (.init params 0) []
      ⟨start, .leaving, .waiting⟩ := ⟨.single rfl, by simp⟩
  have htype (type : Bytes) : ¬ HasType numberPlatform (lit "frame") type := by
    rintro ⟨msg, hmsg, hfind⟩
    cases hmsg
    cases hfind
  have hanswered := h numberPlatform params 0 (lit "frame") (fun _ => true) [] _ _ ⟨[], .nil⟩
    hhandling ⟨by simp, fun _ => htype _, fun h => absurd h (htype _)⟩ rfl
  cases hanswered.reads

end Demo

end JotaTranscriber
