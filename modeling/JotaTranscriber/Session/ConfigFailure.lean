import JotaTranscriber.Session.References
import JotaTranscriber.Session.Solo

/-! # A config that fails

`handleConfig` answers CONFIG_ERROR when the language is no string, when the
model does not load and when whisper makes no decoder state. By then it may
have written `language_`, and it may have taken a reference of the model cache
that a session which had one before never gives back.
-/

namespace JotaTranscriber

open Transition

/-- In `handleConfig`, past the authentication. -/
def Receiver.isConfiguring : Receiver → Bool
  | acquiring _ | installing _ _ => true
  | _ => false

/-- A step of the flush thread. -/
def Event.isFlush : Event → Bool
  | flushLock .. | flushReturn _ | flushSend | flushStop => true
  | _ => false

/-- `ModelCache::acquire` counts one reference more. -/
def Event.takes : Event → Bool
  | acquired (.ok _) => true
  | _ => false

/-- The constructor of the engine throws. -/
def Event.failsInstall : Event → Bool
  | install false _ => true
  | _ => false

/-- `releaseModel` calls `ModelCache::release`. -/
def Threads.gives (t : Threads) : Event → Bool
  | .release | .joined => t.session.modelAcquired
  | _ => false

/-- The references that the session has taken and not given back. -/
def references (tr : List (Threads × Event)) : ℤ :=
  tr.countP (fun p => p.2.takes) - tr.countP fun p => p.1.gives p.2

theorem references_append (tr tr' : List (Threads × Event)) :
    references (tr ++ tr') = references tr + references tr' := by
  simp only [references, List.countP_append, Nat.cast_add]
  ring

theorem references_singleton {t : Threads} {e : Event} : references [(t, e)] =
    (if e.takes = true then 1 else 0) - if t.gives e = true then 1 else 0 := by
  simp only [references, List.countP_singleton]
  split <;> split <;> rfl

/-- The members that are to outlive a failed config. -/
structure Session.Kept (s s' : Session) : Prop where
  language : s'.language = s.language
  engine : s'.engine = s.engine
  configured : s'.configured = s.configured
  fullTranscription : s'.fullTranscription = s.fullTranscription
  rawTranscription : s'.rawTranscription = s.rawTranscription
  lastTranscribedSize : s'.lastTranscribedSize = s.lastTranscribedSize

/-- The receive loop reads a config message in the state `t` and handles it along the trace `tr`,
between steps of the flush thread, until all that is left is to write a CONFIG_ERROR. -/
structure ConfigFails (P : Platform) (message : Bytes) (validate : Bytes → Bool) (t : Threads)
    (tr : List (Threads × Event)) (t' : Threads) : Prop where
  run : Run (Threads.step P) t ((t, .text message validate) :: tr) t'
  configuring : ∀ p ∈ tr, p.1.receiver.isConfiguring = true
  failed : ∃ x, t'.receiver = .writing (configFailed x)

/-- The session gives back exactly one reference until it is released. -/
def ReleasedOnce (P : Platform) (t : Threads) : Prop :=
  ∀ tr t', Run (Threads.step P) t tr t' → t'.receiver.released = true →
    tr.countP (fun p => p.1.gives p.2) = 1

/-- A step of the receive loop keeps the members. -/
def Spares (P : Platform) (t : Threads) (ev : Event) : Prop :=
  ev.isFlush = false → ∀ t', t.step P ev = some t' → t.session.Kept t'.session

/-- The handling `tr` after the run `tr₀` leaves the session and its references as they were, or
leaves it the one reference that `releaseModel` will give back. -/
structure LeavesNoTrace (P : Platform) (tr₀ tr : List (Threads × Event)) (t' : Threads) :
    Prop where
  members : ∀ p ∈ tr, Spares P p.1 p.2
  references : references (tr₀ ++ tr) = references tr₀ ∨
    (references tr₀ = 0 ∧ references (tr₀ ++ tr) = 1 ∧ t'.session.modelAcquired = true ∧
      ReleasedOnce P t')

/-! ## The message -/

namespace Session

variable {P : Platform} {s s' : Session} {message : Bytes} {validate : Bytes → Bool} {msg : Json}
  {r : Receiver}

theorem Kept.refl (s : Session) : s.Kept s := ⟨rfl, rfl, rfl, rfl, rfl, rfl⟩

/-- Only a config gets as far as the cache or fails with a CONFIG_ERROR. -/
theorem handleJsonMessage_configure (h : s.handleJsonMessage P message validate = (s', r))
    (hr : r.isConfiguring = true ∨ ∃ x, r = .writing (configFailed x)) :
    ∃ msg, P.parse message = .ok msg ∧ s.configure msg = (s', r) := by
  have hother {out : List Output} (hout : ∀ x, out ≠ configFailed x) :
      (s, Receiver.writing out) ≠ (s', r) := by
    rintro ⟨⟩
    rcases hr with hr | ⟨x, hx⟩
    · cases hr
    · cases hx
      exact hout x rfl
  have hstay {r' : Receiver} (hr' : r' = .leaving ∨ r' = .ending) : (s, r') ≠ (s', r) := by
    rintro ⟨⟩
    rcases hr' with rfl | rfl <;> simp [Receiver.isConfiguring] at hr
  have hcode {m : Bytes} {c : ErrorCode} (hc : c ≠ .configError) (out : List Output) (x : Exn) :
      errorOutput m c :: out ≠ configFailed x := by
    simp [errorOutput, configFailed, hc]
  unfold handleJsonMessage at h
  split at h
  · exact absurd h (hother (hcode (by decide) _))
  · exact absurd h (hstay (.inl rfl))
  · rename_i msg hparse
    refine ⟨msg, hparse, ?_⟩
    split at h
    · exact absurd h (hother (hcode (by decide) _))
    · split at h
      · exact absurd h (hstay (.inl rfl))
      · split at h
        · unfold handleConfig at h
          split at h
          · split at h
            · split at h
              · exact h
              · exact absurd h (hother (hcode (by decide) _))
            · exact absurd h (hother (hcode (by decide) _))
          · exact h
        · split at h
          · exact absurd h (hother (hcode (by decide) _))
          · split at h
            · exact absurd h (hstay (.inr rfl))
            · exact absurd h (hother (hcode (by decide) _))

/-- `language_` is written as soon as the message has one. -/
theorem kept_configure_iff : s.Kept (s.configure msg).1 ↔
    ∀ language, msg.find? (lit "language") = some (.string language) → language = s.language := by
  have hnone (h : ∀ language, msg.find? (lit "language") ≠ some (.string language))
      (hs : (s.configure msg).1 = s) : s.Kept (s.configure msg).1 ↔
        ∀ language, msg.find? (lit "language") = some (.string language) →
          language = s.language := by
    rw [hs]
    exact iff_of_true (.refl s) fun language hl => absurd hl (h language)
  cases hfind : msg.find? (lit "language") with
  | none => simpa [hfind] using hnone (by simp [hfind]) (by simp [configure, hfind])
  | some j =>
    cases j with
    | string language =>
      have hs : (s.configure msg).1 = { s with language } := by
        simp [configure, hfind, Json.getString]
      rw [hs]
      constructor
      · rintro h _ ⟨⟩
        exact h.language
      · intro h
        exact { Kept.refl s with language := h language rfl }
    | _ => simpa [hfind] using hnone (by simp [hfind]) (by simp [configure, hfind, Json.getString])

end Session

/-! ## Taking and giving back -/

namespace Threads

variable {P : Platform} {params : SessionParams} {now : ℤ} {t t' : Threads} {ev : Event}
  {tr : List (Threads × Event)}

/-- `run` releases the model once; until then a session with a reference keeps it. -/
theorem step_gives (hc : Consistent t) (hs : t.step P ev = some t') :
    (t.receiver.released = false ∧ t'.receiver.released = true ∧
        t.gives ev = t.session.modelAcquired) ∨
      (t'.receiver.released = t.receiver.released ∧ t.gives ev = false ∧
        (t.session.modelAcquired = true → t'.session.modelAcquired = true)) := by
  cases step_moves hs with
  | text message validate _ =>
    right
    refine ⟨?_, rfl, fun h => by rw [Session.handleJsonMessage_eq]; exact h⟩
    exact Session.handleJsonMessage_receiver P _ message validate (p := fun r => r.released = false)
      rfl rfl (fun _ => rfl) fun _ => rfl
  | binary data now _ =>
    right
    refine ⟨?_, rfl, fun h => by rw [Session.handleBinaryMessage_eq]; exact h⟩
    exact Session.handleBinaryMessage_receiver P _ data now (p := fun r => r.released = false)
      (fun _ => rfl) fun _ => rfl
  | write o out => exact .inr ⟨rfl, rfl, fun h => by rw [Session.perform_eq]; exact h⟩
  | audio pcm now _ =>
    exact .inr ⟨rfl, rfl, fun h => by rw [Session.processAudioChunk_eq]; exact h⟩
  | install ctx vadThold initState now _ =>
    right
    rcases Session.installEngine_cases _ ctx vadThold initState now with
      ⟨_, x, hr⟩ | ⟨_, e, _, _, hr⟩ <;> rw [hr] <;> exact ⟨rfl, rfl, fun _ => rfl⟩
  | endReturn whisper hw =>
    right
    rcases Session.handleEndLocked_eq_ok hw with ⟨_, rfl⟩ | ⟨e, res, e', _, _, rfl⟩ <;>
      exact ⟨rfl, rfl, id⟩
  | release _ => exact .inl ⟨rfl, rfl, rfl⟩
  | @joined s =>
    have hm : s.modelAcquired = false := hc.released rfl
    exact .inr ⟨rfl, hm, fun h => absurd h (by simp [hm])⟩
  | flushReturn n whisper m hw =>
    right
    rcases Session.flushCycle_eq_ok hw with ⟨_, rfl, _⟩ | ⟨e, res, e', _, _, rfl, _⟩ <;>
      exact ⟨rfl, rfl, id⟩
  | flushSend m => exact .inr ⟨rfl, rfl, fun h => by rw [Session.sendMessage_eq]; exact h⟩
  | _ => exact .inr ⟨rfl, rfl, id⟩

/-- A session that has a reference gives back one, whatever it does before it ends. -/
theorem releasedOnce (hc : Consistent t) (hm : t.session.modelAcquired = true)
    (hr : t.receiver.released = false) : ReleasedOnce P t := by
  intro tr t' hrun hreleased
  have hinv : Consistent t' ∧
      if t'.receiver.released = true then tr.countP (fun p => p.1.gives p.2) = 1
      else tr.countP (fun p => p.1.gives p.2) = 0 ∧ t'.session.modelAcquired = true := by
    clear hreleased
    induction hrun with
    | nil => simp [hc, hr, hm]
    | @snoc tr s s' ev hrun hs ih =>
      obtain ⟨hcs, ih⟩ := ih
      refine ⟨hcs.step hs, ?_⟩
      rw [List.countP_append, List.countP_singleton]
      rcases step_gives hcs hs with ⟨hbefore, hafter, hgives⟩ | ⟨hsame, hgives, hkeep⟩
      · rw [if_neg (by simp [hbefore])] at ih
        rw [if_pos hafter, hgives, ih.1, ih.2]
        rfl
      · rw [hsame, hgives]
        split at ih
        · rw [if_pos ‹_›]
          simpa using ih
        · rw [if_neg ‹_›]
          exact ⟨by simpa using ih.1, hkeep ih.2⟩
  simpa [hreleased] using hinv.2

/-- Before its release a session gives nothing back, and counts for a reference from the first
that it takes. -/
theorem taken_of_run (hrun : Run (step P) (init params now) tr t)
    (hr : t.receiver.released = false) :
    tr.countP (fun p => p.1.gives p.2) = 0 ∧
      (t.holdsReference = true ↔ 0 < tr.countP fun p => p.2.takes) := by
  induction hrun with
  | nil => simp [init, holdsReference, Receiver.isInstalling]
  | @snoc tr s s' ev hrun hs ih =>
    have hcs := consistent_of_reachable ⟨tr, hrun⟩
    rcases step_gives hcs hs with ⟨-, hafter, -⟩ | ⟨hsame, hgives, -⟩
    · rw [hafter] at hr
      cases hr
    · rw [hsame] at hr
      obtain ⟨hnone, htaken⟩ := ih hr
      simp only [List.countP_append, List.countP_singleton, hgives, hnone]
      refine ⟨by simp, ?_⟩
      cases hcount : ev.countsReference with
      | false =>
        have htakes : ev.takes = false := by
          cases ev with
          | acquired res => cases res <;> first | rfl | cases hcount
          | _ => rfl
        simp only [step_holdsReference hcount hs, htaken, htakes]
        simp
      | true =>
        cases ev with
        | acquired res =>
          cases res with
          | ok ctx => simp [(step_acquired_ok hs).1, Event.takes]
          | error x => cases hcount
        | release =>
          cases step_moves hs
          cases hsame
        | joined =>
          cases step_moves hs
          cases hr
        | _ => cases hcount

/-! ## The handling -/

/-- What a step does while the receive loop is in `handleConfig`. -/
inductive ConfigMove (t : Threads) : Event → Threads → Prop where
  | flush {ev : Event} {t' : Threads} : ev.isFlush = true → t'.receiver = t.receiver →
      ConfigMove t ev t'
  | acquired {ctx : WhisperContext} {t' : Threads} (vadThold : ℚ) :
      t'.receiver = .installing ctx vadThold → t'.session = t.session →
      t.receiver = .acquiring vadThold → ConfigMove t (.acquired (.ok ctx)) t'
  | acquireFailed {x : Exn} {t' : Threads} (vadThold : ℚ) :
      t'.receiver = .writing (configFailed x) → t'.session = t.session →
      t.receiver = .acquiring vadThold → ConfigMove t (.acquired (.error x)) t'
  | installed {now : ℤ} {t' : Threads} (s : Session) :
      t'.receiver = .writing [.message s.readyMessage] → ConfigMove t (.install true now) t'
  | installFailed {now : ℤ} {t' : Threads} (ctx : WhisperContext) (vadThold : ℚ) (x : Exn) :
      t'.receiver = .writing (configFailed x) →
      isUtf8 x.what = true → t'.session = { t.session with modelAcquired := true } →
      t.receiver = .installing ctx vadThold → ConfigMove t (.install false now) t'

theorem step_configuring (hr : t.receiver.isConfiguring = true) (hs : t.step P ev = some t') :
    ConfigMove t ev t' := by
  cases step_moves hs with
  | acquired ctx vadThold => exact .acquired vadThold rfl rfl rfl
  | acquireFailed x vadThold => exact .acquireFailed vadThold rfl rfl rfl
  | install ctx vadThold initState now _ =>
    cases initState with
    | true => exact .installed _ rfl
    | false => exact .installFailed ctx vadThold _ rfl (isUtf8_lit _) rfl rfl
  | flushSkip now slot => exact .flush rfl rfl
  | flushLock now n _ _ => exact .flush rfl rfl
  | flushReturn n whisper m _ => exact .flush rfl rfl
  | flushThrow n whisper x _ => exact .flush rfl rfl
  | flushSend m => exact .flush rfl rfl
  | flushStop => exact .flush rfl rfl
  | _ => cases hr

/-- What the steps `tr` that follow the message have done, as long as they do not end with an
engine. -/
structure Handled (P : Platform) (tr : List (Threads × Event)) (t : Threads) : Prop where
  acquiring : ∀ vadThold, t.receiver = .acquiring vadThold →
    tr.countP (fun p => p.2.takes) = 0 ∧ tr.countP (fun p => p.2.failsInstall) = 0
  installing : ∀ ctx vadThold, t.receiver = .installing ctx vadThold →
    tr.countP (fun p => p.2.takes) = 1 ∧ tr.countP (fun p => p.2.failsInstall) = 0
  failed : ∀ x, t.receiver = .writing (configFailed x) →
    (tr.countP (fun p => p.2.takes) = 0 ∧ tr.countP (fun p => p.2.failsInstall) = 0) ∨
      (tr.countP (fun p => p.2.takes) = 1 ∧ tr.countP (fun p => p.2.failsInstall) = 1 ∧
        t.session.modelAcquired = true)
  gives : tr.countP (fun p => p.1.gives p.2) = 0
  spares : ∀ p ∈ tr, Spares P p.1 p.2

theorem handled_nil (hacq : t.receiver.isInstalling = false) : Handled P [] t where
  acquiring _ _ := ⟨rfl, rfl⟩
  installing ctx vadThold h := by
    rw [h] at hacq
    cases hacq
  failed _ _ := .inl ⟨rfl, rfl⟩
  gives := rfl
  spares := by simp

theorem spares_of_kept (hs : t.step P ev = some t') (h : t.session.Kept t'.session) :
    Spares P t ev := by
  intro _ t₂ ht₂
  obtain rfl := Option.some.inj (hs.symm.trans ht₂)
  exact h

theorem Handled.step (h : Handled P tr t) (hr : t.receiver.isConfiguring = true)
    (hs : t.step P ev = some t') :
    Handled P (tr ++ [(t, ev)]) t' ∨ ∃ s : Session,
      t'.receiver = .writing [.message s.readyMessage] := by
  have spares (hspares : Spares P t ev) : ∀ p ∈ tr ++ [(t, ev)], Spares P p.1 p.2 := by
    rw [List.forall_mem_append, List.forall_mem_singleton]
    exact ⟨h.spares, hspares⟩
  have gives (hgives : t.gives ev = false) :
      (tr ++ [(t, ev)]).countP (fun p => p.1.gives p.2) = 0 := by
    simp only [List.countP_append, List.countP_singleton, h.gives, hgives]
    rfl
  cases step_configuring hr hs with
  | flush hflush hsame =>
    have hquiet : t.gives ev = false ∧ ev.takes = false ∧ ev.failsInstall = false := by
      cases ev <;> first | exact ⟨rfl, rfl, rfl⟩ | cases hflush
    refine .inl ⟨?_, ?_, ?_, gives hquiet.1, spares fun hnot => ?_⟩
    · simpa [hsame, hquiet] using h.acquiring
    · simpa [hsame, hquiet] using h.installing
    · intro x hx
      rw [← hsame, hx] at hr
      cases hr
    · rw [hflush] at hnot
      cases hnot
  | acquired vadThold hrec hsession hacq =>
    obtain ⟨ht, hf⟩ := h.acquiring vadThold hacq
    have hkept : t.session.Kept t'.session := by rw [hsession]; exact .refl _
    refine .inl ⟨?_, ?_, ?_, gives rfl, spares (spares_of_kept hs hkept)⟩
    all_goals simp only [hrec, List.countP_append, List.countP_singleton, ht, hf]
    · simp
    · exact fun _ _ _ => ⟨rfl, rfl⟩
    · simp
  | acquireFailed vadThold hrec hsession hacq =>
    obtain ⟨ht, hf⟩ := h.acquiring vadThold hacq
    have hkept : t.session.Kept t'.session := by rw [hsession]; exact .refl _
    refine .inl ⟨?_, ?_, ?_, gives rfl, spares (spares_of_kept hs hkept)⟩
    all_goals simp only [hrec, List.countP_append, List.countP_singleton, ht, hf]
    · simp
    · simp
    · exact fun _ _ => .inl ⟨rfl, rfl⟩
  | installed s hrec => exact .inr ⟨s, hrec⟩
  | installFailed ctx vadThold x hrec _ hsession hinst =>
    obtain ⟨ht, hf⟩ := h.installing ctx vadThold hinst
    have hkept : t.session.Kept t'.session := by
      rw [hsession]
      exact ⟨rfl, rfl, rfl, rfl, rfl, rfl⟩
    refine .inl ⟨?_, ?_, ?_, gives rfl, spares (spares_of_kept hs hkept)⟩
    all_goals simp only [hrec, List.countP_append, List.countP_singleton, ht, hf]
    · simp
    · simp
    · exact fun _ _ => .inr ⟨rfl, rfl, by rw [hsession]⟩

theorem handled_of_run {x : Exn} (h : Handled P [] t) (hrun : Run (step P) t tr t')
    (hall : ∀ p ∈ tr, p.1.receiver.isConfiguring = true)
    (hend : t'.receiver = .writing (configFailed x)) : Handled P tr t' := by
  have hinv := hrun.invariant_of_eachStep
    (I := fun tr t => Handled P tr t ∨ ∃ s : Session,
      t.receiver = .writing [.message s.readyMessage])
    (G := fun _ t _ => t.receiver.isConfiguring = true) (.inl h)
    (by
      rintro tr t ev t' - (h | ⟨s, hready⟩) hr hs
      · exact h.step hr hs
      · rw [hready] at hr
        cases hr)
    (.of_forall fun p hp _ => hall p hp)
  rcases hinv with h | ⟨s, hready⟩
  · exact h
  · rw [hready] at hend
    cases hend

end Threads

section Runs

variable {P : Platform} {params : SessionParams} {now : ℤ} {t t' : Threads} {message : Bytes}
  {validate : Bytes → Bool} {tr₀ tr : List (Threads × Event)}

/-- The receive loop has read the message and stands in `handleConfig`, past the authentication. -/
theorem ConfigFails.start (h : ConfigFails P message validate t tr t') :
    t.receiver = .writing [] ∧ ∃ t₁ msg, P.parse message = .ok msg ∧
      t.step P (.text message validate) = some t₁ ∧ t₁.session = (t.session.configure msg).1 ∧
      Threads.Handled P [] t₁ ∧ Run (Threads.step P) t₁ tr t' := by
  obtain ⟨-, t₁, hs, hseg⟩ := run_cons.mp h.run
  have hstart : t₁.receiver.isConfiguring = true ∨
      ∃ x, t₁.receiver = .writing (configFailed x) := by
    cases tr with
    | nil =>
      rw [← run_nil.mp hseg]
      exact .inr h.failed
    | cons p tr =>
      rw [← (run_cons.mp hseg).1]
      exact .inl (h.configuring p List.mem_cons_self)
  cases Threads.step_moves hs with
  | @text s f _ _ _ =>
    obtain ⟨s', r, hr⟩ : ∃ s' r, s.handleJsonMessage P message validate = (s', r) :=
      ⟨_, _, rfl⟩
    simp only [hr] at hs hseg hstart
    obtain ⟨msg, hparse, hconfigure⟩ := Session.handleJsonMessage_configure hr hstart
    refine ⟨rfl, _, msg, hparse, hs, by rw [hconfigure], Threads.handled_nil ?_, hseg⟩
    rcases Session.configure_cases s msg with ⟨x, hcase⟩ | ⟨language, vadThold, hcase⟩ <;>
      cases hcase.symm.trans hconfigure <;> rfl

/-- A failed config leaves no trace if and only if the message names no language other than the
session's, and where only the engine could not be constructed the session had no reference yet. -/
theorem leavesNoTrace_iff (hrun : Run (Threads.step P) (Threads.init params now) tr₀ t)
    (h : ConfigFails P message validate t tr t') :
    LeavesNoTrace P tr₀ ((t, .text message validate) :: tr) t' ↔
      (∀ msg language, P.parse message = .ok msg →
        msg.find? (lit "language") = some (.string language) → language = t.session.language) ∧
      ((∃ p ∈ tr, p.2.failsInstall = true) → t.session.modelAcquired = false) := by
  obtain ⟨hreading, t₁, msg, hparse, hs, hsession, hhandled, hseg⟩ := h.start
  obtain ⟨x, hx⟩ := h.failed
  have hdone := Threads.handled_of_run hhandled hseg h.configuring hx
  have hmembers : (∀ p ∈ (t, Event.text message validate) :: tr, Spares P p.1 p.2) ↔
      ∀ msg language, P.parse message = .ok msg →
        msg.find? (lit "language") = some (.string language) →
        language = t.session.language := by
    rw [List.forall_mem_cons, and_iff_left hdone.spares]
    constructor
    · intro hspares msg' language hparse' hfind
      cases hparse.symm.trans hparse'
      have hkept := hspares rfl t₁ hs
      rw [hsession] at hkept
      exact Session.kept_configure_iff.mp hkept language hfind
    · intro hlanguage
      apply Threads.spares_of_kept hs
      rw [hsession]
      exact Session.kept_configure_iff.mpr fun language => hlanguage msg language hparse
  -- before the message the session has taken a reference exactly if it still has one
  obtain ⟨hnone, htaken⟩ := Threads.taken_of_run hrun (by rw [hreading]; rfl)
  have hholds : t.holdsReference = t.session.modelAcquired := by
    simp [Threads.holdsReference, hreading, Receiver.isInstalling]
  have hbefore : references tr₀ = tr₀.countP fun p => p.2.takes := by
    simp [references, hnone]
  have hafter : references (tr₀ ++ (t, .text message validate) :: tr) =
      references tr₀ + tr.countP fun p => p.2.takes := by
    have htext : references ((t, .text message validate) :: tr) = references tr := rfl
    rw [references_append, htext]
    simp [references, hdone.gives]
  have hreferences : (references (tr₀ ++ (t, .text message validate) :: tr) = references tr₀ ∨
      (references tr₀ = 0 ∧ references (tr₀ ++ (t, .text message validate) :: tr) = 1 ∧
        t'.session.modelAcquired = true ∧ ReleasedOnce P t')) ↔
      ((∃ p ∈ tr, p.2.failsInstall = true) → t.session.modelAcquired = false) := by
    rcases hdone.failed x hx with ⟨ht, hf⟩ | ⟨ht, hf, hm⟩
    · have hnever := List.countP_eq_zero.mp hf
      apply iff_of_true
      · left
        rw [hafter, ht]
        simp
      · rintro ⟨p, hp, hfails⟩
        exact absurd hfails (hnever p hp)
    · have hfails : ∃ p ∈ tr, p.2.failsInstall = true := List.countP_pos_iff.mp (by omega)
      have hconsistent : Threads.Consistent t' :=
        Threads.consistent_of_reachable ⟨_, hrun.append h.run⟩
      have honce : ReleasedOnce P t' :=
        Threads.releasedOnce hconsistent hm (by rw [hx]; rfl)
      rw [hholds] at htaken
      rw [hafter, ht, hbefore, ← Bool.not_eq_true, htaken]
      constructor
      · rintro (hsame | ⟨hzero, -⟩) <;> omega
      · intro hzero
        have hzero := hzero hfails
        exact .inr ⟨by omega, by omega, hm, honce⟩
  rw [← hmembers, ← hreferences]
  exact ⟨fun h => ⟨h.members, h.references⟩, fun h => ⟨h.1, h.2⟩⟩

/-- Steps of the receive loop that keep the members keep them together, where the flush thread does
nothing in between. -/
theorem kept_of_spares (hrun : Run (Threads.step P) t tr t') (hall : ∀ p ∈ tr, Spares P p.1 p.2)
    (hflush : ∀ p ∈ tr, p.2.isFlush = false) : t.session.Kept t'.session := by
  induction hrun with
  | nil => exact .refl _
  | @snoc tr s s' ev _ hs ih =>
    rw [List.forall_mem_append, List.forall_mem_singleton] at hall hflush
    obtain ⟨hl, he, hc, hfull, hraw, hlast⟩ := ih hall.1 hflush.1
    have hkept := hall.2 hflush.2 s' hs
    exact ⟨hkept.language.trans hl, hkept.engine.trans he, hkept.configured.trans hc,
      hkept.fullTranscription.trans hfull, hkept.rawTranscription.trans hraw,
      hkept.lastTranscribedSize.trans hlast⟩

end Runs

namespace Demo

/-- A config message whose engine cannot be constructed. -/
def failingTrace (s : Session) : List (Threads × Event) :=
  [(⟨s, .acquiring 0, .waiting⟩, .acquired (.ok 0)),
    (⟨s, .installing 0 0, .waiting⟩, .install false 0)]

theorem configFails {s : Session} (hopen : s.ws.closed = none)
    (hauth : s.params.authEnabled = false) :
    ∃ t', ConfigFails platform (lit "config") (fun _ => true) ⟨s, .writing [], .waiting⟩
      (failingTrace s) t' := by
  have htext : Threads.step platform ⟨s, .writing [], .waiting⟩
      (.text (lit "config") fun _ => true) = some ⟨s, .acquiring 0, .waiting⟩ := by
    have hhandle : s.handleJsonMessage platform (lit "config") (fun _ => true) =
        (s, .acquiring 0) := by
      have hp : platform.parse (lit "config") =
          .ok (.object [(lit "type", .string (lit "config"))]) := rfl
      have htype : Json.find? (.object [(lit "type", .string (lit "config"))]) (lit "type") =
          some (.string (lit "config")) := rfl
      have hlanguage : Json.find? (.object [(lit "type", .string (lit "config"))])
          (lit "language") = none := rfl
      have hvad : Json.find? (.object [(lit "type", .string (lit "config"))])
          (lit "vad_thold") = none := rfl
      simp [Session.handleJsonMessage, hp, htype, Json.getString, Session.handleConfig, hauth,
        Session.configure, hlanguage, hvad]
    simp [Threads.step, Threads.receiverStep, hopen, hhandle]
  exact ⟨_, .cons htext (.cons rfl (.single rfl)), by simp [failingTrace, Receiver.isConfiguring],
    _, rfl⟩

/-- The first config of a session fails for want of a decoder state. -/
theorem leavesNoTrace_of_first_config : ∃ t',
    ConfigFails platform (lit "config") (fun _ => true) (.init params 0) (failingTrace start) t' ∧
      LeavesNoTrace platform []
        ((.init params 0, .text (lit "config") fun _ => true) :: failingTrace start) t' := by
  obtain ⟨t', h⟩ := configFails (s := start) rfl rfl
  refine ⟨t', h, (leavesNoTrace_iff .nil h).mpr ⟨?_, fun _ => rfl⟩⟩
  rintro msg language ⟨⟩ hfind
  cases hfind

/-- The second config of a session fails for want of a decoder state: the session has taken two
references. -/
theorem leavesTrace_of_second_config :
    ¬ ∀ (P : Platform) (params : SessionParams) (now : ℤ) (message : Bytes)
        (validate : Bytes → Bool) (tr₀ tr : List (Threads × Event)) (t t' : Threads),
        Run (Threads.step P) (.init params now) tr₀ t → ConfigFails P message validate t tr t' →
        LeavesNoTrace P tr₀ ((t, .text message validate) :: tr) t' := by
  intro h
  obtain ⟨t', hfails⟩ := configFails (s := ready) ready_open rfl
  have hrefs := (h _ _ _ _ _ _ _ _ _ ready_run hfails).references
  have hbefore : references readyTrace = 1 := rfl
  have hafter : references (readyTrace ++
      (⟨ready, .writing [], .waiting⟩, .text (lit "config") fun _ => true) ::
        failingTrace ready) = 2 := rfl
  rw [hbefore, hafter] at hrefs
  omega

end Demo

end JotaTranscriber
