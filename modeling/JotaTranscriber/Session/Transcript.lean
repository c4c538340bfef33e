import JotaTranscriber.Session.Phases
import JotaTranscriber.Session.Solo

/-! # The transcript

Between a successful config and the final message of `end`, the messages of a
session tell the history of its commits: every partial message shows what was
kept so far, and the final message all of it.
-/

namespace JotaTranscriber

open Transition

namespace History

/-- The final message and every partial message tell the history. -/
structure Told (P : Platform) (tr : History) (text : Bytes) : Prop where
  final : text = finalText tr
  partials : ∀ tr₁ t whisper tr₂ t' m, tr = tr₁ ++ (t, .flushReturn whisper) :: tr₂ →
    t.step P (.flushReturn whisper) = some t' → t'.flusher = .sending m →
    ∃ shown, (shown = [] ∨ shown = (t.session.heard whisper false).partialText) ∧
      m = .transcription (kept (tr₁ ++ [(t, .flushReturn whisper)]) ++ shown) false
  grows : ∀ tr₁ tr₂, tr = tr₁ ++ tr₂ → kept tr₁ <+: text
  complete : text = [] → ∀ p ∈ tr, (flushed p).committedText = [] ∧ (forced p).committedText = []

/-- A trace in which whisper never returns an error. -/
def NeverFails (tr : History) : Prop :=
  ∀ p ∈ tr, ∀ whisper, p.2 = .flushReturn whisper ∨ p.2 = .endReturn whisper →
    ∀ e, p.1.session.engine = some e → (e.infer whisper).result = 0

variable {P : Platform} {params : SessionParams} {start now : ℤ} {t₀ t₁ t : Threads}
  {tr : History} {text : Bytes} {out : List Output}

end History

namespace Demo

/-- What a session between two events has, and what the history before it has told. -/
structure Holds (s : Session) (size marker : ℕ) (full raw : Bytes) : Prop where
  engine : ∃ e, Listening s e ∧ e.audioBuffer.length = size
  marker : s.lastTranscribedSize = marker
  full : s.fullTranscription = full
  raw : s.rawTranscription = raw

/-- A trace of one config, without an error of whisper, and what it tells. -/
structure Tells (tr : History) (raw kept : Bytes) : Prop where
  raw : tr.raw = raw
  kept : tr.kept = kept
  ended : tr.ended = []
  neverFails : tr.NeverFails
  latest : ∀ p ∈ tr, ∀ now, p.2 ≠ .install true now

variable {s : Session} {size marker n : ℕ} {full raw : Bytes}

theorem holds_ready : Holds ready 0 0 [] [] :=
  ⟨⟨engine, listening_ready, rfl⟩, ready_lastTranscribedSize, ready_fullTranscription,
    ready_rawTranscription⟩

theorem Tells.append {tr tr' : History} {raw' kept kept' : Bytes} (h : Tells tr raw kept)
    (h' : Tells tr' raw' kept') : Tells (tr ++ tr') (raw ++ raw') (kept ++ kept') where
  raw := by rw [History.raw_append, h.raw, h'.raw]
  kept := by rw [History.kept_append, h.kept, h'.kept]
  ended := by rw [History.ended_append, h.ended, h'.ended]; rfl
  neverFails := List.forall_mem_append.mpr ⟨h.neverFails, h'.neverFails⟩
  latest := List.forall_mem_append.mpr ⟨h.latest, h'.latest⟩

/-- A step of which whisper takes no part. -/
theorem tells_single (t : Threads) {e : Event} (hi : e.returns = false)
    (hl : ∀ now, e ≠ .install true now) : Tells [(t, e)] [] [] := by
  obtain ⟨hraw, hkept, hended⟩ := History.snoc_of_not_returns [] t hi
  refine ⟨hraw, hkept, hended, ?_, by simpa using hl⟩
  simp only [History.NeverFails, List.mem_singleton, forall_eq]
  rintro whisper (rfl | rfl) <;> cases hi

theorem Holds.frame (h : Holds s size marker full raw) (hmin : 1 ≤ n) (hmax : n ≤ 262144)
    (hb : size < highWaterMark) :
    ∃ tr s', Run (Threads.step platform) ⟨s, .writing [], .waiting⟩ tr
        ⟨s', .writing [], .waiting⟩ ∧
      Holds s' (min maxBufferSamples (size + n)) marker full raw ∧ Tells tr [] [] := by
  obtain ⟨⟨e, hl, rfl⟩, hm, hf, hr⟩ := h
  refine ⟨_, _, frame_run hl hmin hmax hb, ⟨⟨_, hl.withFrame n, fill_size hb⟩, hm, hf, hr⟩, ?_⟩
  exact (tells_single _ rfl (by simp)).append (tells_single _ rfl (by simp))

/-- A cycle that hears one segment which ends before the overlap. -/
theorem Holds.cycle (h : Holds s size marker full raw) {r : Receiver} (hr : r ≠ .forcing)
    (hw : maxWindowSamples ≤ size) (hnew : marker + 4000 ≤ size) (hmax : size ≤ maxBufferSamples)
    (text : Bytes) (t1 : ℤ) (ht : t1 < overlapBounds size) (hne : text ≠ []) :
    ∃ tr s' f, Run (Threads.step platform) ⟨s, r, .waiting⟩ tr ⟨s', r, f⟩ ∧
      Holds s' (size - (t1 * 160).toNat) (size - (t1 * 160).toNat)
        (full ++ if isHallucination text then [] else text) (raw ++ text) ∧
      (f = .waiting ∨ isHallucination text = false ∧ ∃ m, f = .sending m) ∧
      Tells tr text (if isHallucination text then [] else text) := by
  obtain ⟨⟨e, hl, rfl⟩, rfl, rfl, rfl⟩ := h
  obtain ⟨e', hok, hsize⟩ := transcribe_hears_one text hw ht
  have hmin : 32000 ≤ e.audioBuffer.length := le_trans (by decide) hw
  refine ⟨_, _, _, cycle_run hl rfl hr hmin hnew hmax hok, ?_, ?_, ?_⟩
  · refine ⟨⟨e', hl.applyResult _ _ _, hsize⟩, ?_, Session.applyResult_fullTranscription,
      Session.applyResult_rawTranscription⟩
    simpa [Session.applyResult, hne, StreamingWhisperEngine.getBufferSize] using hsize
  · cases hh : isHallucination text with
    | true =>
      left
      simp [Session.partialMessage, TranscribeResult.committedOk, TranscribeResult.partialOk, hh,
        idle]
    | false =>
      right
      simp [Session.partialMessage, TranscribeResult.committedOk, hh, hne, idle]
  · have hheard := Session.heard_eq hl.engine hok
    have hreturn : Tells [(⟨s, r, .inferring e.audioBuffer.length⟩,
        .flushReturn (hears [⟨some text, t1⟩]))] text
        (if isHallucination text then [] else text) := by
      refine ⟨?_, ?_, rfl, ?_, by simp⟩
      · simp [History.raw, History.flushed, hheard]
      · simp [History.kept, History.flushed, hheard, TranscribeResult.keptText]
      · simp only [History.NeverFails, List.mem_singleton, forall_eq]
        rintro whisper (hw | hw) e' _ <;> cases hw
        rfl
    exact (tells_single _ rfl (by simp)).append hreturn

theorem Holds.forced (h : Holds s size marker full raw) :
    ∃ s', Run (Threads.step platform) ⟨s, .writing [], .waiting⟩
        ((⟨s, .writing [], .waiting⟩, .text (lit "end") fun _ => true) :: endTrace s none)
        ⟨s', .writing Session.endOutputs, .waiting⟩ ∧
      Holds s' size marker (if full = [] ∧ raw ≠ [] then raw else full) raw ∧
      Tells ((⟨s, .writing [], .waiting⟩, .text (lit "end") fun _ => true) :: endTrace s none)
        [] [] := by
  obtain ⟨⟨e, hl, rfl⟩, rfl, rfl, rfl⟩ := h
  have hheard := Session.heard_eq hl.engine (transcribe_hears_nothing e)
  refine ⟨s.finishEnd [], .cons (step_end hl none) (end_run hl none),
    ⟨⟨e, ⟨hl.configured, hl.engine, hl.isOpen, hl.running, hl.window⟩, rfl⟩, rfl, ?_, rfl⟩, ?_⟩
  · simp [Session.finishEnd]
  · have hreturn : Tells [(⟨s, .forcing, .waiting⟩, .endReturn (hears []))] [] [] := by
      refine ⟨rfl, rfl, ?_, ?_, by simp⟩
      · simp [History.ended, History.forced, hheard]
      · simp only [History.NeverFails, List.mem_singleton, forall_eq]
        rintro whisper (hw | hw) e' _ <;> cases hw
        rfl
    exact ((tells_single _ rfl (by simp)).append (tells_single _ rfl (by simp))).append hreturn

/-- Ten seconds of audio in which a loop is heard, a frame, and `end`; the forced call hears
nothing, and before the final message is composed a cycle hears a word. -/
theorem late_run :
    ∃ (tr : History) (t : Threads), Run (Threads.step platform) installed tr t ∧
      t.receiver =
        .writing [.message (.transcription (lit "a a a a" ++ lit " hola") true), .close .normal] ∧
      Tells tr (lit "a a a a" ++ lit " hola") (lit " hola") := by
  have hloop : isHallucination (lit "a a a a") = true := by decide
  have hword : isHallucination (lit " hola") = false := by decide
  obtain ⟨tr₁, s₁, r₁, h₁, w₁⟩ := holds_ready.frame (n := 160000) (by omega) (by omega)
    (by simp [highWaterMark])
  obtain ⟨tr₂, s₂, f₂, r₂, h₂, hf₂, w₂⟩ := h₁.cycle (r := .writing []) (by simp) (by decide)
    (by decide) (by decide) (lit "a a a a") 100 (by decide) (by decide)
  obtain rfl : f₂ = .waiting := by simpa [hloop] using hf₂
  obtain ⟨tr₃, s₃, r₃, h₃, w₃⟩ := h₂.frame (n := 26000) (by omega) (by omega) (by decide)
  obtain ⟨s₄, r₄, h₄, w₄⟩ := h₃.forced
  obtain ⟨tr₅, s₅, f₅, r₅, h₅, hf₅, w₅⟩ := h₄.cycle (r := .writing Session.endOutputs)
    (by simp) (by decide) (by decide) (by decide) (lit " hola") 100 (by decide) (by decide)
  have r₆ : Run (Threads.step platform) ⟨s₅, .writing Session.endOutputs, f₅⟩
      [(⟨s₅, .writing Session.endOutputs, f₅⟩, .write)]
      ⟨s₅, .writing [.message (.transcription s₅.fullTranscription true), .close .normal], f₅⟩ :=
    Run.single (by rcases hf₅ with rfl | ⟨_, m, rfl⟩ <;> rfl)
  refine ⟨_, _, .cons step_ready (r₁.append (r₂.append (r₃.append (r₄.append (r₅.append r₆))))),
    ?_, ?_⟩
  · have hne : lit "a a a a" ≠ [] := by decide
    simp [h₅.full, hloop, hword, hne]
  · have := (tells_single installed (e := .write) rfl (by simp)).append
      (w₁.append (w₂.append (w₃.append (w₄.append (w₅.append
        (tells_single ⟨s₅, .writing Session.endOutputs, f₅⟩ (e := .write) rfl (by simp)))))))
    simpa [hloop, hword] using this

end Demo

end JotaTranscriber
