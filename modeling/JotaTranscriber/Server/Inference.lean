import JotaTranscriber.Server.Basic
import JotaTranscriber.Session.HandleEnd

/-! # Who is inside whisper

The limiter counts the flush threads inside whisper, and only these: the forced
call of `handleEnd` takes no slot. A cycle that returns gives its slot back; a
cycle that throws does not, and ends the process.
-/

namespace JotaTranscriber

open Transition

namespace Threads

/-- The flush thread is inside whisper, with a slot. -/
def flushInside (t : Threads) : Bool := t.flusher.holdsLock

/-- `handleEnd` is inside whisper. -/
def endInside (t : Threads) : Bool := t.receiver = .forcing && t.session.bufferSize ≠ 0

variable {P : Platform} {t t' : Threads} {ev : Event} {now : ℤ} {whisper : WhisperFull}

theorem step_flushInside (hev : ev.isShared = false ∨ ∃ now, ev = .flushLock now false)
    (hs : t.step P ev = some t') : t'.flushInside = t.flushInside := by
  rcases hev with hev | ⟨now, rfl⟩ <;> cases step_moves hs <;> first | rfl | cases hev

theorem step_shared_flushInside (hev : (∃ r, ev = .acquired r) ∨ ev = .release ∨ ev = .joined)
    (hs : t.step P ev = some t') : t'.flushInside = t.flushInside := by
  rcases hev with ⟨r, rfl⟩ | rfl | rfl <;> cases step_moves hs <;> rfl

/-- A cycle that asks for a slot and gets it goes inside. -/
theorem step_flushLock (hasks : t.asksSlot now = true)
    (hs : t.step P (.flushLock now true) = some t') :
    t.flushInside = false ∧ t'.flushInside = true := by
  simp only [asksSlot, Bool.and_eq_true, decide_eq_true_eq] at hasks
  obtain ⟨⟨⟨hf, hrun⟩, hr⟩, hready⟩ := hasks
  obtain ⟨n, hn⟩ := Option.isSome_iff_exists.mp hready
  obtain ⟨s, r, f⟩ := t
  obtain rfl : f = .waiting := hf
  simp only at hrun hr hn
  simp only [step, flusherStep, hrun, Bool.not_true, Bool.false_eq_true, if_false, hr, hn, if_true,
    Option.some.injEq] at hs
  subst hs
  exact ⟨rfl, rfl⟩

theorem step_flushReturn (hs : t.step P (.flushReturn whisper) = some t') :
    t.flushInside = true ∧ t'.flushInside = false := by
  cases step_moves hs with
  | flushReturn n _ m hw => exact ⟨rfl, Flusher.elim_holdsLock m⟩
  | flushThrow n _ x hw => exact ⟨rfl, rfl⟩

/-- Only `handleEnd` itself goes in by its lock; every other step leaves it inside at most. -/
theorem step_endInside (hc : Consistent t) (hev : ev ≠ .endLock) (hs : t.step P ev = some t') :
    t'.endInside = true → t.endInside = true := by
  intro h
  have hforcing : t'.receiver = .forcing := by
    simp only [endInside, Bool.and_eq_true, decide_eq_true_eq] at h
    exact h.1
  cases step_moves hs with
  | text message validate _ =>
    exact absurd hforcing (Session.handleJsonMessage_receiver P _ message validate
      (p := (· ≠ .forcing)) (by simp) (by simp) (by simp) (by simp))
  | binary data now _ =>
    exact absurd hforcing (Session.handleBinaryMessage_receiver P _ data now
      (p := (· ≠ .forcing)) (by simp) (by simp))
  | endLock _ => exact absurd rfl hev
  | flushSkip now slot => exact h
  | flushLock now n _ _ => exact h
  | flushStop => exact h
  | flushThrow n whisper x _ => exact h
  | flushReturn n whisper m hw =>
    have := hc.exclusive hforcing
    cases this
  | flushSend m =>
    rw [Session.sendMessage_eq] at h
    exact h
  | _ => cases hforcing

theorem step_flushLock_endInside {slot : Bool} (hs : t.step P (.flushLock now slot) = some t') :
    t'.endInside = t.endInside := by
  cases step_moves hs <;> rfl

theorem step_endLock (hs : t.step P .endLock = some t') :
    t.endInside = false ∧ t'.endInside = decide (t.session.bufferSize ≠ 0) := by
  cases step_moves hs with
  | endLock _ => simp [endInside]

/-- The cycle of a flush thread inside whisper returns, or throws if whisper fails. -/
theorem step_inferring (hc : Consistent t) {n : ℕ} (hf : t.flusher = .inferring n)
    (whisper : WhisperFull) :
    ∃ e t', t.session.engine = some e ∧ t.step P (.flushReturn whisper) = some t' ∧
      (t'.flusher.isThrown = false ↔ (e.infer whisper).result = 0) := by
  obtain ⟨s, r, f⟩ := t
  obtain rfl : f = .inferring n := hf
  obtain ⟨e, he, hsize, hmin⟩ := hc.inferring n rfl
  have hne : e.audioBuffer ≠ [] := by
    rintro hnil
    rw [StreamingWhisperEngine.getBufferSize, hnil] at hsize
    simp [← hsize, Session.minBufferSamples] at hmin
  have hok := StreamingWhisperEngine.transcribe_isOk_iff e whisper false
  simp only [hne, false_or] at hok
  refine ⟨e, ?_⟩
  rw [← hok]
  cases htr : e.transcribeSlidingWindow whisper false with
  | error x =>
    refine ⟨⟨s, r, .thrown x⟩, he, ?_, by simp [Flusher.isThrown]⟩
    simp only [step, flusherStep, Session.flushCycle_of_error n he htr]
  | ok p =>
    obtain ⟨res, e'⟩ := p
    have hcycle := Session.flushCycle_of_transcribe n he htr
    cases hm : (s.applyResult n res e').partialMessage res with
    | none =>
      refine ⟨⟨s.applyResult n res e', r, .waiting⟩, he, ?_, by simp [Flusher.isThrown]⟩
      simp only [step, flusherStep, hcycle, hm]
    | some m =>
      refine ⟨⟨s.applyResult n res e', r, .sending m⟩, he, ?_, by simp [Flusher.isThrown]⟩
      simp only [step, flusherStep, hcycle, hm]

end Threads

namespace Server

variable {ι : Type*} [Fintype ι] [DecidableEq ι] {P : Platform} {S S' : Server ι}
  {ev : ServerEvent ι}

/-- The sessions whose `handleEnd` is inside whisper; the limiter does not count them. -/
def forced (S : Server ι) : ℕ := Family.count (fun t : Threads => t.endInside = true) S.sessions

/-- The threads inside whisper. -/
def inside (S : Server ι) : ℕ :=
  Family.count (fun t : Threads => t.flushInside = true) S.sessions + S.forced

/-- A `handleEnd` starts on a buffer with audio, or a flush cycle takes a free slot, where the slots
in use and the forced calls together have reached the limit. -/
def Crowds (S : Server ι) : ServerEvent ι → Prop
  | .thread i .endLock => (S.sessions i).session.bufferSize ≠ 0 ∧
      S.limiter.maxConcurrent ≤ S.limiter.activeCount + S.forced
  | .flushLock i now => (S.sessions i).asksSlot now = true ∧
      S.limiter.activeCount < S.limiter.maxConcurrent ∧
      S.limiter.maxConcurrent ≤ S.limiter.activeCount + S.forced
  | _ => False

/-- The limiter counts the flush threads inside whisper. -/
structure Limited (cap : ℤ) (S : Server ι) : Prop where
  consistent : ∀ i, (S.sessions i).Consistent
  maxConcurrent : S.limiter.maxConcurrent = cap
  activeCount : S.terminated = false →
    S.limiter.activeCount = Family.count (fun t : Threads => t.flushInside = true) S.sessions

omit [DecidableEq ι] in
theorem flushInside_init {params : ι → SessionParams} {start : ι → ℤ} {ttl n : ℤ} :
    Family.count (fun t : Threads => t.flushInside = true)
      (init params start ttl n).sessions = 0 :=
  count_init fun _ _ => by simp [Threads.init, Threads.flushInside, Flusher.holdsLock]

omit [DecidableEq ι] in
theorem limited_init (params : ι → SessionParams) (start : ι → ℤ) (ttl n : ℤ) :
    Limited ((InferenceLimiter.setMaxConcurrency {} n).maxConcurrent)
      (init params start ttl n) where
  consistent i := Threads.consistent_init _ _
  maxConcurrent := rfl
  activeCount _ := by
    rw [flushInside_init]
    simp only [init, InferenceLimiter.setMaxConcurrency]
    split <;> rfl

/-- A step of one session that takes no slot and gives none back. -/
theorem Limited.keep {cap : ℤ} (h : Limited cap S) {i : ι} {e : Event} {t : Threads}
    (cache : ModelCache) (ht : (S.sessions i).step P e = some t)
    (hkeep : t.flushInside = (S.sessions i).flushInside) :
    Limited cap { S.set i t with cache } where
  consistent := consistent_set h.consistent ht
  maxConcurrent := h.maxConcurrent
  activeCount hlive := by
    rw [set, Family.count_update_of_iff (by rw [hkeep])]
    exact h.activeCount hlive

theorem Limited.step {cap : ℤ} (h : Limited cap S) (hs : S.step P ev = some S') :
    Limited cap S' := by
  obtain ⟨hlive, hm⟩ := step_moves hs
  have hactive := h.activeCount hlive
  cases hm with
  | thread he ht => exact h.keep S.cache ht (Threads.step_flushInside (.inl he) ht)
  | acquire ht => exact h.keep _ ht (Threads.step_shared_flushInside (.inl ⟨_, rfl⟩) ht)
  | releaseModel he ht => exact h.keep _ ht (Threads.step_shared_flushInside (.inr he) ht)
  | flushSkip ht _ => exact h.keep S.cache ht (Threads.step_flushInside (.inr ⟨_, rfl⟩) ht)
  | @flushLock i now t hasks _ ht =>
    obtain ⟨hbefore, hafter⟩ := Threads.step_flushLock hasks ht
    have hcount := Family.count_update_enter (p := fun t : Threads => t.flushInside = true)
      (f := S.sessions) (i := i) (a := t) (by simp [hbefore]) hafter
    refine ⟨consistent_set h.consistent ht, h.maxConcurrent, fun _ => ?_⟩
    simp only [set, hactive, hcount]
    push_cast
    rfl
  | @flushReturn i whisper t _ ht =>
    obtain ⟨hbefore, hafter⟩ := Threads.step_flushReturn ht
    have hcount := Family.count_update_leave (p := fun t : Threads => t.flushInside = true)
      (f := S.sessions) (i := i) (a := t) hbefore (by simp [hafter])
    have hrelease := InferenceLimiter.release_of_pos (l := S.limiter) (by omega)
    refine ⟨consistent_set h.consistent ht, by rw [hrelease]; exact h.maxConcurrent, fun _ => ?_⟩
    simp only [set, hrelease, hactive]
    omega
  | flushThrow _ ht =>
    exact ⟨consistent_set h.consistent ht, h.maxConcurrent, by rintro ⟨⟩⟩
  | fire _ => exact ⟨h.consistent, h.maxConcurrent, fun _ => hactive⟩

theorem limited_of_run {params : ι → SessionParams} {start : ι → ℤ} {ttl n : ℤ}
    (h : Reachable (step P) (init params start ttl n) S) :
    Limited ((InferenceLimiter.setMaxConcurrency {} n).maxConcurrent) S :=
  h.invariant (limited_init params start ttl n) fun _ _ _ h hs => h.step hs

/-- How the number inside moves when one session is replaced. -/
theorem inside_set (S : Server ι) (i : ι) (t : Threads) :
    (S.set i t).inside + (if (S.sessions i).flushInside = true then 1 else 0) +
        (if (S.sessions i).endInside = true then 1 else 0) =
      S.inside + (if t.flushInside = true then 1 else 0) +
        (if t.endInside = true then 1 else 0) := by
  have hflush := Family.count_update (p := fun t : Threads => t.flushInside = true)
    (f := S.sessions) (i := i) (a := t)
  have hend := Family.count_update (p := fun t : Threads => t.endInside = true)
    (f := S.sessions) (i := i) (a := t)
  simp only [inside, forced, set]
  omega

/-- A step that lets nobody in. -/
theorem inside_set_le {i : ι} {t : Threads}
    (hflush : t.flushInside = true → (S.sessions i).flushInside = true)
    (hend : t.endInside = true → (S.sessions i).endInside = true) :
    (S.set i t).inside ≤ S.inside := by
  have := inside_set S i t
  split_ifs at this <;> simp_all <;> omega

/-- A step that keeps to the limit is one that does not crowd, and conversely. -/
theorem inside_le_iff {cap : ℤ} (h : Limited cap S)
    (hle : (S.inside : ℤ) ≤ S.limiter.maxConcurrent) (hs : S.step P ev = some S') :
    (S'.inside : ℤ) ≤ S'.limiter.maxConcurrent ↔ ¬ Crowds S ev := by
  obtain ⟨hlive, hm⟩ := step_moves hs
  have hinside : (S.inside : ℤ) = S.limiter.activeCount + S.forced := by
    rw [inside, h.activeCount hlive]
    push_cast
    rfl
  -- where nobody goes in, both sides hold
  have quiet {i : ι} {e : Event} {t : Threads} (ht : (S.sessions i).step P e = some t)
      (hne : e ≠ .endLock) (hflush : t.flushInside = true → (S.sessions i).flushInside = true) :
      ((S.set i t).inside : ℤ) ≤ S.limiter.maxConcurrent := by
    have := inside_set_le hflush (Threads.step_endInside (h.consistent i) hne ht)
    omega
  cases hm with
  | @thread i e t he ht =>
    by_cases hend : e = .endLock
    · subst hend
      obtain ⟨hbefore, hafter⟩ := Threads.step_endLock ht
      have hflush := Threads.step_flushInside (.inl rfl) ht
      have hmoved := inside_set S i t
      simp only [hbefore, hafter, hflush, decide_eq_true_eq, Bool.false_eq_true, if_false]
        at hmoved
      have hcrowds : Crowds S (.thread i .endLock) ↔
          (S.sessions i).session.bufferSize ≠ 0 ∧
            S.limiter.maxConcurrent ≤ S.limiter.activeCount + S.forced := .rfl
      rw [hcrowds, ← hinside]
      change ((S.set i t).inside : ℤ) ≤ S.limiter.maxConcurrent ↔ _
      by_cases hb : (S.sessions i).session.bufferSize = 0
      · simp only [hb, ne_eq, not_true_eq_false, if_false, false_and, not_false_eq_true,
          iff_true] at hmoved ⊢
        omega
      · simp only [hb, ne_eq, not_false_eq_true, if_true, true_and] at hmoved ⊢
        omega
    · refine iff_of_true (quiet ht hend ?_) ?_
      · rw [Threads.step_flushInside (.inl he) ht]; exact id
      · cases e <;> first | exact absurd rfl hend | exact id
  | acquire ht =>
    refine iff_of_true (quiet ht (by simp) ?_) id
    rw [Threads.step_shared_flushInside (.inl ⟨_, rfl⟩) ht]
    exact id
  | releaseModel he ht =>
    refine iff_of_true (quiet ht (by rcases he with rfl | rfl <;> simp) ?_) id
    rw [Threads.step_shared_flushInside (.inr he) ht]
    exact id
  | flushSkip ht hfull =>
    refine iff_of_true (quiet ht (by simp) ?_) ?_
    · rw [Threads.step_flushInside (.inr ⟨_, rfl⟩) ht]; exact id
    · rintro ⟨hasks, hlt, _⟩
      have := hfull hasks
      omega
  | @flushLock i now t hasks hlt ht =>
    obtain ⟨hbefore, hafter⟩ := Threads.step_flushLock hasks ht
    have hend := Threads.step_flushLock_endInside ht
    have hmoved := inside_set S i t
    simp only [hbefore, hafter, hend, if_true, Bool.false_eq_true, if_false] at hmoved
    have hcrowds : Crowds S (.flushLock i now) ↔
        S.limiter.maxConcurrent ≤ S.limiter.activeCount + S.forced :=
      ⟨fun h => h.2.2, fun h => ⟨hasks, hlt, h⟩⟩
    rw [hcrowds, ← hinside]
    change ((S.set i t).inside : ℤ) ≤ S.limiter.maxConcurrent ↔ _
    omega
  | flushReturn _ ht =>
    have hlimit : S.limiter.release.maxConcurrent = S.limiter.maxConcurrent := by
      unfold InferenceLimiter.release
      split <;> rfl
    refine iff_of_true ?_ id
    rw [hlimit]
    exact quiet ht (by simp) (by simp [Threads.step_flushReturn ht])
  | flushThrow _ ht =>
    exact iff_of_true (quiet ht (by simp) (by simp [Threads.step_flushReturn ht])) id
  | fire _ => exact iff_of_true hle id

section Runs

variable {params : ι → SessionParams} {start : ι → ℤ} {ttl n : ℤ}
  {tr : List (Server ι × ServerEvent ι)}

/-- Along a run at most as many threads as the limiter allows are inside whisper at once if and
only if no thread goes in where the slots in use and the forced calls have reached the limit. -/
theorem inside_le_maxConcurrent_iff (hrun : Run (step P) (init params start ttl n) tr S) :
    Throughout (fun S => (S.inside : ℤ) ≤ S.limiter.maxConcurrent) tr S ↔
      ∀ p ∈ tr, ¬ Crowds p.1 p.2 := by
  have h₀ := limited_init params start ttl n
  refine hrun.throughout_iff (D := fun _ _ => True) (G := fun S ev => ¬ Crowds S ev) h₀ ?_
    (fun _ _ => trivial) (fun _ _ _ h hs => h.step hs)
    fun _ _ _ h hle _ hs => inside_le_iff h hle hs
  have hnone : (init params start ttl n).inside = 0 := by
    rw [inside, forced, flushInside_init,
      count_init fun params now => by simp [Threads.init, Threads.endInside]]
  rw [hnone]
  exact (InferenceLimiter.setMaxConcurrency_pos n).le

omit [Fintype ι] in
theorem step_of_flushReturn {i : ι} {whisper : WhisperFull} {t : Threads}
    (hlive : S.terminated = false)
    (ht : (S.sessions i).step P (.flushReturn whisper) = some t) :
    ∃ S', S.step P (.flushReturn i whisper) = some S' ∧ S'.sessions i = t ∧
      S'.terminated = t.flusher.isThrown := by
  simp only [step, hlive, Bool.false_eq_true, if_false, ht, Option.map_some]
  cases hthrown : t.flusher.isThrown with
  | true => exact ⟨_, rfl, set_apply_self, rfl⟩
  | false => exact ⟨_, rfl, set_apply_self, hlive⟩

/-- A flush cycle that took a slot gives it back, and leaves the process alive, if and only if
whisper succeeds. -/
theorem slot_returned_iff (h : Reachable (step P) (init params start ttl n) S)
    (hlive : S.terminated = false) {i : ι} {m : ℕ} (hm : (S.sessions i).flusher = .inferring m)
    (whisper : WhisperFull) :
    ∃ e S', (S.sessions i).session.engine = some e ∧
      S.step P (.flushReturn i whisper) = some S' ∧
      ((S'.limiter.activeCount =
            Family.others (fun t : Threads => t.flushInside = true) S'.sessions i ∧
          (S'.sessions i).flusher.isThrown = false ∧ S'.terminated = false) ↔
        (e.infer whisper).result = 0) := by
  have hlimited := limited_of_run h
  obtain ⟨e, t, he, ht, hiff⟩ :=
    Threads.step_inferring (P := P) (hlimited.consistent i) hm whisper
  obtain ⟨S', hs, hsession, hterminated⟩ := step_of_flushReturn hlive ht
  refine ⟨e, S', he, hs, ?_⟩
  rw [← hiff, hsession, hterminated]
  refine ⟨fun h => h.2.1, fun hok => ⟨?_, hok, hok⟩⟩
  have hcount := (hlimited.step hs).activeCount (hterminated.trans hok)
  rw [Family.count_eq_others i, hsession, (Threads.step_flushReturn ht).2] at hcount
  simpa using hcount

end Runs

end Server

namespace Demo

/-- Both sessions of a server are configured. -/
theorem configured_run : ∃ tr S,
    Run (Server.step platform) (server Bool) tr S ∧ (∀ p ∈ tr, ¬ Server.Crowds p.1 p.2) ∧
      (∀ i, S.sessions i = ⟨ready, .writing [], .waiting⟩) ∧ S.terminated = false ∧
      S.limiter = { maxConcurrent := 1 } := by
  obtain ⟨tr, S, hrun, hquiet, h⟩ : ∃ tr S,
      exec (Server.step platform) (server Bool) (configEvents false ++ configEvents true) =
        some (tr, S) ∧ (∀ p ∈ tr, ¬ Server.Crowds p.1 p.2) ∧
      (∀ i, S.sessions i = ⟨ready, .writing [], .waiting⟩) ∧
      S.terminated = false ∧ S.limiter = { maxConcurrent := 1 } :=
    ⟨_, _, rfl, by simp [Server.Crowds], fun i => by cases i <;> rfl, rfl, rfl⟩
  exact ⟨tr, S, .of_exec hrun, hquiet, h⟩

/-- One second of audio and `end` bring a session into whisper. -/
theorem forcing_run : ∃ tr t,
    Run (Threads.step platform) ⟨ready, .writing [], .waiting⟩ tr t ∧
      (∀ p ∈ tr, p.2.isShared = false) ∧ t.endInside = true := by
  have hl := listening_ready.withFrame 16000
  have hrun := frame_run (n := 16000) listening_ready (by omega) (by omega)
    (by simp [highWaterMark])
  have hsize : (fill engine 16000).audioBuffer.length = 16000 := by
    rw [fill_size] <;> simp [highWaterMark, maxBufferSamples]
  refine ⟨_, ⟨_, .forcing, .waiting⟩, (hrun.snoc (step_end hl none)).snoc (e := .endLock) rfl,
    ?_, ?_⟩
  · simp [Threads.frameTrace, Event.isShared]
  · simp [Threads.endInside, Session.bufferSize, StreamingWhisperEngine.getBufferSize, fill_eq,
      hsize]

/-- Two sessions handle `end` at once, where the limit is one. -/
theorem crowded_of_two_ends :
    ¬ ∀ (ι : Type) [Fintype ι] [DecidableEq ι] (P : Platform) (params : ι → SessionParams)
        (start : ι → ℤ) (ttl n : ℤ) (tr : List (Server ι × ServerEvent ι)) (S : Server ι),
        Run (Server.step P) (.init params start ttl n) tr S →
        (S.inside : ℤ) ≤ S.limiter.maxConcurrent := by
  intro h
  obtain ⟨tr, S, hrun, _, hsessions, hlive, hlimiter⟩ := configured_run
  obtain ⟨tr', t, hforcing, hshared, hinside⟩ := forcing_run
  have hfirst := Server.run_thread (S := S) (i := false) (hsessions false ▸ hforcing) hlive hshared
  have hother : (S.set false t).sessions true = ⟨ready, .writing [], .waiting⟩ := by
    rw [Server.set_apply_of_ne (by decide), hsessions]
  have hsecond := Server.run_thread (S := S.set false t) (i := true) (hother ▸ hforcing) hlive
    hshared
  have hle := h Bool platform (fun _ => params) (fun _ => 0) 300 1 _ _
    ((hrun.append hfirst).append hsecond)
  have hcount : Family.count (fun t : Threads => t.endInside = true)
      ((S.set false t).set true t).sessions = 2 := by
    simp [Family.count, Server.set, hinside]
  have hlimit : ((S.set false t).set true t).limiter.maxConcurrent = 1 := by
    rw [Server.set, Server.set, hlimiter]
  rw [Server.inside, Server.forced, hcount, hlimit] at hle
  omega

/-- Two seconds of audio, and a flush cycle gets the slot. -/
theorem slot_run : ∃ tr S,
    Run (Server.step platform) (server Bool) tr S ∧ (∀ p ∈ tr, ¬ Server.Crowds p.1 p.2) ∧
      S.terminated = false ∧ (S.sessions false).flusher = .inferring 32000 := by
  obtain ⟨tr, S, hrun, hquiet, hsessions, hlive, hlimiter⟩ := configured_run
  have hl := listening_ready.withFrame 32000
  have hframe := frame_run (n := 32000) listening_ready (by omega) (by omega)
    (by simp [highWaterMark])
  have hsize : (fill engine 32000).audioBuffer.length = 32000 := by
    rw [fill_size] <;> simp [highWaterMark, maxBufferSamples]
  have hready := hl.flushReady (by omega) (by simp [hsize]) (by simp [hsize, maxBufferSamples])
  rw [hsize] at hready
  have hthread := Server.run_thread (S := S) (i := false) (hsessions false ▸ hframe) hlive
    (by simp [Threads.frameTrace, Event.isShared])
  generalize ready.withFrame platform engine (frame 32000) 0 = s at *
  have hasks : Threads.asksSlot ⟨s, .writing [], .waiting⟩ 0 = true := by
    simp [Threads.asksSlot, hl.running, hready]
  have hacquire : S.limiter.tryAcquire = ({ activeCount := 1, maxConcurrent := 1 }, true) := by
    rw [hlimiter]; rfl
  have hlock : Threads.step platform ⟨s, .writing [], .waiting⟩ (.flushLock 0 true) =
      some ⟨s, .writing [], .inferring 32000⟩ := by
    simp [Threads.step, Threads.flusherStep, hl.running, hready]
  have hslot : (S.set false ⟨s, .writing [], .waiting⟩).step platform (.flushLock false 0) =
      some { S.set false ⟨s, .writing [], .inferring 32000⟩ with
        limiter := { activeCount := 1, maxConcurrent := 1 } } := by
    have hlive' : (S.set false ⟨s, .writing [], .waiting⟩).terminated = false := hlive
    have hlimiter' : (S.set false ⟨s, .writing [], .waiting⟩).limiter = S.limiter := rfl
    simp [Server.step, hlive', hasks, hlimiter', hacquire, hlock]
  refine ⟨_, _, (hrun.append hthread).snoc hslot, ?_, hlive, by simp [Server.set]⟩
  -- nobody is inside before the cycle takes its slot
  have hnone : (S.set false ⟨s, .writing [], .waiting⟩).forced = 0 := by
    simp [Server.forced, Family.count, Server.set, hsessions, Threads.endInside]
  have hfree : ¬ Server.Crowds (S.set false ⟨s, .writing [], .waiting⟩) (.flushLock false 0) := by
    rintro ⟨_, _, hle⟩
    rw [hnone, Server.set, hlimiter] at hle
    simp at hle
  simp only [List.forall_mem_append, List.forall_mem_singleton]
  exact ⟨⟨hquiet, by simp [Threads.frameTrace, Server.Crowds]⟩, hfree⟩

theorem inside_le_of_slot : ∃ tr S, Run (Server.step platform) (server Bool) tr S ∧
    (S.sessions false).flusher = .inferring 32000 ∧
    Throughout (fun S => (S.inside : ℤ) ≤ S.limiter.maxConcurrent) tr S := by
  obtain ⟨tr, S, hrun, hquiet, _, hflusher⟩ := slot_run
  exact ⟨tr, S, hrun, hflusher, (Server.inside_le_maxConcurrent_iff hrun).mpr hquiet⟩

theorem slot_returned_of_silence : ∃ S S', Reachable (Server.step platform) (server Bool) S ∧
    S.step platform (.flushReturn false (hears [])) = some S' ∧
    S'.limiter.activeCount =
      Family.others (fun t : Threads => t.flushInside = true) S'.sessions false ∧
    S'.terminated = false := by
  obtain ⟨tr, S, hrun, _, hlive, hflusher⟩ := slot_run
  obtain ⟨e, S', _, hs, hiff⟩ := Server.slot_returned_iff ⟨tr, hrun⟩ hlive hflusher (hears [])
  obtain ⟨hcount, _, hlive'⟩ := hiff.mpr rfl
  exact ⟨S, S', ⟨tr, hrun⟩, hs, hcount, hlive'⟩

/-- An error of whisper in a flush cycle ends the process, with the slot still taken. -/
theorem not_slot_returned_of_error :
    ¬ ∀ (ι : Type) [Fintype ι] [DecidableEq ι] (P : Platform) (params : ι → SessionParams)
        (start : ι → ℤ) (ttl n : ℤ) (S S' : Server ι) (i : ι) (whisper : WhisperFull),
        Reachable (Server.step P) (.init params start ttl n) S →
        S.step P (.flushReturn i whisper) = some S' →
        S'.limiter.activeCount =
            Family.others (fun t : Threads => t.flushInside = true) S'.sessions i ∧
          (S'.sessions i).flusher.isThrown = false ∧ S'.terminated = false := by
  intro h
  obtain ⟨tr, S, hrun, _, hlive, hflusher⟩ := slot_run
  have hc := Server.consistent_of_reachable ⟨tr, hrun⟩ false
  obtain ⟨e, t, _, ht, hiff⟩ := Threads.step_inferring (P := platform) hc hflusher errs
  obtain ⟨S', hs, hsession, _⟩ := Server.step_of_flushReturn hlive ht
  obtain ⟨_, hreturns, _⟩ := h Bool platform (fun _ => params) (fun _ => 0) 300 1 S S' false errs
    ⟨tr, hrun⟩ hs
  rw [hsession] at hreturns
  cases hiff.mp hreturns

end Demo

end JotaTranscriber
