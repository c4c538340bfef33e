import JotaTranscriber.Session.Solo
import JotaTranscriber.Transition.Since

/-! # The rate limit of binary frames

The counter of a window is the total of the well-formed frames that arrived
since `rate_limit_start_`. It is compared with the quota only by a frame that
comes 3 s after the start or later, so a burst within the 3 s is passed on
whole, and a window stretched by a pause is held to the quota of 3 s.
-/

namespace JotaTranscriber

open Transition

def Receiver.isAudio : Receiver → Bool
  | audio _ => true
  | _ => false

theorem Receiver.isAudio_iff {r : Receiver} : r.isAudio = true ↔ ∃ pcm, r = .audio pcm := by
  cases r <;> simp [isAudio]

/-- The reason of the close that ends a session over the limit. -/
def rateLimitExceeded : CloseReason := .policyError (lit "Rate limit exceeded")

namespace Session

/-- The frame passes the guards that stand before the rate limit. -/
def Counts (s : Session) (data : Bytes) : Prop :=
  s.configured = true ∧ 4 ≤ data.length ∧ data.length ≤ maxFrameBytes ∧ data.length % 4 = 0

instance (s : Session) (data : Bytes) : Decidable (s.Counts data) :=
  inferInstanceAs (Decidable (_ ∧ _ ∧ _ ∧ _))

variable {P : Platform} {s : Session} {data : Bytes} {now : ℤ} {pcm : List ℚ}

/-- Three whole seconds have passed. -/
theorem three_le_elapsed : 3 ≤ (now - s.rateLimitStart).tdiv 1000000000 ↔
    s.rateLimitStart + 3000000000 ≤ now := by
  rcases le_total 0 (now - s.rateLimitStart) with hpos | hneg
  · rw [Int.tdiv_eq_ediv_of_nonneg hpos]
    omega
  · have hle : (now - s.rateLimitStart).tdiv 1000000000 ≤ 0 := by
      simpa using Int.tdiv_le_tdiv (show (0 : ℤ) < 1000000000 by decide) hneg
    omega

theorem handleBinaryMessage_of_counts (h : s.Counts data) :
    s.handleBinaryMessage P data now =
      if s.rateLimitStart + 3000000000 ≤ now then
        if maxBytesPerWindow < s.bytesReceivedInWindow + data.length then
          ({ s with bytesReceivedInWindow := s.bytesReceivedInWindow + data.length },
            .writing [.close rateLimitExceeded])
        else
          ({ s with bytesReceivedInWindow := 0, rateLimitStart := now },
            .audio (samples P data))
      else
        ({ s with bytesReceivedInWindow := s.bytesReceivedInWindow + data.length },
          .audio (samples P data)) := by
  obtain ⟨hc, hmin, hmax, h4⟩ := h
  rw [handleBinaryMessage, if_neg (by omega), if_neg (by omega), if_neg (by simp [hc]),
    if_neg (by simp [h4])]
  simp only [three_le_elapsed]
  rfl

/-- Any other frame is refused, and not for its rate. -/
theorem handleBinaryMessage_of_not_counts (h : ¬ s.Counts data) :
    ∃ out, s.handleBinaryMessage P data now = (s, .writing out) ∧
      .close rateLimitExceeded ∉ out := by
  unfold handleBinaryMessage
  split
  · exact ⟨_, rfl, by decide⟩
  split
  · exact ⟨_, rfl, by decide⟩
  split
  · exact ⟨_, rfl, by decide⟩
  split
  · exact ⟨_, rfl, by decide⟩
  · refine absurd ⟨?_, ?_, ?_, ?_⟩ h
    · simpa using ‹¬(!s.configured) = true›
    · omega
    · omega
    · omega

/-- The session is closed for its rate. -/
theorem closes_iff : (s.handleBinaryMessage P data now).2 = .writing [.close rateLimitExceeded] ↔
    s.Counts data ∧ s.rateLimitStart + 3000000000 ≤ now ∧
      maxBytesPerWindow < s.bytesReceivedInWindow + data.length := by
  by_cases hc : s.Counts data
  · rw [handleBinaryMessage_of_counts hc]
    split_ifs <;> simp [*]
  · obtain ⟨out, hout, hnot⟩ := handleBinaryMessage_of_not_counts hc
    rw [hout]
    apply iff_of_false
    · rintro heq
      cases heq
      simp at hnot
    · exact fun h => hc h.1

theorem audio_iff : (s.handleBinaryMessage P data now).2 = .audio pcm ↔
    s.Counts data ∧ ¬ (s.rateLimitStart + 3000000000 ≤ now ∧
      maxBytesPerWindow < s.bytesReceivedInWindow + data.length) ∧ pcm = samples P data := by
  by_cases hc : s.Counts data
  · rw [handleBinaryMessage_of_counts hc]
    split_ifs <;> simp [*, eq_comm]
  · obtain ⟨out, hout, -⟩ := handleBinaryMessage_of_not_counts hc
    rw [hout]
    simp [hc]

end Session

namespace Threads

variable {P : Platform} {t t' : Threads} {ev : Event} {data : Bytes} {now w : ℤ}
  {tr : List (Threads × Event)}

theorem step_binary (h : t.step P (.binary data now) = some t') :
    t.session.ws.closed = none ∧ t.receiver = .writing [] ∧ t'.flusher = t.flusher ∧
      t'.session = (t.session.handleBinaryMessage P data now).1 ∧
      t'.receiver = (t.session.handleBinaryMessage P data now).2 := by
  cases step_moves h with
  | binary _ _ ho => exact ⟨ho, rfl, rfl, rfl, rfl⟩

theorem step_of_binary {s : Session} {f : Flusher} (data : Bytes) (now : ℤ)
    (ho : s.ws.closed = none) (hf : ∀ x, f ≠ .thrown x) :
    step P ⟨s, .writing [], f⟩ (.binary data now) =
      some ⟨(s.handleBinaryMessage P data now).1, (s.handleBinaryMessage P data now).2, f⟩ := by
  cases f with
  | thrown x => exact absurd rfl (hf x)
  | _ => simp [step, receiverStep, ho]

/-- Nothing but a binary frame moves the window. -/
theorem step_window (h : t.step P ev = some t') (hev : ∀ data now, ev ≠ .binary data now) :
    t'.session.rateLimitStart = t.session.rateLimitStart ∧
      t'.session.bytesReceivedInWindow = t.session.bytesReceivedInWindow := by
  cases step_moves h with
  | text message validate _ =>
    rw [Session.handleJsonMessage_eq]
    exact ⟨rfl, rfl⟩
  | binary data now _ => exact absurd rfl (hev data now)
  | write o out =>
    rw [Session.perform_eq]
    exact ⟨rfl, rfl⟩
  | audio pcm now _ =>
    rw [Session.processAudioChunk_eq]
    exact ⟨rfl, rfl⟩
  | install ctx vadThold initState now _ =>
    rcases Session.installEngine_cases _ ctx vadThold initState now with
      ⟨_, x, hr⟩ | ⟨_, e, _, _, hr⟩ <;> rw [hr] <;> exact ⟨rfl, rfl⟩
  | endReturn whisper hw =>
    rcases Session.handleEndLocked_eq_ok hw with ⟨_, rfl⟩ | ⟨e, res, e', _, _, rfl⟩ <;>
      exact ⟨rfl, rfl⟩
  | release _ | joined =>
    rw [Session.releaseModel_eq]
    exact ⟨rfl, rfl⟩
  | flushReturn n whisper m hw =>
    rcases Session.flushCycle_eq_ok hw with ⟨_, rfl, _⟩ | ⟨e, res, e', _, _, rfl, _⟩ <;>
      exact ⟨rfl, rfl⟩
  | flushSend m =>
    rw [Session.sendMessage_eq]
    exact ⟨rfl, rfl⟩
  | _ => exact ⟨rfl, rfl⟩

/-- The bytes of a well-formed frame that arrives while `rate_limit_start_` is `w`. -/
def receivedBytes (w : ℤ) (p : Threads × Event) : ℕ :=
  match p.2 with
  | .binary data _ =>
    if p.1.session.Counts data ∧ p.1.session.rateLimitStart = w then data.length else 0
  | _ => 0

/-- The bytes of a frame that arrives less than 3 s after `w`, which is `rate_limit_start_` then,
and is handed on. -/
def handedBytes (P : Platform) (w : ℤ) (p : Threads × Event) : ℕ :=
  match p.2 with
  | .binary data now =>
    if (p.1.session.handleBinaryMessage P data now).2.isAudio ∧ p.1.session.rateLimitStart = w ∧
        now < w + 3000000000 then data.length else 0
  | _ => 0

/-- The bytes received since `w`, while it was `rate_limit_start_`. -/
def receivedSince (w : ℤ) (tr : List (Threads × Event)) : ℕ := (tr.map (receivedBytes w)).sum

/-- The bytes handed to `processAudioChunk` that arrived less than 3 s after `w`. -/
def handedWithin (P : Platform) (w : ℤ) (tr : List (Threads × Event)) : ℕ :=
  (tr.map (handedBytes P w)).sum

/-- When a frame of the trace arrives. -/
def arrival (p : Threads × Event) : Option ℤ :=
  match p.2 with
  | .binary _ now => some now
  | _ => none

/-- A frame arrives less than 3 s after `rate_limit_start_` and takes the window past its quota. -/
def Overdraws (t : Threads) : Event → Prop
  | .binary data now => t.session.Counts data ∧ now < t.session.rateLimitStart + 3000000000 ∧
      Session.maxBytesPerWindow < t.session.bytesReceivedInWindow + data.length
  | _ => False

/-- A frame takes the window past the quota of 3 s, at a time when 200 KB/s allow for more. -/
def Misjudges (t : Threads) : Event → Prop
  | .binary data now => t.session.Counts data ∧
      Session.maxBytesPerWindow < t.session.bytesReceivedInWindow + data.length ∧
      ((t.session.bytesReceivedInWindow + data.length : ℕ) : ℤ) * 1000000000 ≤
        200 * 1024 * (now - t.session.rateLimitStart)
  | _ => False

theorem receivedSince_snoc : receivedSince w (tr ++ [(t, ev)]) =
    receivedSince w tr + receivedBytes w (t, ev) := by
  simp [receivedSince]

theorem handedWithin_snoc : handedWithin P w (tr ++ [(t, ev)]) =
    handedWithin P w tr + handedBytes P w (t, ev) := by
  simp [handedWithin]

theorem receivedBytes_binary : receivedBytes w (t, .binary data now) =
    if t.session.Counts data ∧ t.session.rateLimitStart = w then data.length else 0 := rfl

theorem handedBytes_binary : handedBytes P w (t, .binary data now) =
    if (t.session.handleBinaryMessage P data now).2.isAudio ∧ t.session.rateLimitStart = w ∧
      now < w + 3000000000 then data.length else 0 := rfl

/-- An event that counts nothing. -/
theorem receivedBytes_of_not_counts (h : ∀ data now, ev = .binary data now →
    ¬ t.session.Counts data) : receivedBytes w (t, ev) = 0 := by
  cases ev with
  | binary data now =>
    rw [receivedBytes_binary, if_neg]
    rintro ⟨hc, -⟩
    exact h data now rfl hc
  | _ => rfl

/-- Within the 3 s every well-formed frame is handed on. -/
theorem handedBytes_eq : handedBytes P w (t, .binary data now) =
    if now < w + 3000000000 then receivedBytes w (t, .binary data now) else 0 := by
  rw [handedBytes_binary, receivedBytes_binary]
  by_cases hin : now < w + 3000000000
  · rw [if_pos hin]
    by_cases hw : t.session.rateLimitStart = w
    · subst hw
      by_cases hc : t.session.Counts data
      · have hout : t.session.handleBinaryMessage P data now = _ :=
          Session.handleBinaryMessage_of_counts hc
        rw [if_neg (not_le.mpr hin)] at hout
        rw [hout]
        simp [Receiver.isAudio, hc, hin]
      · obtain ⟨out, hout, -⟩ := Session.handleBinaryMessage_of_not_counts hc
        rw [hout]
        simp [Receiver.isAudio, hc]
    · simp [hw]
  · simp [hin]

/-- The counter is the total of its window, and no window begins later than the present one. -/
structure Tallied (tr : List (Threads × Event)) (t : Threads) : Prop where
  current : receivedSince t.session.rateLimitStart tr = t.session.bytesReceivedInWindow
  later : ∀ w, t.session.rateLimitStart < w → receivedSince w tr = 0

theorem tallied_init {params : SessionParams} {start : ℤ} : Tallied [] (init params start) :=
  ⟨rfl, fun _ _ => rfl⟩

/-- A step that counts nothing and keeps the window. -/
theorem Tallied.keep (h : Tallied tr t)
    (hev : ∀ data now, ev = .binary data now → ¬ t.session.Counts data)
    (hstart : t'.session.rateLimitStart = t.session.rateLimitStart)
    (hbytes : t'.session.bytesReceivedInWindow = t.session.bytesReceivedInWindow) :
    Tallied (tr ++ [(t, ev)]) t' := by
  constructor
  · rw [receivedSince_snoc, receivedBytes_of_not_counts hev, hstart, hbytes, h.current, add_zero]
  · intro w hw
    rw [receivedSince_snoc, receivedBytes_of_not_counts hev, h.later w (by rwa [← hstart])]

theorem Tallied.step (h : Tallied tr t) (hs : t.step P ev = some t') :
    Tallied (tr ++ [(t, ev)]) t' := by
  by_cases hframe : ∃ data now, ev = .binary data now ∧ t.session.Counts data
  · obtain ⟨data, now, rfl, hc⟩ := hframe
    obtain ⟨-, -, -, hsession, -⟩ := step_binary hs
    rw [Session.handleBinaryMessage_of_counts hc] at hsession
    have hadds : receivedBytes t.session.rateLimitStart (t, .binary data now) = data.length := by
      rw [receivedBytes_binary, if_pos ⟨hc, rfl⟩]
    have hlater (w : ℤ) (hw : t.session.rateLimitStart < w) :
        receivedSince w (tr ++ [(t, .binary data now)]) = 0 := by
      rw [receivedSince_snoc, h.later w hw, receivedBytes_binary, if_neg]
      rintro ⟨-, hstart⟩
      omega
    have hstays (hbytes : t'.session =
        { t.session with
          bytesReceivedInWindow := t.session.bytesReceivedInWindow + data.length }) :
        Tallied (tr ++ [(t, .binary data now)]) t' := by
      constructor <;> rw [hbytes]
      · rw [receivedSince_snoc, hadds, h.current]
      · exact hlater
    split_ifs at hsession with hpast hover
    · exact hstays hsession
    · -- the window ends, and the next one begins with nothing counted
      constructor <;> rw [hsession]
      · exact hlater now (by omega)
      · intro w hw
        simp only at hw
        exact hlater w (by omega)
    · exact hstays hsession
  · push Not at hframe
    by_cases hbinary : ∃ data now, ev = .binary data now
    · obtain ⟨data, now, rfl⟩ := hbinary
      obtain ⟨-, -, -, hsession, -⟩ := step_binary hs
      obtain ⟨out, hout, -⟩ := Session.handleBinaryMessage_of_not_counts (hframe data now rfl)
      rw [hout] at hsession
      exact h.keep hframe (by rw [hsession]) (by rw [hsession])
    · push Not at hbinary
      obtain ⟨hstart, hbytes⟩ := step_window hs hbinary
      exact h.keep hframe hstart hbytes

theorem tallied_of_run {params : SessionParams} {start : ℤ}
    (hrun : Run (step P) (init params start) tr t) : Tallied tr t := by
  induction hrun with
  | nil => exact tallied_init
  | snoc _ hs ih => exact ih.step hs

/-- While all frames of the window have arrived within its 3 s, the counter is the total handed
on. -/
theorem Tallied.handedWithin_eq (h : Tallied tr t)
    (hin : ∀ p ∈ tr, ∀ a, arrival p = some a → a < t.session.rateLimitStart + 3000000000) :
    handedWithin P t.session.rateLimitStart tr = t.session.bytesReceivedInWindow := by
  have hsame : tr.map (handedBytes P t.session.rateLimitStart) =
      tr.map (receivedBytes t.session.rateLimitStart) := by
    apply List.map_congr_left
    rintro ⟨t₁, ev⟩ hmem
    cases ev with
    | binary data now => rw [handedBytes_eq, if_pos (hin _ hmem now rfl)]
    | _ => rfl
  rw [handedWithin, hsame]
  exact h.current

/-- A step keeps the totals within the quota exactly if it does not overdraw the window. -/
theorem Tallied.within_quota_iff (h : Tallied tr t)
    (hsorted : ((tr ++ [(t, ev)]).filterMap arrival).Pairwise (· ≤ ·))
    (hle : ∀ w, handedWithin P w tr ≤ Session.maxBytesPerWindow) :
    (∀ w, handedWithin P w (tr ++ [(t, ev)]) ≤ Session.maxBytesPerWindow) ↔
      ¬ t.Overdraws ev := by
  simp only [handedWithin_snoc]
  by_cases hframe : ∃ data now, ev = .binary data now ∧ t.session.Counts data ∧
      now < t.session.rateLimitStart + 3000000000
  · obtain ⟨data, now, rfl, hc, hnow⟩ := hframe
    have hbefore : ∀ p ∈ tr, ∀ a, arrival p = some a →
        a < t.session.rateLimitStart + 3000000000 := by
      intro p hp a ha
      rw [List.filterMap_append, List.pairwise_append] at hsorted
      have := hsorted.2.2 a (List.mem_filterMap.mpr ⟨p, hp, ha⟩) now (by simp [arrival])
      omega
    have htotal : handedWithin P t.session.rateLimitStart tr = t.session.bytesReceivedInWindow :=
      h.handedWithin_eq hbefore
    have hadds (w : ℤ) : handedBytes P w (t, .binary data now) =
        if t.session.rateLimitStart = w then data.length else 0 := by
      rw [handedBytes_eq, receivedBytes_binary]
      by_cases hw : t.session.rateLimitStart = w
      · subst hw
        simp [hc, hnow]
      · simp [hw]
    constructor
    · rintro hall ⟨-, -, hover⟩
      have := hall t.session.rateLimitStart
      rw [hadds, if_pos rfl, htotal] at this
      omega
    · intro hnot w
      rw [hadds]
      split
      · rename_i hw
        subst hw
        rw [htotal]
        by_contra hover
        exact hnot ⟨hc, hnow, by omega⟩
      · exact hle w
  · -- nothing is handed on that arrived within the 3 s
    have hnone (w : ℤ) : handedBytes P w (t, ev) = 0 := by
      cases ev with
      | binary data now =>
        rw [handedBytes_eq, receivedBytes_binary]
        split
        · rw [if_neg]
          rintro ⟨hc, rfl⟩
          exact hframe ⟨data, now, rfl, hc, ‹_›⟩
        · rfl
      | _ => rfl
    apply iff_of_true
    · intro w
      rw [hnone, add_zero]
      exact hle w
    · intro hover
      cases ev with
      | binary data now => exact hframe ⟨data, now, rfl, hover.1, hover.2.1⟩
      | _ => exact hover

/-- A close for the rate is deserved exactly if the frame does not come so late that 200 KB/s allow
for all that was received. -/
theorem Tallied.misjudges_iff (h : Tallied tr t) (ev : Event) :
    (∀ data now, ev = .binary data now →
        (t.session.handleBinaryMessage P data now).2 = .writing [.close rateLimitExceeded] →
        200 * 1024 * (now - t.session.rateLimitStart) <
          receivedSince t.session.rateLimitStart (tr ++ [(t, ev)]) * 1000000000) ↔
      ¬ t.Misjudges ev := by
  cases ev with
  | binary data now =>
    have htotal (hc : t.session.Counts data) :
        receivedSince t.session.rateLimitStart (tr ++ [(t, .binary data now)]) =
          t.session.bytesReceivedInWindow + data.length := by
      rw [receivedSince_snoc, h.current, receivedBytes_binary, if_pos ⟨hc, rfl⟩]
    constructor
    · rintro hfair ⟨hc, hover, hslow⟩
      have hquota : Session.maxBytesPerWindow = 614400 := rfl
      have := hfair data now rfl (Session.closes_iff.mpr ⟨hc, by omega, hover⟩)
      rw [htotal hc] at this
      omega
    · rintro hnot _ _ ⟨⟩ hclose
      obtain ⟨hc, hpast, hover⟩ := Session.closes_iff.mp hclose
      rw [htotal hc]
      by_contra hslow
      exact hnot ⟨hc, hover, by omega⟩
  | _ =>
    apply iff_of_true
    · rintro _ _ ⟨⟩
    · exact id

end Threads

section Runs

variable {P : Platform} {params : SessionParams} {start : ℤ} {t : Threads}
  {tr : List (Threads × Event)}

/-- A session is closed for its rate only if more was received since `rate_limit_start_` than
200 KB/s allow for, if and only if no frame takes the window past the quota of 3 s at a time when
they allow for it. -/
theorem closes_fairly_iff (hrun : Run (Threads.step P) (Threads.init params start) tr t) :
    EachStep (fun tr t ev => ∀ data now, ev = .binary data now →
        (t.session.handleBinaryMessage P data now).2 = .writing [.close rateLimitExceeded] →
        200 * 1024 * (now - t.session.rateLimitStart) <
          Threads.receivedSince t.session.rateLimitStart (tr ++ [(t, ev)]) * 1000000000) tr ↔
      ∀ p ∈ tr, ¬ p.1.Misjudges p.2 := by
  apply hrun.eachStep_iff (Q := fun t ev => ¬ t.Misjudges ev)
  intro tr₁ t₁ ev _ _ hrun₁
  exact (Threads.tallied_of_run hrun₁).misjudges_iff ev

end Runs

namespace Demo

theorem ready_bytesReceivedInWindow : ready.bytesReceivedInWindow = 0 := by
  rw [ready_eq]
  rfl

theorem ready_counts {n : ℕ} (hmin : 1 ≤ n) (hmax : n ≤ 262144) : ready.Counts (frame n) := by
  have hlen := frame_length n
  refine ⟨ready_configured, ?_, ?_, ?_⟩
  · omega
  · rw [hlen, Session.maxFrameBytes]
    omega
  · omega

/-- A config and a frame of `n` samples right after it. -/
def frameEvents (n : ℕ) : List (Threads × Event) :=
  readyTrace ++ Threads.frameTrace platform ready (frame n) 0

theorem frameEvents_run {n : ℕ} (hmin : 1 ≤ n) (hmax : n ≤ 262144) :
    Run (Threads.step platform) (Threads.init params 0) (frameEvents n)
      ⟨ready.withFrame platform engine (frame n) 0, .writing [], .waiting⟩ := by
  apply ready_run.append
  apply frame_run listening_ready hmin hmax
  rw [engine_audioBuffer]
  decide

theorem frameEvents_arrival (n : ℕ) : (frameEvents n).filterMap Threads.arrival = [0] := rfl

/-- The one frame of the trace is handed on. -/
theorem handedWithin_frameEvents {n : ℕ} (hmin : 1 ≤ n) (hmax : n ≤ 262144) :
    Threads.handedWithin platform 0 (frameEvents n) = 4 * n := by
  have hone : Threads.handedWithin platform 0 (frameEvents n) =
      Threads.handedBytes platform 0 (⟨ready, .writing [], .waiting⟩, .binary (frame n) 0) := by
    simp [Threads.handedWithin, frameEvents, readyTrace, Threads.frameTrace, Threads.handedBytes]
  rw [hone, Threads.handedBytes_eq, Threads.receivedBytes_binary, if_pos (by decide),
    if_pos ⟨ready_counts hmin hmax, ready_rateLimitStart⟩, frame_length]

theorem closes_fairly_of_one_sample : ∃ tr t,
    Run (Threads.step platform) (Threads.init params 0) tr t ∧
      EachStep (fun tr t ev => ∀ data now, ev = .binary data now →
        (t.session.handleBinaryMessage platform data now).2 =
          .writing [.close rateLimitExceeded] →
        200 * 1024 * (now - t.session.rateLimitStart) <
          Threads.receivedSince t.session.rateLimitStart (tr ++ [(t, ev)]) * 1000000000) tr := by
  have hrun := frameEvents_run (show 1 ≤ 1 by decide) (by decide)
  refine ⟨_, _, hrun, (closes_fairly_iff hrun).mpr ?_⟩
  simp [frameEvents, readyTrace, Threads.frameTrace, Threads.Misjudges, frame_length,
    Session.maxBytesPerWindow, ready_bytesReceivedInWindow]

/-- Ten seconds after the start of the session, whose only frame so far is this one of 1 MB: the
connection is closed, though 200 KB/s would allow for 2 MB. -/
theorem not_closes_fairly_of_pause :
    ¬ ∀ (P : Platform) (params : SessionParams) (start : ℤ) (t : Threads)
        (tr : List (Threads × Event)), Run (Threads.step P) (Threads.init params start) tr t →
        (tr.filterMap Threads.arrival).Pairwise (· ≤ ·) →
        EachStep (fun tr t ev => ∀ data now, ev = .binary data now →
          (t.session.handleBinaryMessage P data now).2 = .writing [.close rateLimitExceeded] →
          200 * 1024 * (now - t.session.rateLimitStart) <
            Threads.receivedSince t.session.rateLimitStart (tr ++ [(t, ev)]) * 1000000000) tr := by
  intro hall
  have hcounts := ready_counts (show 1 ≤ 262144 by decide) le_rfl
  have hcloses : (ready.handleBinaryMessage platform (frame 262144) 10000000000).2 =
      .writing [.close rateLimitExceeded] := by
    rw [Session.closes_iff]
    refine ⟨hcounts, ?_, ?_⟩
    · rw [ready_rateLimitStart]
      decide
    · rw [ready_bytesReceivedInWindow, frame_length]
      decide
  have hrun := ready_run.snoc
    (Threads.step_of_binary (frame 262144) 10000000000 ready_open (by simp))
  have hfair := (hall platform params 0 _ _ hrun (List.pairwise_singleton _ _)).last _ _ rfl hcloses
  have htotal : Threads.receivedSince 0
      (readyTrace ++ [(⟨ready, .writing [], .waiting⟩, .binary (frame 262144) 10000000000)]) =
        1048576 := by
    rw [Threads.receivedSince_snoc, Threads.receivedBytes_binary,
      if_pos ⟨hcounts, ready_rateLimitStart⟩, frame_length]
    rfl
  rw [ready_rateLimitStart, htotal] at hfair
  exact absurd hfair (by decide)

end Demo

end JotaTranscriber
