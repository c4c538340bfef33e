import JotaTranscriber.Session.RateLimit
import JotaTranscriber.Traffic.FixedWindow

/-! # The traffic a session takes in

The rate limit of a session is a fixed window of 3 s with a quota of 600 KB. So
what it has handed on, the present window apart, keeps to 200 KB for each
second; and a client that sends at a lower rate is never closed for it, as long
as its bursts and its pauses leave room in a stretched window.
-/

namespace JotaTranscriber

open Transition Traffic

namespace Session

/-- The limit of `handleBinaryMessage`, in nanoseconds and bytes. -/
def limit : Limit ℚ := ⟨3000000000, maxBytesPerWindow⟩

def window (s : Session) : FixedWindow ℚ := ⟨s.rateLimitStart, s.bytesReceivedInWindow⟩

variable {s : Session} {data : Bytes}

theorem window_accept (s : Session) (data : Bytes) (now : ℤ) :
    s.window.accept limit ⟨now, data.length⟩ =
      if s.rateLimitStart + 3000000000 ≤ now then
        if maxBytesPerWindow < s.bytesReceivedInWindow + data.length then none else some ⟨now, 0⟩
      else some ⟨s.rateLimitStart, (s.bytesReceivedInWindow + data.length : ℕ)⟩ := by
  have htime : (s.rateLimitStart : ℚ) + 3000000000 ≤ now ↔
      s.rateLimitStart + 3000000000 ≤ now := by exact_mod_cast Iff.rfl
  have hquota : (maxBytesPerWindow : ℚ) < s.bytesReceivedInWindow + data.length ↔
      maxBytesPerWindow < s.bytesReceivedInWindow + data.length := by exact_mod_cast Iff.rfl
  simp only [FixedWindow.accept, window, limit, htime, hquota]
  push_cast
  rfl

/-- A well-formed frame is an arrival at the window of the session. -/
theorem handleBinaryMessage_window (P : Platform) (now : ℤ) (h : s.Counts data) :
    (∃ s', s.handleBinaryMessage P data now = (s', .audio (samples P data)) ∧
        s.window.accept limit ⟨now, data.length⟩ = some s'.window) ∨
      (∃ s', s.handleBinaryMessage P data now = (s', .writing [.close rateLimitExceeded]) ∧
        s.window.accept limit ⟨now, data.length⟩ = none ∧
        s'.window = ⟨s.rateLimitStart, (s.bytesReceivedInWindow + data.length : ℕ)⟩) := by
  rw [handleBinaryMessage_of_counts h, window_accept]
  split_ifs with htime hquota
  · exact .inr ⟨_, rfl, rfl, rfl⟩
  · exact .inl ⟨_, rfl, by simp [window]⟩
  · exact .inl ⟨_, rfl, rfl⟩

end Session

namespace Threads

variable {P : Platform} {params : SessionParams} {start : ℤ} {t t' : Threads} {ev : Event}
  {tr : List (Threads × Event)}

/-- A frame that passes the guards before the rate limit. -/
def frame (p : Threads × Event) : Option (Arrival ℚ) :=
  match p.2 with
  | .binary data now => if p.1.session.Counts data then some ⟨now, data.length⟩ else none
  | _ => none

/-- The frames of a trace that the rate limit is asked about. -/
def frames (tr : List (Threads × Event)) : List (Arrival ℚ) := tr.filterMap frame

/-- The bytes of a frame that is handed to `processAudioChunk`. -/
def passedBytes (P : Platform) (p : Threads × Event) : ℕ :=
  match p.2 with
  | .binary data now =>
    if (p.1.session.handleBinaryMessage P data now).2.isAudio then data.length else 0
  | _ => 0

/-- The bytes handed to `processAudioChunk`. -/
def passed (P : Platform) (tr : List (Threads × Event)) : ℕ := (tr.map (passedBytes P)).sum

/-- The connection is closed for its rate. -/
def Refuses (P : Platform) (t : Threads) : Event → Prop
  | .binary data now =>
    (t.session.handleBinaryMessage P data now).2 = .writing [.close rateLimitExceeded]
  | _ => False

theorem frames_snoc : frames (tr ++ [(t, ev)]) = frames tr ++ (frame (t, ev)).toList := by
  cases h : frame (t, ev) <;> simp [frames, h]

theorem passed_snoc : passed P (tr ++ [(t, ev)]) = passed P tr + passedBytes P (t, ev) := by
  simp [passed]

/-- What a step is to the window of the session. -/
inductive Metered (P : Platform) (t : Threads) (ev : Event) (t' : Threads) : Prop where
  | other : frame (t, ev) = none → passedBytes P (t, ev) = 0 → ¬ t.Refuses P ev →
      t'.session.window = t.session.window → Metered P t ev t'
  | admitted {a : Arrival ℚ} : frame (t, ev) = some a → (passedBytes P (t, ev) : ℚ) = a.size →
      ¬ t.Refuses P ev → t.session.window.accept Session.limit a = some t'.session.window →
      Metered P t ev t'
  | refused {a : Arrival ℚ} : frame (t, ev) = some a → passedBytes P (t, ev) = 0 →
      t.session.window.accept Session.limit a = none →
      t'.session.window = ⟨t.session.window.start, t.session.window.count + a.size⟩ →
      0 ≤ a.size → Metered P t ev t'

theorem step_metered (hs : t.step P ev = some t') : Metered P t ev t' := by
  by_cases hbinary : ∃ data now, ev = .binary data now
  · obtain ⟨data, now, rfl⟩ := hbinary
    obtain ⟨-, -, -, hsession, -⟩ := step_binary hs
    by_cases hc : t.session.Counts data
    · have hframe : frame (t, .binary data now) = some ⟨now, data.length⟩ := if_pos hc
      rcases Session.handleBinaryMessage_window P now hc with
        ⟨s', heq, haccept⟩ | ⟨s', heq, haccept, hwindow⟩
      · rw [heq] at hsession
        refine .admitted hframe ?_ ?_ (by rw [hsession]; exact haccept)
        · simp [passedBytes, heq, Receiver.isAudio]
        · simp [Refuses, heq]
      · rw [heq] at hsession
        refine .refused hframe ?_ haccept ?_ (Nat.cast_nonneg _)
        · simp [passedBytes, heq, Receiver.isAudio]
        · rw [hsession, hwindow]
          simp [Session.window]
    · obtain ⟨out, hout, hnot⟩ :
          ∃ out, t.session.handleBinaryMessage P data now = (t.session, .writing out) ∧
            .close rateLimitExceeded ∉ out := Session.handleBinaryMessage_of_not_counts hc
      refine .other (if_neg hc) ?_ ?_ ?_
      · simp [passedBytes, hout, Receiver.isAudio]
      · simp only [Refuses, hout]
        rintro heq
        cases heq
        simp at hnot
      · rw [hsession, hout]
  · push Not at hbinary
    obtain ⟨hstart, hbytes⟩ := step_window hs hbinary
    have hwindow : t'.session.window = t.session.window := by
      rw [Session.window, hstart, hbytes, Session.window]
    cases ev with
    | binary data now => exact absurd rfl (hbinary data now)
    | _ => exact .other rfl rfl id hwindow

/-- What was handed on and is no longer in the window keeps to 600 KB for each 3 s. -/
theorem passed_le (hrun : Run (step P) (init params start) tr t) :
    ((passed P tr : ℚ) - t.session.window.count) * Session.limit.width ≤
      Session.limit.quota * (t.session.window.start - start) := by
  have hwidth : 0 ≤ Session.limit.width := by norm_num [Session.limit]
  have hquota : 0 ≤ Session.limit.quota := by norm_num [Session.limit]
  induction hrun with
  | nil => simp [passed, init, Session.window]
  | @snoc tr s s' ev _ hs ih =>
    rw [passed_snoc, Nat.cast_add]
    cases step_metered hs with
    | other _ hpassed _ hwindow =>
      rw [hpassed, hwindow, Nat.cast_zero, add_zero]
      exact ih
    | admitted _ hpassed _ haccept =>
      have hmoves := FixedWindow.accept_le hwidth hquota haccept
      rw [hpassed]
      linarith
    | refused _ hpassed _ hwindow hsize =>
      rw [hpassed, hwindow, Nat.cast_zero, add_zero]
      have hless := mul_nonneg hsize hwidth
      linarith

/-- As long as no frame is refused the window of the session has served them all. -/
theorem served_of_run (hrun : Run (step P) (init params start) tr t)
    (h : ∃ w, FixedWindow.serve Session.limit ⟨start, 0⟩ (frames tr) = some w) :
    FixedWindow.serve Session.limit ⟨start, 0⟩ (frames tr) = some t.session.window ∧
      ∀ p ∈ tr, ¬ p.1.Refuses P p.2 := by
  induction hrun with
  | nil => exact ⟨by simp [frames, init, Session.window], by simp⟩
  | @snoc tr s s' ev _ hs ih =>
    rw [frames_snoc] at h ⊢
    rw [List.forall_mem_append, List.forall_mem_singleton]
    cases step_metered hs with
    | other hframe _ hnot hwindow =>
      rw [hframe] at h ⊢
      simp only [Option.toList_none, List.append_nil] at h ⊢
      obtain ⟨hserved, hall⟩ := ih h
      exact ⟨by rw [hwindow]; exact hserved, hall, hnot⟩
    | admitted hframe _ hnot haccept =>
      rw [hframe] at h ⊢
      simp only [Option.toList_some, FixedWindow.serve_snoc] at h ⊢
      obtain ⟨w, hw⟩ := h
      obtain ⟨v, hv, -⟩ := Option.bind_eq_some_iff.mp hw
      obtain ⟨hserved, hall⟩ := ih ⟨v, hv⟩
      exact ⟨by rw [hserved]; exact haccept, hall, hnot⟩
    | refused hframe _ haccept _ _ =>
      rw [hframe] at h
      simp only [Option.toList_some, FixedWindow.serve_snoc] at h
      obtain ⟨w, hw⟩ := h
      obtain ⟨v, hv, ha⟩ := Option.bind_eq_some_iff.mp hw
      rw [(ih ⟨v, hv⟩).1, Option.some.injEq] at hv
      rw [← hv, haccept] at ha
      cases ha

end Threads

section Runs

variable {P : Platform} {params : SessionParams} {start : ℤ} {t : Threads}
  {tr : List (Threads × Event)}

/-- A client whose frames are shaped by a rate, a burst and a largest gap is never closed for its
rate, if what the rate gives in 3 s and a gap leaves room for the burst in 600 KB. -/
theorem not_refused_of_shaped {S : Shape ℚ}
    (hrun : Run (Threads.step P) (Threads.init params start) tr t)
    (hs : Shaped S (Threads.frames tr)) (hrate : 0 ≤ S.rate) (hgap : 0 ≤ S.gap)
    (hroom : S.burst + S.rate * (3000000000 + S.gap) ≤ 200 * 1024 * 3)
    (hstart : ∀ a ∈ Threads.frames tr, (start : ℚ) ≤ a.time) :
    ∀ p ∈ tr, ¬ p.1.Refuses P p.2 := by
  have hwidth : 0 ≤ Session.limit.width := by norm_num [Session.limit]
  have hquota : S.burst + S.rate * (Session.limit.width + S.gap) ≤ Session.limit.quota := by
    norm_num [Session.limit, Session.maxBytesPerWindow] at hroom ⊢
    exact hroom
  have hserve : ∃ w, FixedWindow.serve Session.limit ⟨start, 0⟩ (Threads.frames tr) = some w ∧
      FixedWindow.Holds Session.limit ⟨start, 0⟩ w (Threads.frames tr) :=
    FixedWindow.serve_of_shaped hs hrate hwidth hgap hquota hstart rfl
  obtain ⟨w, hw, -⟩ := hserve
  exact (Threads.served_of_run hrun ⟨w, hw⟩).2

end Runs

namespace Demo

theorem frames_frameEvents {n : ℕ} (hmin : 1 ≤ n) (hmax : n ≤ 262144) :
    Threads.frames (frameEvents n) = [⟨0, 4 * n⟩] := by
  have hone : Threads.frame (⟨ready, .writing [], .waiting⟩, .binary (frame n) 0) =
      some ⟨0, 4 * n⟩ := by
    rw [Threads.frame]
    simp only [if_pos (ready_counts hmin hmax), frame_length]
    simp
  have hframe : Threads.frames ([] ++ [(⟨ready, .writing [], .waiting⟩, .binary (frame n) 0)]) =
      [⟨0, 4 * n⟩] := by
    rw [Threads.frames_snoc, hone]
    rfl
  exact hframe

theorem shaped_singleton {S : Shape ℚ} {a : Arrival ℚ} (h : a.size ≤ S.burst) : Shaped S [a] where
  sorted := List.pairwise_singleton _ _
  bounded before m after hl f hf g hg := by
    have hlength := congrArg List.length hl
    match m with
    | [] => cases hf
    | [b] =>
      simp only [List.length_append, List.length_singleton] at hlength
      obtain rfl : before = [] := List.length_eq_zero_iff.mp (by omega)
      obtain rfl : after = [] := List.length_eq_zero_iff.mp (by omega)
      cases hl
      cases hf
      cases hg
      simpa [total] using h
    | b :: c :: m =>
      simp at hlength
      omega
  close before f g after hl := by
    have hlength := congrArg List.length hl
    simp only [List.length_append, List.length_cons, List.length_nil] at hlength
    omega

/-- A chunk of 250 ms, from a client that sends 64 KB a second with pauses up to 5 s. -/
theorem not_refused_of_one_frame : ∃ tr t,
    Run (Threads.step platform) (Threads.init params 0) tr t ∧
      ∀ p ∈ tr, ¬ p.1.Refuses platform p.2 := by
  have hrun := frameEvents_run (show 1 ≤ 4000 by decide) (by decide)
  have hframes := frames_frameEvents (show 1 ≤ 4000 by decide) (by decide)
  refine ⟨_, _, hrun, not_refused_of_shaped (S := ⟨16000, 64 / 1000000, 5000000000⟩) hrun ?_ ?_ ?_
    ?_ ?_⟩
  · rw [hframes]
    exact shaped_singleton (by norm_num)
  · norm_num
  · norm_num
  · norm_num
  · rw [hframes]
    simp

end Demo

end JotaTranscriber
