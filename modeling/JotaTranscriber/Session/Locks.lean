import JotaTranscriber.Server.Inference
import JotaTranscriber.Session.RateLimit

/-! # The two locks of a session

A chunk is added under `state_mutex_` and, inside it, the engine's
`buffer_mutex_`. Here the receive loop takes the two one after the other; the
rest is as in the model that adds a chunk in one step, and each model has the
reachable states of the other. A flush cycle only tries `state_mutex_`, but it
keeps both locks while it is inside whisper, and the receive loop waits.
-/

namespace JotaTranscriber

open Transition

/-- A lock of a session, or of its engine. -/
inductive Mutex where
  | state
  | buffer
  deriving DecidableEq, Repr

/-- A cycle inside whisper holds `state_mutex_`, and `transcribeSlidingWindow` `buffer_mutex_`. -/
def Flusher.holds : Flusher → Mutex → Bool
  | inferring _, .state => true
  | inferring _, .buffer => true
  | _, _ => false

theorem Flusher.holds_eq (f : Flusher) (m : Mutex) : f.holds m = f.holdsLock := by
  cases f <;> cases m <;> rfl

structure Locks where
  threads : Threads
  /-- What the receive loop holds inside `processAudioChunk`, the last one first. -/
  held : List Mutex

inductive LockEvent where
  /-- The receive loop gets a lock it waits for. -/
  | lock (m : Mutex)
  | event (ev : Event)

namespace Locks

def init (params : SessionParams) (now : ℤ) : Locks := ⟨.init params now, []⟩

/-- The lock that the receive loop needs next to add its chunk. -/
def wanted (l : Locks) : Option Mutex :=
  match l.threads.receiver, l.held with
  | .audio _, [] => some .state
  | .audio _, [.state] =>
    if l.threads.session.configured && l.threads.session.engine.isSome then some .buffer else none
  | _, _ => none

/-- The chunk is added, and both locks are released, once no lock is missing. While the receive
loop has `state_mutex_`, the `try_lock` of a flush cycle fails. -/
def step (P : Platform) (l : Locks) : LockEvent → Option Locks
  | .lock m =>
    if l.wanted = some m ∧ l.threads.flusher.holds m = false then
      some { l with held := m :: l.held }
    else none
  | .event (.audio now) =>
    if l.wanted = none then (l.threads.step P (.audio now)).map fun threads => ⟨threads, []⟩
    else none
  | .event (.flushLock now slot) =>
    if l.held = [] then
      (l.threads.step P (.flushLock now slot)).map fun threads => { l with threads }
    else if l.threads.flusher = .waiting ∧ l.threads.session.flushRunning = true then some l
    else none
  | .event ev => (l.threads.step P ev).map fun threads => { l with threads }

/-- All that one step can do. -/
inductive Moves (P : Platform) (l : Locks) : LockEvent → Locks → Prop where
  | lock (m : Mutex) : l.wanted = some m → l.threads.flusher.holds m = false →
      Moves P l (.lock m) ⟨l.threads, m :: l.held⟩
  | audio {t : Threads} (now : ℤ) : l.wanted = none → l.threads.step P (.audio now) = some t →
      Moves P l (.event (.audio now)) ⟨t, []⟩
  | tryFails (now : ℤ) (slot : Bool) : l.held ≠ [] → Moves P l (.event (.flushLock now slot)) l
  | event {t : Threads} (ev : Event) : (∀ now, ev ≠ .audio now) →
      (∀ now slot, ev = .flushLock now slot → l.held = []) → l.threads.step P ev = some t →
      Moves P l (.event ev) ⟨t, l.held⟩

variable {P : Platform} {l l' : Locks} {a : LockEvent} {t t' : Threads} {ev : Event}
  {m : Mutex} {tr : List (Locks × LockEvent)}

theorem step_moves (h : l.step P a = some l') : Moves P l a l' := by
  unfold step at h
  split at h
  · split at h
    · cases h
      rename_i hm
      exact .lock _ hm.1 hm.2
    · cases h
  · split at h
    · obtain ⟨t, ht, rfl⟩ := Option.map_eq_some_iff.mp h
      exact .audio _ ‹_› ht
    · cases h
  · split at h
    · obtain ⟨t, ht, rfl⟩ := Option.map_eq_some_iff.mp h
      exact .event _ (by rintro _ ⟨⟩) (fun _ _ _ => ‹_›) ht
    · split at h
      · cases h
        exact .tryFails _ _ ‹_›
      · cases h
  · rename_i haudio hflush
    obtain ⟨t, ht, rfl⟩ := Option.map_eq_some_iff.mp h
    exact .event _ haudio (fun now slot hev => absurd hev (hflush now slot)) ht

/-! ## The coarser model -/

/-- The receive loop is between the locks of a chunk only while the flush thread is outside. -/
def Exclusive (l : Locks) : Prop := l.held ≠ [] → l.threads.flushInside = false

theorem exclusive_init (params : SessionParams) (now : ℤ) : Exclusive (init params now) :=
  fun h => absurd rfl h

/-- A step takes the flush thread into whisper only by the lock. -/
theorem step_inside (hs : t.step P ev = some t') (hev : ∀ now slot, ev ≠ .flushLock now slot)
    (hout : t.flushInside = false) : t'.flushInside = false := by
  cases Threads.step_moves hs with
  | flushLock now n _ _ => exact absurd rfl (hev now true)
  | flushSkip now slot => exact absurd rfl (hev now slot)
  | flushReturn n whisper m _ => exact Flusher.elim_holdsLock m
  | _ => first | exact hout | rfl

theorem Exclusive.step (h : Exclusive l) (hs : l.step P a = some l') : Exclusive l' := by
  intro hheld
  cases step_moves hs with
  | lock m hm hfree =>
    rw [Flusher.holds_eq] at hfree
    exact hfree
  | audio now _ _ => exact absurd rfl hheld
  | tryFails now slot hne => exact h hne
  | event ev _ hflush ht =>
    exact step_inside ht (fun now slot hev => hheld (hflush now slot hev)) (h hheld)

/-- What a run reaches, the coarser model reaches. -/
theorem reachable_threads {params : SessionParams} {start : ℤ}
    (hrun : Run (step P) (init params start) tr l) :
    Reachable (Threads.step P) (Threads.init params start) l.threads := by
  apply hrun.invariant (I := fun l => Reachable (Threads.step P) (Threads.init params start) _)
  · exact ⟨[], .nil⟩
  · intro l a l' h hs
    cases step_moves hs with
    | lock m _ _ => exact h
    | audio now _ ht => exact h.next ht
    | tryFails now slot _ => exact h
    | event ev _ _ ht => exact h.next ht

theorem step_of_threads (hs : t.step P ev = some t') (hev : ∀ now, ev ≠ .audio now) :
    step P ⟨t, []⟩ (.event ev) = some ⟨t', []⟩ := by
  cases ev with
  | audio now => exact absurd rfl (hev now)
  | _ => simp [step, hs]

/-- A step as the coarser model has it; it does not see a lock being taken. -/
def erase (p : Locks × LockEvent) : Option (Threads × Event) :=
  match p.2 with
  | .lock _ => none
  | .event ev => some (p.1.threads, ev)

/-- The section of a chunk, lock by lock. -/
theorem audio_run {s : Session} {f : Flusher} {pcm : List ℚ} {now : ℤ}
    (hs : Threads.step P ⟨s, .audio pcm, f⟩ (.audio now) = some t') (hf : f.holdsLock = false) :
    ∃ tr, Run (step P) ⟨⟨s, .audio pcm, f⟩, []⟩ tr ⟨t', []⟩ ∧
      tr.filterMap erase = [(⟨s, .audio pcm, f⟩, .audio now)] := by
  have hstate : step P ⟨⟨s, .audio pcm, f⟩, []⟩ (.lock .state) =
      some ⟨⟨s, .audio pcm, f⟩, [.state]⟩ := by
    simp [step, wanted, Flusher.holds_eq, hf]
  cases hc : s.configured && s.engine.isSome with
  | true =>
    have hbuffer : step P ⟨⟨s, .audio pcm, f⟩, [.state]⟩ (.lock .buffer) =
        some ⟨⟨s, .audio pcm, f⟩, [.buffer, .state]⟩ := by
      simp [step, wanted, Flusher.holds_eq, hf, hc]
    have hlast : step P ⟨⟨s, .audio pcm, f⟩, [.buffer, .state]⟩ (.event (.audio now)) =
        some ⟨t', []⟩ := by
      simp [step, wanted, hs]
    exact ⟨_, .cons hstate (.cons hbuffer (.single hlast)), rfl⟩
  | false =>
    have hlast : step P ⟨⟨s, .audio pcm, f⟩, [.state]⟩ (.event (.audio now)) =
        some ⟨t', []⟩ := by
      simp [step, wanted, hs, hc]
    exact ⟨_, .cons hstate (.single hlast), rfl⟩

/-- A run of the coarser model, with the locks of every chunk taken one by one. -/
theorem run_of_threads {tr : List (Threads × Event)} (h : Run (Threads.step P) t tr t') :
    ∃ tr', Run (step P) ⟨t, []⟩ tr' ⟨t', []⟩ ∧ tr'.filterMap erase = tr := by
  induction h with
  | nil => exact ⟨[], .nil, rfl⟩
  | @snoc tr t₁ t₂ ev _ hs ih =>
    obtain ⟨tr₁, hrun, rfl⟩ := ih
    by_cases hev : ∃ now, ev = .audio now
    · obtain ⟨now, rfl⟩ := hev
      cases Threads.step_moves hs with
      | audio pcm now hf =>
        obtain ⟨tr₂, hsection, herase⟩ := audio_run hs hf
        exact ⟨_, hrun.append hsection, by rw [List.filterMap_append, herase]⟩
    · push Not at hev
      exact ⟨_, hrun.snoc (step_of_threads hs hev), by rw [List.filterMap_append]; rfl⟩

/-! ## Waiting for whisper -/

/-- The receive loop, with a chunk to add, waits for a lock that the flush thread holds while it
is inside whisper. -/
def WaitsForWhisper (l : Locks) : Prop :=
  ∃ m, l.wanted = some m ∧ l.threads.flusher.holds m = true ∧ l.threads.flushInside = true

/-- A frame to be added arrives while the flush thread is inside whisper, or a cycle goes inside
while the receive loop stands before `state_mutex_` with a chunk. -/
def Collides (l : Locks) : LockEvent → Prop
  | .event (.binary data now) => l.threads.flushInside = true ∧
      l.threads.session.Counts data ∧
      ¬ (l.threads.session.rateLimitStart + 3000000000 ≤ now ∧
        Session.maxBytesPerWindow < l.threads.session.bytesReceivedInWindow + data.length)
  | .event (.flushLock now true) => l.threads.asksSlot now = true ∧ l.wanted = some .state
  | _ => False

theorem wanted_eq_state : l.wanted = some .state ↔
    l.threads.receiver.isAudio = true ∧ l.held = [] := by
  unfold wanted
  split
  · simp [Receiver.isAudio, *]
  · split <;> simp [*]
  · rename_i hnot _
    apply iff_of_false (by simp)
    rintro ⟨haudio, hheld⟩
    obtain ⟨pcm, hr⟩ := Receiver.isAudio_iff.mp haudio
    exact hnot pcm hr hheld

/-- It is never `buffer_mutex_` that the receive loop waits for. -/
theorem waitsForWhisper_iff (h : Exclusive l) : l.WaitsForWhisper ↔
    l.threads.receiver.isAudio = true ∧ l.threads.flushInside = true := by
  constructor
  · rintro ⟨m, hm, -, hin⟩
    refine ⟨?_, hin⟩
    unfold wanted at hm
    split at hm
    · exact Receiver.isAudio_iff.mpr ⟨_, ‹_›⟩
    · exact Receiver.isAudio_iff.mpr ⟨_, ‹_›⟩
    · cases hm
  · rintro ⟨haudio, hin⟩
    have hheld : l.held = [] := by
      by_contra hne
      rw [h hne] at hin
      cases hin
    refine ⟨.state, wanted_eq_state.mpr ⟨haudio, hheld⟩, ?_, hin⟩
    rw [Flusher.holds_eq]
    exact hin

/-- A cycle that does not ask for a slot stays outside whisper, and one that does goes inside. -/
theorem step_flushLock_iff {now : ℤ} (hs : t.step P (.flushLock now true) = some t') :
    t'.flushInside = true ↔ t.asksSlot now = true := by
  constructor
  · intro hin
    cases Threads.step_moves hs with
    | flushSkip now slot => cases hin
    | @flushLock s r now n hr hready =>
      have hrun : s.flushRunning = true := by
        by_contra hstopped
        simp [Threads.step, Threads.flusherStep, hstopped] at hs
      simp [Threads.asksSlot, hrun, hr, hready]
  · intro hasks
    exact (Threads.step_flushLock hasks hs).2

theorem isAudio_handleBinaryMessage {s : Session} {data : Bytes} {now : ℤ} :
    (s.handleBinaryMessage P data now).2.isAudio = true ↔ s.Counts data ∧
      ¬ (s.rateLimitStart + 3000000000 ≤ now ∧
        Session.maxBytesPerWindow < s.bytesReceivedInWindow + data.length) := by
  simp only [Receiver.isAudio_iff, Session.audio_iff]
  constructor
  · rintro ⟨pcm, hc, hrate, -⟩
    exact ⟨hc, hrate⟩
  · rintro ⟨hc, hrate⟩
    exact ⟨_, hc, hrate, rfl⟩

/-- A step makes the receive loop wait for whisper exactly if it collides. -/
theorem step_waits_iff (h : Exclusive l) (hnot : ¬ l.WaitsForWhisper)
    (hs : l.step P a = some l') : l'.WaitsForWhisper ↔ l.Collides a := by
  have h' : Exclusive l' := h.step hs
  rw [waitsForWhisper_iff h] at hnot
  rw [waitsForWhisper_iff h']
  obtain ⟨t, held⟩ := l
  cases step_moves hs with
  | lock m _ _ => exact iff_of_false hnot id
  | audio now _ ht =>
    simp only at ht
    cases Threads.step_moves ht with
    | audio pcm now _ => exact iff_of_false (by rintro ⟨⟨⟩, -⟩) id
  | tryFails now slot hne =>
    apply iff_of_false hnot
    cases slot with
    | false => exact id
    | true =>
      rintro ⟨-, hm⟩
      exact hne (wanted_eq_state.mp hm).2
  | @event t' ev haudio hflush ht =>
    simp only at ht hnot hflush ⊢
    by_cases hcycle : ∃ now, ev = .flushLock now true
    · obtain ⟨now, rfl⟩ := hcycle
      have hreceiver : t'.receiver = t.receiver := by
        cases Threads.step_moves ht <;> rfl
      have hheld : held = [] := hflush now true rfl
      rw [step_flushLock_iff ht, hreceiver, and_comm]
      exact and_congr_right fun _ => by simp [wanted_eq_state, hheld]
    · push Not at hcycle
      cases Threads.step_moves ht with
      | text message validate _ =>
        apply iff_of_false _ id
        rintro ⟨haudio', -⟩
        rw [Session.handleJsonMessage_receiver P _ message validate
          (p := fun r => r.isAudio = false) rfl rfl (fun _ => rfl) fun _ => rfl] at haudio'
        cases haudio'
      | binary data now _ =>
        simp only [isAudio_handleBinaryMessage]
        exact and_comm
      | audio pcm now _ => exact absurd rfl (haudio now)
      | flushLock now n _ _ => exact absurd rfl (hcycle now)
      | flushSkip now slot =>
        cases slot with
        | true => exact absurd rfl (hcycle now)
        | false => exact iff_of_false (by rintro ⟨-, ⟨⟩⟩) id
      | flushReturn n whisper m _ =>
        apply iff_of_false _ id
        rintro ⟨-, hin⟩
        rw [Threads.flushInside, Flusher.elim_holdsLock] at hin
        cases hin
      | _ => first
        | exact iff_of_false (by rintro ⟨⟨⟩, -⟩) id
        | exact iff_of_false (by rintro ⟨-, ⟨⟩⟩) id

end Locks

section Runs

variable {P : Platform} {params : SessionParams} {start : ℤ} {l : Locks}
  {tr : List (Locks × LockEvent)}

/-- The receive loop never waits for whisper, if and only if no frame to be added meets a cycle
that is inside and no cycle goes inside before the chunk has the lock. Neither thread avoids it. -/
theorem neverWaits_iff (hrun : Run (Locks.step P) (Locks.init params start) tr l) :
    Throughout (fun l => ¬ l.WaitsForWhisper) tr l ↔ ∀ p ∈ tr, ¬ p.1.Collides p.2 := by
  apply hrun.throughout_iff (I := Locks.Exclusive) (D := fun _ _ => True)
    (G := fun l a => ¬ l.Collides a)
  · exact Locks.exclusive_init params start
  · rintro ⟨m, hm, -⟩
    cases hm
  · exact fun _ _ => trivial
  · exact fun _ _ _ h hs => h.step hs
  · intro l a l' h hnot _ hs
    rw [Locks.step_waits_iff h hnot hs]

end Runs

namespace Demo

/-- A session with a buffer of ten seconds, between two frames. -/
def buffered : Session := ready.withFrame platform engine (frame 160000) 0

theorem listening_buffered : Listening buffered (fill engine 160000) :=
  listening_ready.withFrame 160000

theorem buffered_size : (fill engine 160000).audioBuffer.length = 160000 := by
  rw [fill_size] <;> simp [highWaterMark, maxBufferSamples]

/-- A session with a frame of one sample. -/
theorem neverWaits_of_one_sample : ∃ tr l,
    Run (Locks.step platform) (Locks.init params 0) tr l ∧
      Throughout (fun l => ¬ l.WaitsForWhisper) tr l := by
  obtain ⟨tr, hrun, herase⟩ :=
    Locks.run_of_threads (frameEvents_run (show 1 ≤ 1 by decide) (by decide))
  refine ⟨tr, _, hrun, (neverWaits_iff hrun).mpr ?_⟩
  rintro ⟨l, a⟩ hmem hcollides
  cases a with
  | lock m => exact hcollides
  | event ev =>
    have hstep : (l.threads, ev) ∈ frameEvents 1 := by
      rw [← herase]
      exact List.mem_filterMap.mpr ⟨_, hmem, rfl⟩
    have hquiet : ∀ p ∈ frameEvents 1,
        p.1.flushInside = false ∧ ∀ now slot, p.2 ≠ .flushLock now slot := by
      simp [frameEvents, readyTrace, Threads.frameTrace, Threads.flushInside, Flusher.holdsLock,
        Threads.init, installing, installed]
    obtain ⟨hout, hcycle⟩ := hquiet _ hstep
    cases ev with
    | binary data now =>
      have hin := hcollides.1
      rw [hout] at hin
      cases hin
    | flushLock now slot => exact hcycle now slot rfl
    | _ => exact hcollides

theorem buffered_flushReady : buffered.flushReady 0 = some 160000 := by
  have hsize := buffered_size
  have hlast : buffered.lastTranscribedSize = 0 := ready_lastTranscribedSize
  rw [listening_buffered.flushReady, hsize]
  · omega
  · omega
  · rw [hsize, maxBufferSamples]
    omega

theorem buffered_audio :
    (buffered.handleBinaryMessage platform (frame 1) 0).2.isAudio = true := by
  have hlen := frame_length 1
  rw [Locks.isAudio_handleBinaryMessage, listening_buffered.window]
  refine ⟨⟨listening_buffered.configured, ?_, ?_, ?_⟩, ?_⟩
  · omega
  · rw [hlen, Session.maxFrameBytes]
    omega
  · omega
  · omega

theorem buffered_run : ∃ tr, Run (Threads.step platform) (Threads.init params 0) tr
    ⟨buffered, .writing [], .waiting⟩ :=
  ⟨_, frameEvents_run (n := 160000) (by omega) (by omega)⟩

/-- While a cycle is inside whisper, the next frame arrives. -/
theorem waits_of_frame : ¬ ∀ (P : Platform) (params : SessionParams) (start : ℤ) (l : Locks),
    Reachable (Locks.step P) (Locks.init params start) l → ¬ l.WaitsForWhisper := by
  intro hall
  have hlock : Threads.step platform ⟨buffered, .writing [], .waiting⟩ (.flushLock 0 true) =
      some ⟨buffered, .writing [], .inferring 160000⟩ :=
    Threads.step_of_flushReady (by simp) listening_buffered.running buffered_flushReady
  have hframe := Threads.step_of_binary (P := platform) (f := .inferring 160000) (frame 1) 0
    listening_buffered.isOpen (by simp)
  obtain ⟨tr, hrun⟩ := buffered_run
  obtain ⟨tr', hlocks, -⟩ := Locks.run_of_threads ((hrun.snoc hlock).snoc hframe)
  apply hall platform params 0 _ ⟨tr', hlocks⟩
  exact (Locks.waitsForWhisper_iff (fun h => absurd rfl h)).mpr ⟨buffered_audio, rfl⟩

end Demo

end JotaTranscriber
