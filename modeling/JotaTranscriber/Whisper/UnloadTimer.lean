import JotaTranscriber.Transition.Run
import JotaTranscriber.Whisper.ModelCache

/-! # The timers that unload the model

Timed runs of the cache with a fixed positive TTL. Each release to zero starts
a detached thread of its own, and all of them look at the one pending flag: an
idle model always has a timer that will unload it, but a timer of an earlier
idle period may do so before its time.
-/

namespace JotaTranscriber

open Transition

/-- When the thread wakes up, at the earliest. -/
def Timer.due (t : Timer) : ℤ := t.armed + t.ttl * 1000000000

/-- The cache with the steady clock, in nanoseconds. -/
structure TimedCache where
  cache : ModelCache
  clock : ℤ
  /-- When a release last brought the count to zero. -/
  lastIdle : Option ℤ := none

inductive TimedEvent where
  | acquire (now : ℤ) (path : Bytes) (loads : Bool)
  | release (now : ℤ)
  | forceUnload (now : ℤ)
  | fire (now : ℤ) (t : Timer)

namespace TimedEvent

def now : TimedEvent → ℤ
  | acquire now _ _ | release now | forceUnload now | fire now _ => now

def isAcquire : TimedEvent → Bool
  | acquire _ _ _ => true
  | _ => false

end TimedEvent

namespace TimedCache

def init (ttlSeconds start : ℤ) : TimedCache where
  cache := .configure {} ttlSeconds
  clock := start

def step (T : TimedCache) (e : TimedEvent) : Option TimedCache :=
  if e.now < T.clock then none
  else
    match e with
    | .acquire now path loads =>
      some { T with cache := (T.cache.acquire path loads).1, clock := now }
    | .release now =>
      some { cache := T.cache.release now, clock := now,
             lastIdle := if T.cache.refCount = 1 then some now else T.lastIdle }
    | .forceUnload now => some { T with cache := T.cache.forceUnload, clock := now }
    | .fire now t =>
      if t ∈ T.cache.timers ∧ t.due ≤ now then
        some { T with cache := T.cache.fire t, clock := now }
      else none

/-- All that one step can do. -/
inductive Moves (T : TimedCache) : TimedEvent → TimedCache → Prop where
  | acquire {now : ℤ} {path : Bytes} {loads : Bool} : T.clock ≤ now →
      Moves T (.acquire now path loads)
        { T with cache := (T.cache.acquire path loads).1, clock := now }
  | release {now : ℤ} : T.clock ≤ now →
      Moves T (.release now)
        { cache := T.cache.release now, clock := now,
          lastIdle := if T.cache.refCount = 1 then some now else T.lastIdle }
  | forceUnload {now : ℤ} : T.clock ≤ now →
      Moves T (.forceUnload now) { T with cache := T.cache.forceUnload, clock := now }
  | fire {now : ℤ} {t : Timer} : T.clock ≤ now → t ∈ T.cache.timers → t.due ≤ now →
      Moves T (.fire now t) { T with cache := T.cache.fire t, clock := now }

variable {T T' : TimedCache} {e : TimedEvent} {tr tr' : List (TimedCache × TimedEvent)}
  {ttl start idle now : ℤ} {t : Timer}

theorem step_moves (hs : T.step e = some T') : Moves T e T' := by
  unfold step at hs
  split at hs
  · cases hs
  · rename_i hnow
    cases e with
    | acquire now path loads =>
      obtain rfl := Option.some.inj hs
      exact .acquire (not_lt.mp hnow)
    | release now =>
      obtain rfl := Option.some.inj hs
      exact .release (not_lt.mp hnow)
    | forceUnload now =>
      obtain rfl := Option.some.inj hs
      exact .forceUnload (not_lt.mp hnow)
    | fire now t =>
      obtain ⟨⟨hmem, hdue⟩, hs⟩ := Option.ite_none_right_eq_some.mp hs
      obtain rfl := Option.some.inj hs
      exact .fire (not_lt.mp hnow) hmem hdue

theorem step_fire (hclock : T.clock ≤ now) (hmem : t ∈ T.cache.timers) (hdue : t.due ≤ now) :
    T.step (.fire now t) = some { T with cache := T.cache.fire t, clock := now } := by
  simp [step, TimedEvent.now, hclock, hmem, hdue]

/-- What the timers know: they were armed for the TTL, none after the last release to zero; and an
idle model has the flag set and the timer of that release outstanding. -/
structure Scheduled (ttl : ℤ) (T : TimedCache) : Prop where
  ttlSeconds : T.cache.ttlSeconds = ttl
  refCount_nonneg : 0 ≤ T.cache.refCount
  timers : ∀ t ∈ T.cache.timers, t.ttl = ttl ∧ ∃ idle, T.lastIdle = some idle ∧ t.armed ≤ idle
  lastIdle_le : ∀ idle, T.lastIdle = some idle → idle ≤ T.clock
  idle : T.cache.ctx.isSome → T.cache.refCount = 0 → T.cache.unloadPending = true ∧
    ∃ idle, T.lastIdle = some idle ∧ ⟨idle, ttl⟩ ∈ T.cache.timers

theorem scheduled_init : Scheduled ttl (init ttl start) := by
  constructor <;> simp [init, ModelCache.configure]

theorem Scheduled.acquire (h : Scheduled ttl T) (hnow : T.clock ≤ now) (path : Bytes)
    (loads : Bool) :
    Scheduled ttl { T with cache := (T.cache.acquire path loads).1, clock := now } where
  ttlSeconds := by simpa using h.ttlSeconds
  refCount_nonneg := ModelCache.acquire_refCount_nonneg h.refCount_nonneg
  timers := by simpa using h.timers
  lastIdle_le idle hidle := (h.lastIdle_le idle hidle).trans hnow
  idle hloaded hzero := by
    have hpos := ModelCache.acquire_refCount_pos h.refCount_nonneg hloaded
    exact absurd hzero hpos.ne'

/-- Without a model nothing has to be unloaded. -/
theorem Scheduled.of_unloaded (h : Scheduled ttl T) (hnow : T.clock ≤ now) {c : ModelCache}
    (hctx : c.ctx = none) (httl : c.ttlSeconds = T.cache.ttlSeconds) (hr : 0 ≤ c.refCount)
    (htimers : ∀ t ∈ c.timers, t ∈ T.cache.timers) :
    Scheduled ttl { T with cache := c, clock := now } where
  ttlSeconds := httl.trans h.ttlSeconds
  refCount_nonneg := hr
  timers t ht := h.timers t (htimers t ht)
  lastIdle_le idle hidle := (h.lastIdle_le idle hidle).trans hnow
  idle hloaded := by simp [hctx] at hloaded

theorem Scheduled.forceUnload (h : Scheduled ttl T) (hnow : T.clock ≤ now) :
    Scheduled ttl { T with cache := T.cache.forceUnload, clock := now } := by
  apply h.of_unloaded hnow
  · exact ModelCache.unload_ctx
  · exact ModelCache.unload_ttlSeconds
  · exact ModelCache.unload_refCount_nonneg h.refCount_nonneg
  · intro t ht
    rwa [ModelCache.forceUnload, ModelCache.unload_timers] at ht

theorem Scheduled.release (h : Scheduled ttl T) (httl : 0 < ttl) (hnow : T.clock ≤ now) :
    Scheduled ttl { cache := T.cache.release now, clock := now,
                    lastIdle := if T.cache.refCount = 1 then some now else T.lastIdle } := by
  have hlast (idle : ℤ) (hidle : T.lastIdle = some idle) : idle ≤ now :=
    (h.lastIdle_le idle hidle).trans hnow
  have hnonneg := h.refCount_nonneg
  rcases lt_trichotomy T.cache.refCount 1 with hlt | hone | hgt
  · rw [ModelCache.release_of_nonpos (by omega), if_neg hlt.ne]
    exact ⟨h.ttlSeconds, h.refCount_nonneg, h.timers, hlast, h.idle⟩
  · -- the count drops to zero: a new timer, younger than all there are
    rw [ModelCache.release_of_eq_one hone, if_pos hone, h.ttlSeconds, if_neg httl.ne', if_pos httl]
    constructor
    · rfl
    · exact le_rfl
    · intro t ht
      simp only [ModelCache.scheduleUnload] at ht
      rcases List.mem_append.mp ht with ht | ht
      · obtain ⟨hteq, idle, hidle, harmed⟩ := h.timers t ht
        exact ⟨hteq, now, rfl, harmed.trans (hlast idle hidle)⟩
      · obtain rfl := List.mem_singleton.mp ht
        exact ⟨rfl, now, rfl, le_rfl⟩
    · rintro _ ⟨⟩
      exact le_rfl
    · intro _ _
      exact ⟨rfl, now, rfl, by simp [ModelCache.scheduleUnload]⟩
  · rw [ModelCache.release_of_one_lt hgt, if_neg hgt.ne']
    refine ⟨h.ttlSeconds, ?_, h.timers, hlast, ?_⟩
    · simp only
      omega
    · intro _ hzero
      simp only at hzero
      omega

theorem Scheduled.fire (h : Scheduled ttl T) (hnow : T.clock ≤ now) :
    Scheduled ttl { T with cache := T.cache.fire t, clock := now } := by
  by_cases hp : T.cache.unloadPending = true ∧ T.cache.refCount = 0
  · rw [ModelCache.fire_of_pending hp.1 hp.2]
    apply h.of_unloaded hnow
    · exact ModelCache.unload_ctx
    · exact ModelCache.unload_ttlSeconds
    · exact ModelCache.unload_refCount_nonneg h.refCount_nonneg
    · intro t' ht'
      rw [ModelCache.unload_timers] at ht'
      exact List.mem_of_mem_erase ht'
  · rw [ModelCache.fire_of_not_pending hp]
    refine ⟨h.ttlSeconds, h.refCount_nonneg, ?_, ?_, ?_⟩
    · intro t' ht'
      exact h.timers t' (List.mem_of_mem_erase ht')
    · intro idle hidle
      exact (h.lastIdle_le idle hidle).trans hnow
    · intro hloaded hzero
      exact absurd ⟨(h.idle hloaded hzero).1, hzero⟩ hp

theorem Scheduled.step (h : Scheduled ttl T) (httl : 0 < ttl) (hs : T.step e = some T') :
    Scheduled ttl T' := by
  cases step_moves hs with
  | acquire hnow => exact h.acquire hnow _ _
  | release hnow => exact h.release httl hnow
  | forceUnload hnow => exact h.forceUnload hnow
  | fire hnow _ _ => exact h.fire hnow

theorem scheduled_of_run (httl : 0 < ttl) (hrun : Run step (init ttl start) tr T) :
    Throughout (Scheduled ttl) tr T :=
  hrun.throughout scheduled_init fun _ _ _ h hs => h.step httl hs

/-- A timer unloads the model. -/
def Unloads (T : TimedCache) : TimedEvent → Prop
  | .fire _ t => T.cache.ctx.isSome ∧ (T.cache.fire t).ctx = none
  | _ => False

/-- The last release to zero is at least the TTL ago. -/
def Idled (ttl : ℤ) (T : TimedCache) (now : ℤ) : Prop :=
  ∃ idle, T.lastIdle = some idle ∧ idle + ttl * 1000000000 ≤ now

/-- A timer finds the flag set, no reference counted and a model loaded, while another one still
has to sleep. -/
def Hastens (T : TimedCache) : TimedEvent → Prop
  | .fire now _ => T.cache.unloadPending = true ∧ T.cache.refCount = 0 ∧ T.cache.ctx.isSome ∧
      ∃ t ∈ T.cache.timers, now < t.due
  | _ => False

instance (T : TimedCache) : (e : TimedEvent) → Decidable (Hastens T e)
  | .fire _ _ => inferInstanceAs (Decidable (_ ∧ _ ∧ _ ∧ _))
  | .acquire _ _ _ | .release _ | .forceUnload _ => inferInstanceAs (Decidable False)

/-- The last release to zero is the one the youngest timer was armed by. -/
theorem Scheduled.idled_iff (h : Scheduled ttl T) (hloaded : T.cache.ctx.isSome)
    (hzero : T.cache.refCount = 0) : Idled ttl T now ↔ ∀ t ∈ T.cache.timers, t.due ≤ now := by
  obtain ⟨-, idle, hidle, hmem⟩ := h.idle hloaded hzero
  constructor
  · rintro ⟨_, hidle', hpast⟩ t ht
    obtain ⟨hteq, _, hidle'', harmed⟩ := h.timers t ht
    rw [hidle'] at hidle''
    cases hidle''
    rw [Timer.due, hteq]
    omega
  · intro hall
    exact ⟨idle, hidle, hall _ hmem⟩

theorem Scheduled.not_hastens_iff (h : Scheduled ttl T) (e : TimedEvent) :
    (Unloads T e → Idled ttl T e.now) ↔ ¬ Hastens T e := by
  cases e with
  | fire now t =>
    constructor
    · rintro htime ⟨hpending, hzero, hloaded, t', ht', hsleeps⟩
      have hidled := htime ⟨hloaded, (ModelCache.fire_unloads_iff hloaded).mpr ⟨hpending, hzero⟩⟩
      have hdue := (h.idled_iff hloaded hzero).mp hidled t' ht'
      simp only [TimedEvent.now] at hdue
      omega
    · rintro hnot ⟨hloaded, hunloaded⟩
      obtain ⟨hpending, hzero⟩ := (ModelCache.fire_unloads_iff hloaded).mp hunloaded
      apply (h.idled_iff hloaded hzero).mpr
      intro t' ht'
      by_contra hsleeps
      exact hnot ⟨hpending, hzero, hloaded, t', ht', not_le.mp hsleeps⟩
  | acquire => exact iff_of_true False.elim id
  | release => exact iff_of_true False.elim id
  | forceUnload => exact iff_of_true False.elim id

/-- Every timer of a run that unloads the model does so at least the TTL after the last release to
zero, if and only if none of them finds something to unload while another one still sleeps. -/
theorem idled_of_unloads_iff (httl : 0 < ttl) (hrun : Run step (init ttl start) tr T) :
    (∀ p ∈ tr, Unloads p.1 p.2 → Idled ttl p.1 p.2.now) ↔ ∀ p ∈ tr, ¬ Hastens p.1 p.2 := by
  have h := (scheduled_of_run httl hrun).1
  constructor
  · intro htime p hp
    exact ((h p hp).not_hastens_iff p.2).mp (htime p hp)
  · intro hnot p hp
    exact ((h p hp).not_hastens_iff p.2).mpr (hnot p hp)

/-- Nothing happens between the time a timer is due and its firing. -/
def Prompt (tr : List (TimedCache × TimedEvent)) : Prop :=
  ∀ p ∈ tr, ∀ t ∈ p.1.cache.timers, p.2.now ≤ t.due

theorem clock_step (hs : T.step e = some T') : T'.clock = e.now := by
  cases step_moves hs <;> rfl

theorem timers_step (hs : T.step e = some T') (ht : t ∈ T'.cache.timers) :
    t ∈ T.cache.timers ∨ t = ⟨e.now, T.cache.ttlSeconds⟩ := by
  cases step_moves hs with
  | acquire _ => exact .inl (by simpa using ht)
  | forceUnload _ =>
    simp only [ModelCache.forceUnload, ModelCache.unload_timers] at ht
    exact .inl ht
  | fire _ _ _ =>
    simp only [ModelCache.fire_timers] at ht
    exact .inl (List.mem_of_mem_erase ht)
  | @release now _ =>
    simp only at ht
    rcases T.cache.release_timers now with heq | heq
    · rw [heq] at ht
      exact .inl ht
    · rw [heq] at ht
      rcases List.mem_append.mp ht with ht | ht
      · exact .inl ht
      · exact .inr (List.mem_singleton.mp ht)

/-- With prompt timers none is overdue. -/
theorem clock_le_due (httl : 0 < ttl) (hrun : Run step (init ttl start) tr T)
    (hprompt : Prompt tr) : ∀ t ∈ T.cache.timers, T.clock ≤ t.due := by
  induction hrun with
  | nil =>
    intro t ht
    simp [init, ModelCache.configure] at ht
  | @snoc tr T T' e hrun hs ih =>
    intro t ht
    rw [clock_step hs]
    rcases timers_step hs ht with ht | rfl
    · exact hprompt (T, e) (by simp) t ht
    · have := (scheduled_of_run httl hrun).last.ttlSeconds
      simp only [Timer.due, this]
      omega

/-- An idle model that the timer armed at `idle` will unload. -/
structure UnloadComing (ttl idle : ℤ) (T : TimedCache) : Prop where
  pending : T.cache.unloadPending = true
  lastIdle : T.lastIdle = some idle
  outstanding : ⟨idle, ttl⟩ ∈ T.cache.timers
  fires : ∀ now, T.clock ≤ now → idle + ttl * 1000000000 ≤ now →
    ∃ T', T.step (.fire now ⟨idle, ttl⟩) = some T' ∧ T'.cache.ctx = none

/-- The model, if it is still loaded, has been idle since then. -/
def IdleSince (idle : ℤ) (T : TimedCache) : Prop :=
  T.cache.ctx.isSome → T.cache.refCount = 0 ∧ T.lastIdle = some idle

theorem IdleSince.of_unloaded (h : T.cache.ctx = none) : IdleSince idle T := by
  intro hloaded
  simp [h] at hloaded

theorem Scheduled.unloadComing (h : Scheduled ttl T) (hidle : IdleSince idle T)
    (hloaded : T.cache.ctx.isSome) : UnloadComing ttl idle T := by
  obtain ⟨hzero, hlast⟩ := hidle hloaded
  obtain ⟨hpending, idle', hlast', hmem⟩ := h.idle hloaded hzero
  rw [hlast] at hlast'
  cases hlast'
  refine ⟨hpending, hlast, hmem, ?_⟩
  intro now hclock hdue
  exact ⟨_, step_fire hclock hmem hdue,
    (ModelCache.fire_unloads_iff hloaded).mpr ⟨hpending, hzero⟩⟩

/-- Only an `acquire` loads a model. -/
theorem unloaded_step (h : T.cache.ctx = none) (he : e.isAcquire = false)
    (hs : T.step e = some T') : T'.cache.ctx = none := by
  cases step_moves hs with
  | acquire _ => cases he
  | release _ => exact ModelCache.release_ctx_eq_none h
  | forceUnload _ => exact ModelCache.unload_ctx
  | fire _ _ _ => exact ModelCache.fire_ctx_eq_none h

theorem IdleSince.step (h : IdleSince idle T) (he : e.isAcquire = false)
    (hs : T.step e = some T') : IdleSince idle T' := by
  cases hc : T.cache.ctx with
  | none => exact .of_unloaded (unloaded_step hc he hs)
  | some ctx =>
    obtain ⟨hzero, hlast⟩ := h (by simp [hc])
    cases step_moves hs with
    | acquire _ => cases he
    | release _ =>
      rw [ModelCache.release_of_nonpos hzero.le]
      intro _
      exact ⟨hzero, by simp [hzero, hlast]⟩
    | forceUnload _ => exact .of_unloaded ModelCache.unload_ctx
    | fire _ _ _ =>
      intro _
      exact ⟨ModelCache.fire_refCount.trans hzero, hlast⟩

theorem IdleSince.run (h : IdleSince idle T) (hrun : Run TimedCache.step T tr T')
    (hacq : ∀ p ∈ tr, p.2.isAcquire = false) : IdleSince idle T' := by
  induction hrun with
  | nil => exact h
  | snoc _ hs ih =>
    rw [List.forall_mem_append, List.forall_mem_singleton] at hacq
    exact (ih hacq.1).step hacq.2 hs

theorem unloaded_run (h : T.cache.ctx = none) (hrun : Run step T tr T')
    (hacq : ∀ p ∈ tr, p.2.isAcquire = false) : T'.cache.ctx = none := by
  induction hrun with
  | nil => exact h
  | snoc _ hs ih =>
    rw [List.forall_mem_append, List.forall_mem_singleton] at hacq
    exact unloaded_step (ih hacq.1) hacq.2 hs

/-- The first firing of the timer leaves no model, whenever it comes. -/
theorem Scheduled.unloaded_of_fire (h : Scheduled ttl T) (httl : 0 < ttl)
    (hidle : IdleSince idle T) (hrun : Run TimedCache.step T tr T')
    (hacq : ∀ p ∈ tr, p.2.isAcquire = false)
    (hfired : ∃ p ∈ tr, ∃ now, p.2 = .fire now ⟨idle, ttl⟩) : T'.cache.ctx = none := by
  obtain ⟨⟨T₁, e⟩, hmem, now, rfl⟩ := hfired
  obtain ⟨tr₁, tr₂, rfl⟩ := List.append_of_mem hmem
  obtain ⟨T₂, hrun₁, hs, hrun₂⟩ := hrun.split_at
  rw [List.forall_mem_append, List.forall_mem_cons] at hacq
  have h₁ : Scheduled ttl T₁ := hrun₁.invariant h fun _ _ _ h hs => h.step httl hs
  have hidle₁ := hidle.run hrun₁ hacq.1
  refine unloaded_run ?_ hrun₂ hacq.2.2
  cases step_moves hs with
  | fire _ _ _ =>
    cases hc : T₁.cache.ctx with
    | none => exact ModelCache.fire_ctx_eq_none hc
    | some ctx =>
      have hloaded : T₁.cache.ctx.isSome := by simp [hc]
      have hzero := (hidle₁ hloaded).1
      exact (ModelCache.fire_unloads_iff hloaded).mpr ⟨(h₁.idle hloaded hzero).1, hzero⟩

/-- An idle model has the flag set and the timer of the last release to zero outstanding. Unless an
`acquire` comes first it keeps both for as long as it is loaded, and that timer unloads it: no later
than the TTL after the release, if the timers are prompt. -/
theorem unloadComing_of_idle (httl : 0 < ttl) (hrun : Run step (init ttl start) tr T)
    (hloaded : T.cache.ctx.isSome) (hzero : T.cache.refCount = 0) :
    ∃ idle, UnloadComing ttl idle T ∧ (Prompt tr → T.clock ≤ idle + ttl * 1000000000) ∧
      ∀ tr' T', Run step T tr' T' → (∀ p ∈ tr', p.2.isAcquire = false) →
        (T'.cache.ctx.isSome → UnloadComing ttl idle T') ∧
        ((∃ p ∈ tr', ∃ now, p.2 = .fire now ⟨idle, ttl⟩) → T'.cache.ctx = none) := by
  have h := (scheduled_of_run httl hrun).last
  obtain ⟨-, idle, hlast, hmem⟩ := h.idle hloaded hzero
  have hidle : IdleSince idle T := fun _ => ⟨hzero, hlast⟩
  refine ⟨idle, h.unloadComing hidle hloaded, ?_, ?_⟩
  · intro hprompt
    exact clock_le_due httl hrun hprompt _ hmem
  · intro tr' T' hrun' hacq
    have h' : Scheduled ttl T' := hrun'.invariant h fun _ _ _ h hs => h.step httl hs
    constructor
    · exact h'.unloadComing (hidle.run hrun' hacq)
    · exact h.unloaded_of_fire httl hidle hrun' hacq

end TimedCache

namespace Demo

/-- A caller leaves at 0 s, and another one comes at 1 s and leaves at 2 s. -/
def twoIdlePeriods : List TimedEvent :=
  [.acquire 0 (lit "model.bin") true, .release 0,
    .acquire 1000000000 (lit "model.bin") true, .release 2000000000]

/-- The timers of two idle periods, of which the first one wakes up while the model is in use. -/
theorem idled_of_own_timer : ∃ tr T,
    exec TimedCache.step (.init 10 0) [.acquire 0 (lit "model.bin") true, .release 0,
      .acquire 1000000000 (lit "model.bin") true, .fire 10000000000 ⟨0, 10⟩,
      .release 12000000000, .fire 22000000000 ⟨12000000000, 10⟩] = some (tr, T) ∧
      T.cache.ctx = none ∧
      ∀ p ∈ tr, TimedCache.Unloads p.1 p.2 → TimedCache.Idled 10 p.1 p.2.now := by
  obtain ⟨tr, T, hrun, hctx, hkeeps⟩ : ∃ tr T,
      exec TimedCache.step (.init 10 0) [.acquire 0 (lit "model.bin") true, .release 0,
        .acquire 1000000000 (lit "model.bin") true, .fire 10000000000 ⟨0, 10⟩,
        .release 12000000000, .fire 22000000000 ⟨12000000000, 10⟩] = some (tr, T) ∧
        T.cache.ctx = none ∧ ∀ p ∈ tr, ¬ TimedCache.Hastens p.1 p.2 := ⟨_, _, rfl, by decide⟩
  exact ⟨tr, T, hrun, hctx,
    (TimedCache.idled_of_unloads_iff (by decide) (Run.of_exec hrun)).mpr hkeeps⟩

/-- With a TTL of ten seconds the timer of the first idle period unloads the model at 10 s, eight
seconds after the last release. -/
theorem not_idled_of_earlier_timer : ∃ tr T, Run TimedCache.step (.init 10 0) tr T ∧
    ¬ ∀ p ∈ tr, TimedCache.Unloads p.1 p.2 → TimedCache.Idled 10 p.1 p.2.now := by
  obtain ⟨tr, T, hrun, hclock, hmem, hunloads, hlast⟩ : ∃ tr T,
      exec TimedCache.step (.init 10 0) twoIdlePeriods = some (tr, T) ∧
        T.clock ≤ 10000000000 ∧ ⟨0, 10⟩ ∈ T.cache.timers ∧
        (T.cache.ctx.isSome ∧ (T.cache.fire ⟨0, 10⟩).ctx = none) ∧
        T.lastIdle = some 2000000000 := ⟨_, _, rfl, by decide⟩
  have hs := TimedCache.step_fire hclock hmem (by decide)
  refine ⟨_, _, (Run.of_exec hrun).snoc hs, ?_⟩
  intro h
  obtain ⟨idle, hidle, hpast⟩ := h (T, .fire 10000000000 ⟨0, 10⟩) (by simp) hunloads
  rw [hlast] at hidle
  cases hidle
  simp only [TimedEvent.now] at hpast
  omega

/-- The model is idle after the second caller: the timer armed at 2 s will unload it. -/
theorem unloadComing_of_two_idle_periods : ∃ tr T idle,
    exec TimedCache.step (.init 10 0) twoIdlePeriods = some (tr, T) ∧
      TimedCache.UnloadComing 10 idle T := by
  obtain ⟨tr, T, hrun, hloaded, hzero⟩ : ∃ tr T,
      exec TimedCache.step (.init 10 0) twoIdlePeriods = some (tr, T) ∧
        T.cache.ctx.isSome ∧ T.cache.refCount = 0 := ⟨_, _, rfl, by decide⟩
  obtain ⟨idle, hcoming, -⟩ :=
    TimedCache.unloadComing_of_idle (by decide) (Run.of_exec hrun) hloaded hzero
  exact ⟨tr, T, idle, hrun, hcoming⟩

end Demo

end JotaTranscriber
