import Mathlib.Data.Finset.Insert
import Mathlib.Data.Finset.Erase
import JotaTranscriber.Whisper.Engine

/-! # The model cache

The reference count, the pending flag and the detached timer threads that
share it. The contexts allocated and not yet freed are part of the state, so
that a use after free can be stated. Starting a thread is taken to succeed.
-/

namespace JotaTranscriber

/-- A detached timer thread that still sleeps: when it was started and for how many seconds. -/
structure Timer where
  armed : ℤ
  ttl : ℤ
  deriving DecidableEq, Repr

structure ModelCache where
  ctx : Option WhisperContext := none
  loadedPath : Bytes := []
  refCount : ℤ := 0
  ttlSeconds : ℤ := 300
  unloadPending : Bool := false
  timers : List Timer := []
  /-- The contexts loaded and not freed. -/
  live : Finset WhisperContext := ∅
  /-- The context the next load yields. -/
  fresh : WhisperContext := 0

namespace ModelCache

def configure (c : ModelCache) (ttlSeconds : ℤ) : ModelCache := { c with ttlSeconds }

/-- `whisper_free(ctx_)`, with the path forgotten. -/
def freeCtx (c : ModelCache) : ModelCache :=
  match c.ctx with
  | some ctx => { c with ctx := none, loadedPath := [], live := c.live.erase ctx }
  | none => c

def cancelUnload (c : ModelCache) : ModelCache := { c with unloadPending := false }

def unload (c : ModelCache) : ModelCache :=
  if c.ctx.isSome then { c.freeCtx with refCount := 0 } else c

def scheduleUnload (c : ModelCache) (now : ℤ) : ModelCache :=
  { c with unloadPending := true, timers := c.timers ++ [⟨now, c.ttlSeconds⟩] }

/-- The load at the end of `acquire`. `loads` tells whether the file is a readable model. -/
def load (c : ModelCache) (modelPath : Bytes) (loads : Bool) :
    ModelCache × Except Exn WhisperContext :=
  if loads then
    ({ c with ctx := some c.fresh, live := insert c.fresh c.live, fresh := c.fresh + 1,
              loadedPath := modelPath, refCount := 1 }, .ok c.fresh)
  else
    (c, .error (.runtimeError (lit "[ModelCache] Failed to load whisper model: " ++ modelPath)))

def acquire (c : ModelCache) (modelPath : Bytes) (loads : Bool) :
    ModelCache × Except Exn WhisperContext :=
  let c := c.cancelUnload
  match c.ctx with
  | some ctx =>
    if c.loadedPath = modelPath then ({ c with refCount := c.refCount + 1 }, .ok ctx)
    else c.freeCtx.load modelPath loads
  | none => c.load modelPath loads

def release (c : ModelCache) (now : ℤ) : ModelCache :=
  if c.refCount ≤ 0 then c
  else
    let c := { c with refCount := c.refCount - 1 }
    if c.refCount = 0 then
      if c.ttlSeconds = 0 then c.unload
      else if 0 < c.ttlSeconds then c.scheduleUnload now
      else c
    else c

def forceUnload (c : ModelCache) : ModelCache := c.cancelUnload.unload

/-- A timer thread wakes up. -/
def fire (c : ModelCache) (t : Timer) : ModelCache :=
  let c := { c with timers := c.timers.erase t }
  if c.unloadPending ∧ c.refCount = 0 then { c.unload with unloadPending := false } else c

section Operations

variable {c : ModelCache} {path : Bytes} {loads : Bool} {now : ℤ}

@[simp] theorem freeCtx_ctx : c.freeCtx.ctx = none := by
  unfold freeCtx
  cases hc : c.ctx <;> simp [hc]

@[simp] theorem freeCtx_refCount : c.freeCtx.refCount = c.refCount := by
  unfold freeCtx
  cases c.ctx <;> rfl

@[simp] theorem freeCtx_ttlSeconds : c.freeCtx.ttlSeconds = c.ttlSeconds := by
  unfold freeCtx
  cases c.ctx <;> rfl

@[simp] theorem freeCtx_unloadPending : c.freeCtx.unloadPending = c.unloadPending := by
  unfold freeCtx
  cases c.ctx <;> rfl

@[simp] theorem freeCtx_timers : c.freeCtx.timers = c.timers := by
  unfold freeCtx
  cases c.ctx <;> rfl

@[simp] theorem freeCtx_fresh : c.freeCtx.fresh = c.fresh := by
  unfold freeCtx
  cases c.ctx <;> rfl

/-- The model asked for is the one loaded. -/
theorem acquire_hit {ctx : WhisperContext} (hc : c.ctx = some ctx) (hp : c.loadedPath = path) :
    c.acquire path loads =
      ({ c with unloadPending := false, refCount := c.refCount + 1 }, .ok ctx) := by
  simp [acquire, cancelUnload, hc, hp]

/-- No model or another one is loaded: what was there is freed before the load. -/
theorem acquire_miss (h : c.ctx.isSome → c.loadedPath ≠ path) :
    c.acquire path loads = c.cancelUnload.freeCtx.load path loads := by
  cases hc : c.ctx with
  | some ctx => simp [acquire, cancelUnload, hc, h (by simp [hc])]
  | none => simp [acquire, cancelUnload, freeCtx, hc]

theorem acquire_hit_or_miss (c : ModelCache) (path : Bytes) (loads : Bool) :
    (∃ ctx, c.ctx = some ctx ∧ c.loadedPath = path ∧ c.acquire path loads =
        ({ c with unloadPending := false, refCount := c.refCount + 1 }, .ok ctx)) ∨
      ((c.ctx.isSome → c.loadedPath ≠ path) ∧
        c.acquire path loads = c.cancelUnload.freeCtx.load path loads) := by
  by_cases hhit : c.ctx.isSome ∧ c.loadedPath = path
  · obtain ⟨ctx, hc⟩ := Option.isSome_iff_exists.mp hhit.1
    exact .inl ⟨ctx, hc, hhit.2, acquire_hit hc hhit.2⟩
  · have hp : c.ctx.isSome → c.loadedPath ≠ path := by
      intro hsome heq
      exact hhit ⟨hsome, heq⟩
    exact .inr ⟨hp, acquire_miss hp⟩

@[simp] theorem acquire_ttlSeconds : (c.acquire path loads).1.ttlSeconds = c.ttlSeconds := by
  rcases c.acquire_hit_or_miss path loads with ⟨_, _, _, h⟩ | ⟨_, h⟩
  · rw [h]
  · cases loads <;> simp [h, load, cancelUnload]

@[simp] theorem acquire_timers : (c.acquire path loads).1.timers = c.timers := by
  rcases c.acquire_hit_or_miss path loads with ⟨_, _, _, h⟩ | ⟨_, h⟩
  · rw [h]
  · cases loads <;> simp [h, load, cancelUnload]

theorem acquire_refCount_nonneg (h : 0 ≤ c.refCount) :
    0 ≤ (c.acquire path loads).1.refCount := by
  rcases c.acquire_hit_or_miss path loads with ⟨_, _, _, heq⟩ | ⟨_, heq⟩
  · rw [heq]
    exact Int.add_nonneg h (by decide)
  · cases loads <;> simp [heq, load, cancelUnload, h]

/-- With a model loaded, its caller is counted. -/
theorem acquire_refCount_pos (h : 0 ≤ c.refCount)
    (hc : (c.acquire path loads).1.ctx.isSome) : 0 < (c.acquire path loads).1.refCount := by
  rcases c.acquire_hit_or_miss path loads with ⟨_, _, _, heq⟩ | ⟨_, heq⟩
  · rw [heq]
    exact Int.lt_add_one_of_le h
  · rw [heq] at hc ⊢
    cases loads with
    | true => simp [load]
    | false => simp [load] at hc

@[simp] theorem unload_ctx : c.unload.ctx = none := by
  unfold unload
  split
  · exact freeCtx_ctx
  · rename_i h
    simpa using h

@[simp] theorem unload_ttlSeconds : c.unload.ttlSeconds = c.ttlSeconds := by
  unfold unload
  split <;> simp

@[simp] theorem unload_timers : c.unload.timers = c.timers := by
  unfold unload
  split <;> simp

theorem unload_refCount_nonneg (h : 0 ≤ c.refCount) : 0 ≤ c.unload.refCount := by
  unfold unload
  split
  · exact le_rfl
  · exact h

theorem release_of_nonpos (h : c.refCount ≤ 0) : c.release now = c := if_pos h

theorem release_of_one_lt (h : 1 < c.refCount) :
    c.release now = { c with refCount := c.refCount - 1 } := by
  unfold release
  rw [if_neg (by omega)]
  simp only
  rw [if_neg (by omega)]

/-- The release that brings the count to zero. -/
theorem release_of_eq_one (h : c.refCount = 1) :
    c.release now =
      if c.ttlSeconds = 0 then { c with refCount := 0 }.unload
      else if 0 < c.ttlSeconds then { c with refCount := 0 }.scheduleUnload now
      else { c with refCount := 0 } := by
  unfold release
  rw [if_neg (by omega)]
  simp [h]

/-- The cases of a release: no reference to give back, another one left, and the last one, with the
three meanings of the TTL. -/
theorem release_cases (c : ModelCache) (now : ℤ) {p : ModelCache → Prop}
    (hnone : c.refCount ≤ 0 → p c)
    (hleft : 1 < c.refCount → p { c with refCount := c.refCount - 1 })
    (hunload : c.refCount = 1 → p { c with refCount := 0 }.unload)
    (hschedule : c.refCount = 1 → p ({ c with refCount := 0 }.scheduleUnload now))
    (hkeep : c.refCount = 1 → p { c with refCount := 0 }) : p (c.release now) := by
  rcases lt_trichotomy c.refCount 1 with hlt | hone | hgt
  · rw [release_of_nonpos (by omega)]
    exact hnone (by omega)
  · rw [release_of_eq_one hone]
    split
    · exact hunload hone
    · split
      · exact hschedule hone
      · exact hkeep hone
  · rw [release_of_one_lt hgt]
    exact hleft hgt

theorem release_timers (c : ModelCache) (now : ℤ) :
    (c.release now).timers = c.timers ∨
      (c.release now).timers = c.timers ++ [⟨now, c.ttlSeconds⟩] := by
  have harmed : ({ c with refCount := 0 }.scheduleUnload now).timers =
      c.timers ++ [⟨now, c.ttlSeconds⟩] := rfl
  refine release_cases c now (p := fun c' => c'.timers = c.timers ∨ c'.timers = _)
    ?_ ?_ ?_ (fun _ => .inr harmed) ?_ <;> intro _ <;> left
  · rfl
  · rfl
  · exact unload_timers
  · rfl

/-- A release loads nothing. -/
theorem release_ctx_eq_none (h : c.ctx = none) : (c.release now).ctx = none := by
  apply release_cases c now (p := fun c' => c'.ctx = none) <;> intro _
  · exact h
  · exact h
  · exact unload_ctx
  · exact h
  · exact h

/-- A timer that finds the flag set and no reference counted unloads the model. -/
theorem fire_of_pending {t : Timer} (hp : c.unloadPending = true) (hr : c.refCount = 0) :
    c.fire t =
      { { c with timers := c.timers.erase t }.unload with unloadPending := false } :=
  if_pos ⟨hp, hr⟩

theorem fire_of_not_pending {t : Timer} (h : ¬ (c.unloadPending = true ∧ c.refCount = 0)) :
    c.fire t = { c with timers := c.timers.erase t } :=
  if_neg h

@[simp] theorem fire_timers {t : Timer} : (c.fire t).timers = c.timers.erase t := by
  by_cases h : c.unloadPending = true ∧ c.refCount = 0
  · rw [fire_of_pending h.1 h.2]
    exact unload_timers
  · rw [fire_of_not_pending h]

theorem fire_ctx_eq_none {t : Timer} (h : c.ctx = none) : (c.fire t).ctx = none := by
  by_cases hp : c.unloadPending = true ∧ c.refCount = 0
  · rw [fire_of_pending hp.1 hp.2]
    exact unload_ctx
  · rwa [fire_of_not_pending hp]

/-- A timer unloads a model exactly if it finds the flag set and no reference counted. -/
theorem fire_unloads_iff {t : Timer} (h : c.ctx.isSome) :
    (c.fire t).ctx = none ↔ c.unloadPending = true ∧ c.refCount = 0 := by
  by_cases hp : c.unloadPending = true ∧ c.refCount = 0
  · rw [fire_of_pending hp.1 hp.2]
    exact iff_of_true unload_ctx hp
  · rw [fire_of_not_pending hp]
    apply iff_of_false _ hp
    intro hnone
    simp only at hnone
    rw [hnone] at h
    cases h

end Operations

/-- What every operation keeps when all sessions use the model at `path`: a context is held only
while it is allocated and comes from that path, and without one no reference is counted. -/
structure WellFormed (path : Bytes) (c : ModelCache) : Prop where
  ctx_live : ∀ ctx, c.ctx = some ctx → ctx ∈ c.live
  loaded : c.ctx.isSome → c.loadedPath = path
  refCount_nonneg : 0 ≤ c.refCount
  refCount_none : c.ctx = none → c.refCount = 0

variable {c : ModelCache} {path : Bytes} {now : ℤ}

theorem WellFormed.init (ttl : ℤ) : WellFormed path (ModelCache.configure {} ttl) := by
  constructor <;> simp [configure]

theorem WellFormed.ctx_isSome (h : WellFormed path c) (hr : 0 < c.refCount) :
    c.ctx.isSome = true := by
  by_contra hn
  have := h.refCount_none (by simpa using hn)
  omega

/-- Every session asks for the same model, so `acquire` counts one reference more, on the context
already held if there is one, or fails and counts nothing. -/
theorem acquire_cases (h : WellFormed path c) (loads : Bool) :
    (∃ ctx, (c.acquire path loads).2 = .ok ctx ∧ (c.acquire path loads).1.ctx = some ctx ∧
        (c.acquire path loads).1.refCount = c.refCount + 1 ∧
        ∀ ctx', c.ctx = some ctx' → ctx' = ctx) ∨
      (∃ x, (c.acquire path loads).2 = .error x ∧ c.ctx = none ∧
        (c.acquire path loads).1.ctx = none ∧
        (c.acquire path loads).1.refCount = c.refCount) := by
  cases hc : c.ctx with
  | some ctx =>
    have hp := h.loaded (by simp [hc])
    exact .inl ⟨ctx, by simp [acquire, cancelUnload, hc, hp]⟩
  | none =>
    cases loads with
    | true => exact .inl ⟨c.fresh, by simp [acquire, cancelUnload, hc, load, h.refCount_none hc]⟩
    | false => exact .inr ⟨_, by simp [acquire, cancelUnload, hc, load]; rfl, by
        simp [acquire, cancelUnload, hc, load]⟩

theorem WellFormed.acquire (h : WellFormed path c) (loads : Bool) :
    WellFormed path (c.acquire path loads).1 := by
  cases hc : c.ctx with
  | some ctx =>
    have hp := h.loaded (by simp [hc])
    have hl := h.ctx_live ctx hc
    have hn := h.refCount_nonneg
    constructor <;> simp [ModelCache.acquire, cancelUnload, hc, hp, hl]
    omega
  | none =>
    cases loads with
    | true => constructor <;> simp [ModelCache.acquire, cancelUnload, hc, load]
    | false =>
      constructor <;>
        simp [ModelCache.acquire, cancelUnload, hc, load, h.refCount_none hc]

theorem WellFormed.unload (h : WellFormed path c) : WellFormed path c.unload := by
  unfold ModelCache.unload freeCtx
  cases hc : c.ctx with
  | some ctx => constructor <;> simp
  | none => simpa using h

/-- A release that is matched by a reference uncounts it; the context stays as long as a
reference is left. -/
theorem release_refCount (h : WellFormed path c) (hr : 0 < c.refCount) :
    (c.release now).refCount = c.refCount - 1 := by
  have hs := h.ctx_isSome hr
  unfold release
  rw [if_neg (by omega)]
  dsimp only
  split
  · split
    · simp [ModelCache.unload, *]
    · split <;> rfl
  · rfl

theorem release_ctx (hr : 1 < c.refCount) : (c.release now).ctx = c.ctx := by
  rw [release_of_one_lt hr]

theorem WellFormed.release (h : WellFormed path c) : WellFormed path (c.release now) := by
  have hzero (hr : c.refCount = 1) : WellFormed path { c with refCount := 0 } :=
    ⟨h.ctx_live, h.loaded, le_rfl, fun _ => rfl⟩
  apply release_cases c now
  · intro _
    exact h
  · intro hr
    refine ⟨h.ctx_live, h.loaded, ?_, ?_⟩
    · simp only
      omega
    · intro hn
      have := h.refCount_none hn
      omega
  · intro hr
    exact (hzero hr).unload
  · intro hr
    exact ⟨(hzero hr).ctx_live, (hzero hr).loaded, (hzero hr).refCount_nonneg,
      (hzero hr).refCount_none⟩
  · exact hzero

/-- A timer unloads nothing while a reference is counted. -/
theorem fire_ctx {t : Timer} (hr : 0 < c.refCount) :
    (c.fire t).ctx = c.ctx ∧ (c.fire t).refCount = c.refCount := by
  rw [fire_of_not_pending (by omega)]
  exact ⟨rfl, rfl⟩

theorem fire_refCount {t : Timer} : (c.fire t).refCount = c.refCount := by
  unfold fire
  dsimp only
  split
  · rename_i h
    simp only [ModelCache.unload]
    split <;> simp_all
  · rfl

theorem WellFormed.fire {t : Timer} (h : WellFormed path c) : WellFormed path (c.fire t) := by
  have ht : WellFormed path { c with timers := c.timers.erase t } :=
    ⟨h.ctx_live, h.loaded, h.refCount_nonneg, h.refCount_none⟩
  unfold ModelCache.fire
  dsimp only
  split
  · exact ⟨ht.unload.ctx_live, ht.unload.loaded, ht.unload.refCount_nonneg,
      ht.unload.refCount_none⟩
  · exact ht

end ModelCache

end JotaTranscriber
