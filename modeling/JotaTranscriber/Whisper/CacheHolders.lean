import JotaTranscriber.Transition.Run
import JotaTranscriber.Whisper.ModelCache

/-! # The holders of the model

The callers of the cache, with any model paths: each successful `acquire` hands
out a context, which its caller holds until the `release` that matches it. The
count and the holders agree until another model is asked for while one is held.
-/

namespace JotaTranscriber

open Transition

/-- What the cache owns: the context it points to is the only one allocated, and the next load
yields another one. -/
structure ModelCache.Sole (c : ModelCache) : Prop where
  mem_live : ∀ ctx, ctx ∈ c.live ↔ c.ctx = some ctx
  lt_fresh : ∀ ctx, c.ctx = some ctx → ctx < c.fresh

namespace ModelCache

variable {c : ModelCache} {path : Bytes} {loads : Bool} {now : ℤ} {t : Timer}

theorem Sole.init (ttl : ℤ) : Sole (ModelCache.configure {} ttl) := by
  constructor <;> simp [configure]

/-- Only the context, the allocations and the next context matter. -/
theorem Sole.congr {c' : ModelCache} (h : Sole c) (hctx : c'.ctx = c.ctx)
    (hlive : c'.live = c.live) (hfresh : c'.fresh = c.fresh) : Sole c' := by
  constructor
  · rw [hctx, hlive]
    exact h.mem_live
  · rw [hctx, hfresh]
    exact h.lt_fresh

theorem Sole.freeCtx_live (h : Sole c) : c.freeCtx.live = ∅ := by
  apply Finset.eq_empty_of_forall_notMem
  intro ctx hmem
  unfold freeCtx at hmem
  cases hc : c.ctx with
  | none =>
    simp only [hc, h.mem_live] at hmem
    cases hmem
  | some ctx' =>
    simp only [hc, Finset.mem_erase, h.mem_live, Option.some.injEq] at hmem
    exact hmem.1 hmem.2.symm

theorem Sole.freeCtx (h : Sole c) : Sole c.freeCtx := by
  constructor <;> simp [h.freeCtx_live]

theorem Sole.cancelUnload (h : Sole c) : Sole c.cancelUnload := h.congr rfl rfl rfl

theorem Sole.unload (h : Sole c) : Sole c.unload := by
  unfold ModelCache.unload
  split
  · exact h.freeCtx.congr rfl rfl rfl
  · exact h

theorem Sole.acquire (h : Sole c) : Sole (c.acquire path loads).1 := by
  rcases c.acquire_hit_or_miss path loads with ⟨_, _, _, heq⟩ | ⟨_, heq⟩
  · rw [heq]
    exact h.congr rfl rfl rfl
  · rw [heq]
    cases loads with
    | true => constructor <;> simp [load, h.cancelUnload.freeCtx_live, eq_comm]
    | false => exact h.cancelUnload.freeCtx

theorem Sole.release (h : Sole c) : Sole (c.release now) := by
  have hzero : Sole { c with refCount := 0 } := h.congr rfl rfl rfl
  apply release_cases c now <;> intro _
  · exact h
  · exact h.congr rfl rfl rfl
  · exact hzero.unload
  · exact hzero.congr rfl rfl rfl
  · exact hzero

theorem Sole.fire (h : Sole c) : Sole (c.fire t) := by
  have ht : Sole { c with timers := c.timers.erase t } := h.congr rfl rfl rfl
  unfold ModelCache.fire
  dsimp only
  split
  · exact ht.unload.congr rfl rfl rfl
  · exact ht

end ModelCache

/-- The cache, and the contexts its callers hold: one entry for each successful `acquire` not yet
matched by a `release`. -/
structure CacheHolders where
  cache : ModelCache
  held : List WhisperContext := []

inductive HolderEvent where
  | acquire (path : Bytes) (loads : Bool)
  /-- The release that matches an `acquire` which returned this context. -/
  | release (ctx : WhisperContext) (now : ℤ)
  | fire (t : Timer)

namespace CacheHolders

def init (ttlSeconds : ℤ) : CacheHolders where
  cache := .configure {} ttlSeconds

def step (H : CacheHolders) : HolderEvent → Option CacheHolders
  | .acquire path loads =>
    let acquired := H.cache.acquire path loads
    some { cache := acquired.1
           held := match acquired.2 with
             | .ok ctx => ctx :: H.held
             | .error _ => H.held }
  | .release ctx now =>
    if ctx ∈ H.held then some { cache := H.cache.release now, held := H.held.erase ctx } else none
  | .fire t => if t ∈ H.cache.timers then some { H with cache := H.cache.fire t } else none

/-- The count is the number of holders, and what they hold is allocated. -/
structure Accounted (H : CacheHolders) : Prop where
  refCount : H.cache.refCount = H.held.length
  live : ∀ ctx ∈ H.held, ctx ∈ H.cache.live

/-- An `acquire` that finds another model than the one it asks for, with references to it. -/
def SwapsHeld (H : CacheHolders) : HolderEvent → Prop
  | .acquire path _ =>
    H.cache.ctx.isSome ∧ H.cache.loadedPath ≠ path ∧ H.cache.refCount ≠ 0
  | .release _ _ | .fire _ => False

instance (H : CacheHolders) : (e : HolderEvent) → Decidable (SwapsHeld H e)
  | .acquire _ _ => inferInstanceAs (Decidable (_ ∧ _ ∧ _))
  | .release _ _ | .fire _ => inferInstanceAs (Decidable False)

variable {H H' : CacheHolders} {e : HolderEvent} {tr : List (CacheHolders × HolderEvent)}
  {ttl : ℤ} {path : Bytes} {loads : Bool} {ctx : WhisperContext} {now : ℤ}

theorem sole_step (h : H.cache.Sole) (hs : H.step e = some H') : H'.cache.Sole := by
  cases e with
  | acquire path loads =>
    obtain rfl := Option.some.inj hs
    exact h.acquire
  | release ctx now =>
    obtain ⟨-, hs⟩ := Option.ite_none_right_eq_some.mp hs
    obtain rfl := Option.some.inj hs
    exact h.release
  | fire t =>
    obtain ⟨-, hs⟩ := Option.ite_none_right_eq_some.mp hs
    obtain rfl := Option.some.inj hs
    exact h.fire

/-- Everyone holds the context the cache points to. -/
theorem Accounted.eq_ctx (h : Accounted H) (hsole : H.cache.Sole) (hctx : ctx ∈ H.held) :
    H.cache.ctx = some ctx :=
  (hsole.mem_live ctx).mp (h.live ctx hctx)

theorem Accounted.held_eq_nil (h : Accounted H) (hzero : H.cache.refCount = 0) : H.held = [] := by
  have := h.refCount
  exact List.eq_nil_of_length_eq_zero (by omega)

/-- A second caller of the loaded model. -/
theorem Accounted.acquire_hit (h : Accounted H) (hsole : H.cache.Sole)
    (hc : H.cache.ctx = some ctx) (hp : H.cache.loadedPath = path)
    (hs : H.step (.acquire path loads) = some H') : Accounted H' := by
  have hlive : ctx ∈ H.cache.live := (hsole.mem_live ctx).mpr hc
  have hcount := h.refCount
  simp only [step, ModelCache.acquire_hit hc hp] at hs
  obtain rfl := Option.some.inj hs
  constructor
  · simp [hcount]
  · intro held hheld
    rcases List.mem_cons.mp hheld with rfl | hheld
    · exact hlive
    · exact h.live held hheld

/-- The load of a model, which frees the one there was. With holders of that one, neither the
count nor their contexts survive. -/
theorem Accounted.acquire_miss_iff (h : Accounted H) (hsole : H.cache.Sole)
    (hp : H.cache.ctx.isSome → H.cache.loadedPath ≠ path)
    (hs : H.step (.acquire path loads) = some H') : Accounted H' ↔ H.cache.refCount = 0 := by
  have hcount := h.refCount
  have hempty := hsole.cancelUnload.freeCtx_live
  simp only [step, ModelCache.acquire_miss hp] at hs
  obtain rfl := Option.some.inj hs
  constructor
  · intro h'
    cases loads with
    | true =>
      have := h'.refCount
      simp only [ModelCache.load, if_true, List.length_cons, Nat.cast_add, Nat.cast_one] at this
      omega
    | false =>
      by_contra hne
      have hpos : 0 < H.held.length := by omega
      obtain ⟨held, hheld⟩ := List.exists_mem_of_length_pos hpos
      have hlive := h'.live held hheld
      simp [ModelCache.load, hempty] at hlive
  · intro hzero
    have hnil := h.held_eq_nil hzero
    cases loads with
    | true => constructor <;> simp [ModelCache.load, hnil]
    | false => constructor <;> simp [ModelCache.load, hnil, ModelCache.cancelUnload, hzero]

theorem Accounted.release (h : Accounted H) (hs : H.step (.release ctx now) = some H') :
    Accounted H' := by
  obtain ⟨hmem, hs⟩ := Option.ite_none_right_eq_some.mp hs
  obtain rfl := Option.some.inj hs
  have hcount := h.refCount
  have hlen := List.length_erase_of_mem hmem
  have hpos := List.length_pos_of_mem hmem
  rcases lt_or_eq_of_le (show 1 ≤ H.cache.refCount by omega) with hgt | hone
  · rw [ModelCache.release_of_one_lt hgt]
    constructor
    · simp only [hlen]
      omega
    · intro held hheld
      exact h.live held (List.mem_of_mem_erase hheld)
  · -- the last holder: nobody is left to be accounted for
    have hnil : H.held.erase ctx = [] := List.eq_nil_of_length_eq_zero (by omega)
    rw [ModelCache.release_of_eq_one hone.symm, hnil]
    constructor
    · simp only [List.length_nil, Nat.cast_zero]
      split
      · simp only [ModelCache.unload]
        split <;> rfl
      · split <;> rfl
    · rintro _ ⟨⟩

theorem Accounted.fire (h : Accounted H) {t : Timer} (hs : H.step (.fire t) = some H') :
    Accounted H' := by
  obtain ⟨-, hs⟩ := Option.ite_none_right_eq_some.mp hs
  obtain rfl := Option.some.inj hs
  constructor
  · rw [ModelCache.fire_refCount]
    exact h.refCount
  · intro held hheld
    have hlive := h.live held hheld
    have hne : H.cache.refCount ≠ 0 := by
      intro hzero
      rw [h.held_eq_nil hzero] at hheld
      cases hheld
    simp only [ModelCache.fire]
    rwa [if_neg (by simp [hne])]

theorem accounted_init : Accounted (init ttl) := by
  constructor <;> simp [init, ModelCache.configure]

theorem Accounted.step_iff (h : Accounted H) (hsole : H.cache.Sole) (hs : H.step e = some H') :
    Accounted H' ↔ ¬ SwapsHeld H e := by
  cases e with
  | acquire path loads =>
    rcases H.cache.acquire_hit_or_miss path loads with ⟨ctx, hc, hpath, _⟩ | ⟨hp, _⟩
    · apply iff_of_true (h.acquire_hit hsole hc hpath hs)
      rintro ⟨-, hp, -⟩
      exact hp hpath
    · rw [h.acquire_miss_iff hsole hp hs, iff_comm, not_iff_comm]
      constructor
      · intro hne
        have hpos : 0 < H.held.length := by
          have := h.refCount
          omega
        obtain ⟨ctx, hmem⟩ := List.exists_mem_of_length_pos hpos
        have hsome : H.cache.ctx.isSome := by simp [h.eq_ctx hsole hmem]
        exact ⟨hsome, hp hsome, hne⟩
      · rintro ⟨-, -, hne⟩
        exact hne
  | release ctx now => exact iff_of_true (h.release hs) id
  | fire t => exact iff_of_true (h.fire hs) id

/-- In every state of a run the count is the number of holders and what they hold is allocated, if
and only if no `acquire` of the run finds another model than the one it asks for with references
to it. -/
theorem accounted_iff (hrun : Run step (init ttl) tr H) :
    Throughout Accounted tr H ↔ ∀ p ∈ tr, ¬ SwapsHeld p.1 p.2 :=
  hrun.throughout_iff (I := fun H => H.cache.Sole) (D := fun _ _ => True)
    (G := fun H e => ¬ SwapsHeld H e) (.init ttl) accounted_init (fun _ _ => trivial)
    (fun _ _ _ => sole_step) fun _ _ _ hsole h _ hs => h.step_iff hsole hs

end CacheHolders

namespace Demo

def smallModel : Bytes := lit "small.bin"

def largeModel : Bytes := lit "large.bin"

/-- Two callers of one model, and the timer after them. -/
theorem accounted_of_one_model : ∃ tr H,
    exec CacheHolders.step (.init 300) [.acquire smallModel true, .acquire smallModel true,
      .release 0 1, .release 0 2, .fire ⟨2, 300⟩] = some (tr, H) ∧
      Throughout CacheHolders.Accounted tr H := by
  obtain ⟨tr, H, hrun, hkeeps⟩ : ∃ tr H,
      exec CacheHolders.step (.init 300) [.acquire smallModel true, .acquire smallModel true,
        .release 0 1, .release 0 2, .fire ⟨2, 300⟩] = some (tr, H) ∧
        ∀ p ∈ tr, ¬ CacheHolders.SwapsHeld p.1 p.2 := ⟨_, _, rfl, by decide⟩
  exact ⟨tr, H, hrun, (CacheHolders.accounted_iff (Run.of_exec hrun)).mpr hkeeps⟩

/-- A second model is loaded while the first one is held: there are two holders and a count of
one, and what the first of them holds is freed. -/
theorem not_accounted_of_two_models : ∃ tr H,
    Run CacheHolders.step (.init 300) tr H ∧ H.held = [1, 0] ∧ H.cache.refCount = 1 ∧
      0 ∉ H.cache.live ∧ ¬ Throughout CacheHolders.Accounted tr H := by
  obtain ⟨tr, H, hrun, hheld, hcount, hfreed⟩ : ∃ tr H,
      exec CacheHolders.step (.init 300)
        [.acquire smallModel true, .acquire largeModel true] = some (tr, H) ∧
        H.held = [1, 0] ∧ H.cache.refCount = 1 ∧ 0 ∉ H.cache.live := ⟨_, _, rfl, by decide⟩
  refine ⟨tr, H, Run.of_exec hrun, hheld, hcount, hfreed, ?_⟩
  intro h
  exact hfreed (h.last.live 0 (by simp [hheld]))

end Demo

end JotaTranscriber
