import JotaTranscriber.Server.Basic
import JotaTranscriber.Transition.Projection

/-! # Some of the sessions of a server

A server never looks at the sessions that take no step: the sessions that a run
is about can be renamed, and the others left out. A run with no bound on the
sessions is so a run with finitely many.
-/

namespace JotaTranscriber

open Transition

variable {ι κ : Type*}

namespace ServerEvent

/-- The session that takes the step, if any does. -/
def session : ServerEvent ι → Option ι
  | thread i _ | acquire i _ | flushLock i _ | flushReturn i _ | releaseModel i _ => some i
  | fire _ => none

def map (f : κ → ι) : ServerEvent κ → ServerEvent ι
  | thread i ev => thread (f i) ev
  | acquire i loads => acquire (f i) loads
  | flushLock i now => flushLock (f i) now
  | flushReturn i whisper => flushReturn (f i) whisper
  | releaseModel i now => releaseModel (f i) now
  | fire timer => fire timer

/-- The event among the first `n` sessions. -/
def restrict (n : ℕ) : ServerEvent ℕ → Option (ServerEvent (Fin n))
  | thread i ev => if h : i < n then some (thread ⟨i, h⟩ ev) else none
  | acquire i loads => if h : i < n then some (acquire ⟨i, h⟩ loads) else none
  | flushLock i now => if h : i < n then some (flushLock ⟨i, h⟩ now) else none
  | flushReturn i whisper => if h : i < n then some (flushReturn ⟨i, h⟩ whisper) else none
  | releaseModel i now => if h : i < n then some (releaseModel ⟨i, h⟩ now) else none
  | fire timer => some (fire timer)

theorem exists_restrict {n : ℕ} {ev : ServerEvent ℕ} (h : ∀ i, ev.session = some i → i < n) :
    ∃ ev', ev.restrict n = some ev' ∧ ev'.map Fin.val = ev := by
  cases ev with
  | fire timer => exact ⟨.fire timer, rfl, rfl⟩
  | _ =>
    have hi := h _ rfl
    exact ⟨_, dif_pos hi, rfl⟩

end ServerEvent

namespace Server

/-- The sessions that `f` names, with the cache and the limiter of all. -/
def comap (f : κ → ι) (S : Server ι) : Server κ where
  sessions k := S.sessions (f k)
  cache := S.cache
  limiter := S.limiter
  terminated := S.terminated

variable {f : κ → ι}

theorem comap_congr {sessions : ι → Threads} {sessions' : κ → Threads} {cache : ModelCache}
    {limiter : InferenceLimiter} {terminated : Bool} (h : ∀ k, sessions (f k) = sessions' k) :
    comap f ⟨sessions, cache, limiter, terminated⟩ = ⟨sessions', cache, limiter, terminated⟩ := by
  obtain rfl : (fun k => sessions (f k)) = sessions' := funext h
  rfl

theorem map_comap {x : Option Threads} {g : Threads → Server ι} {g' : Threads → Server κ}
    (h : ∀ t, (g t).comap f = g' t) : x.map g' = (x.map g).map (comap f) := by
  rw [Option.map_map]
  exact congrArg (Option.map · x) (funext fun t => (h t).symm)

variable [DecidableEq ι] [DecidableEq κ] {P : Platform} {S : Server ι}

theorem update_comap (hf : Function.Injective f) (k j : κ) (t : Threads) :
    Function.update S.sessions (f k) t (f j) = Function.update (S.comap f).sessions k t j :=
  congrFun (Function.update_comp_eq_of_injective S.sessions hf k t) j

/-- The sessions that are named step as they do among all. -/
theorem step_comap (hf : Function.Injective f) (ev : ServerEvent κ) :
    (S.comap f).step P ev = (S.step P (ev.map f)).map (comap f) := by
  unfold step
  change (if S.terminated = true then none else _) = _
  split
  · rfl
  -- each event replaces one session, and the renaming goes through the replacement
  cases ev with
  | thread k ev =>
    simp only [ServerEvent.map]
    split
    · rfl
    · exact map_comap fun t => comap_congr fun j => update_comap hf k j t
  | acquire k loads => exact map_comap fun t => comap_congr fun j => update_comap hf k j t
  | flushLock k now =>
    simp only [ServerEvent.map]
    change (if (S.sessions (f k)).asksSlot now = true then _ else _) = _
    split
    · exact map_comap fun t => comap_congr fun j => update_comap hf k j t
    · exact map_comap fun t => comap_congr fun j => update_comap hf k j t
  | flushReturn k whisper =>
    refine map_comap fun t => ?_
    dsimp only
    split <;> exact comap_congr fun j => update_comap hf k j t
  | releaseModel k now => exact map_comap fun t => comap_congr fun j => update_comap hf k j t
  | fire timer =>
    simp only [ServerEvent.map]
    change (if timer ∈ S.cache.timers then _ else _) = _
    split <;> rfl

variable {n : ℕ} {S₀ S₁ : Server ℕ} {ev : ServerEvent ℕ} {tr : List (Server ℕ × ServerEvent ℕ)}

/-- The trace of the first `n` sessions. -/
def restrictTrace (n : ℕ) : List (Server ℕ × ServerEvent ℕ) →
    List (Server (Fin n) × ServerEvent (Fin n)) :=
  project (comap Fin.val) fun _ ev => ev.restrict n

/-- A run in which only the first `n` sessions take steps is a run of a server with these. -/
theorem run_restrict (hrun : Run (step P) S₀ tr S₁)
    (hlt : ∀ p ∈ tr, ∀ i, p.2.session = some i → i < n) :
    Run (step P) (S₀.comap Fin.val) (restrictTrace n tr) (S₁.comap (Fin.val : Fin n → ℕ)) := by
  refine hrun.project fun p hp s' hs => ?_
  obtain ⟨ev', hev', hmap⟩ := ServerEvent.exists_restrict (hlt p hp)
  refine .inr ⟨ev', hev', ?_⟩
  rw [step_comap Fin.val_injective, hmap, hs]
  rfl

end Server

end JotaTranscriber
