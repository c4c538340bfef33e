import JotaTranscriber.Family.Count

/-! # Waiting on a condition variable

Threads that wait for units of a resource, under a lock that makes each of
their operations one step. A wakeup is lost when a thread sleeps on although a
unit is free that nobody has been woken for. It is enough to notify one
sleeper for each unit given back, all of them whenever the resource grows in
another way, and to go to sleep only while nothing is free.
-/

namespace JotaTranscriber.Waiting

/-- Where a thread stands with the condition variable. -/
inductive Waiter where
  /-- It is not in `wait`. -/
  | running
  | asleep
  /-- A notification has unblocked it, and it has not run since. -/
  | notified
  /-- It was unblocked spuriously, and has not run since. -/
  | woken
  deriving DecidableEq, Repr

variable {ι : Type*}

/-- The thread `notify_one` unblocks: one that sleeps, or none if nobody does. -/
def Picks (w : ι → Waiter) : Option ι → Prop
  | some i => w i = .asleep
  | none => ∀ i, w i ≠ .asleep

instance [Fintype ι] (w : ι → Waiter) : DecidablePred (Picks w)
  | some i => inferInstanceAs (Decidable (w i = .asleep))
  | none => inferInstanceAs (Decidable (∀ i, w i ≠ .asleep))

def notifyOne [DecidableEq ι] (w : ι → Waiter) (pick : Option ι) : ι → Waiter :=
  match pick with
  | some i => Function.update w i .notified
  | none => w

def notifyAll (w : ι → Waiter) (i : ι) : Waiter :=
  if w i = .asleep then .notified else w i

variable [Fintype ι]

/-- The number of threads that have been notified and have not run since. -/
def pending (w : ι → Waiter) : ℕ := Family.count (· = Waiter.notified) w

/-- While a thread sleeps, there are no more free units than threads notified for them. -/
def NoLostWakeup (free : ℤ) (w : ι → Waiter) : Prop :=
  (∃ i, w i = .asleep) → free ≤ pending w

variable {w : ι → Waiter} {free free' : ℤ} {i : ι} {a : Waiter}

theorem noLostWakeup_of_forall (h : ∀ i, w i ≠ .asleep) : NoLostWakeup free w := by
  rintro ⟨i, hi⟩
  exact absurd hi (h i)

theorem noLostWakeup_of_nonpos (h : free ≤ 0) : NoLostWakeup free w := fun _ =>
  h.trans (Int.natCast_nonneg _)

/-- Fewer free units need no more wakeups. -/
theorem NoLostWakeup.mono (h : NoLostWakeup free w) (hle : free' ≤ free) : NoLostWakeup free' w :=
  fun hsleep => hle.trans (h hsleep)

theorem noLostWakeup_notifyAll : NoLostWakeup free (notifyAll w) := by
  apply noLostWakeup_of_forall
  intro i
  unfold notifyAll
  split
  · decide
  · assumption

variable [DecidableEq ι]

omit [Fintype ι] in
/-- Nobody is put to sleep by another place than `asleep`. -/
theorem exists_asleep_of_update (ha : a ≠ .asleep)
    (h : ∃ j, Function.update w i a j = .asleep) : ∃ j, w j = .asleep := by
  obtain ⟨j, hj⟩ := h
  rcases eq_or_ne j i with rfl | hne
  · rw [Function.update_self] at hj
    exact absurd hj ha
  · rw [Function.update_of_ne hne] at hj
    exact ⟨j, hj⟩

/-- A unit is given back and a sleeper notified. -/
theorem NoLostWakeup.notifyOne (h : NoLostWakeup free w) {pick : Option ι} (hp : Picks w pick) :
    NoLostWakeup (free + 1) (notifyOne w pick) := by
  cases pick with
  | none => exact noLostWakeup_of_forall hp
  | some i =>
    intro hsleep
    have hbefore := h ⟨i, hp⟩
    have hcount : pending (Function.update w i .notified) = pending w + 1 :=
      Family.count_update_enter (by rw [show w i = _ from hp]; decide) rfl
    rw [Waiting.notifyOne, hcount]
    push_cast
    omega

/-- A notified thread runs and takes one of the free units. -/
theorem NoLostWakeup.resume (h : NoLostWakeup free w) (hi : w i = .notified) :
    NoLostWakeup (free - 1) (Function.update w i .running) := by
  intro hsleep
  have hbefore := h (exists_asleep_of_update (by decide) hsleep)
  have hcount : pending (Function.update w i .running) + 1 = pending w :=
    Family.count_update_leave hi (by decide)
  omega

/-- A thread that nobody has notified changes its place, without going to sleep. -/
theorem NoLostWakeup.update (h : NoLostWakeup free w) (hi : w i ≠ .notified)
    (hasleep : a ≠ .asleep) (ha : a ≠ .notified) :
    NoLostWakeup free (Function.update w i a) := by
  intro hsleep
  have hbefore := h (exists_asleep_of_update hasleep hsleep)
  have hcount : pending (Function.update w i a) = pending w :=
    Family.count_update_of_iff (iff_of_false ha hi)
  rwa [hcount]

end JotaTranscriber.Waiting
