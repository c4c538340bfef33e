import JotaTranscriber.Transition.Run
import JotaTranscriber.Waiting.CondVar
import JotaTranscriber.Whisper.InferenceLimiter

/-! # The threads at the inference limiter

Any number of threads that acquire slots, blocking or not, and release them,
while the limit is raised and lowered. Each operation runs under the mutex of
the limiter and is one step; a blocked `acquire` sleeps on the condition
variable, and looks at its predicate again when it is unblocked.
-/

namespace JotaTranscriber

open Transition Waiting

structure LimiterThreads (ι : Type*) where
  limiter : InferenceLimiter := {}
  waiter : ι → Waiter
  /-- The slots each thread holds. -/
  held : ι → ℕ

inductive LimiterCall (ι : Type*) where
  /-- `acquire`, up to the first look at the predicate. -/
  | acquire (i : ι)
  /-- A thread that was unblocked in `acquire` has the mutex again. -/
  | resume (i : ι)
  /-- A sleeping thread is unblocked though nobody notified it. -/
  | spurious (i : ι)
  | tryAcquire (i : ι)
  /-- `release` by a thread with a slot; `notify_one` unblocks `pick`. -/
  | release (i : ι) (pick : Option ι)
  | setMaxConcurrency (maxConcurrent : ℤ)

namespace LimiterThreads

variable {ι : Type*}

def init : LimiterThreads ι where
  waiter _ := .running
  held _ := 0

variable [DecidableEq ι]

/-- The thread `i` holds one slot more, and is not in `wait`. -/
def grant (S : LimiterThreads ι) (i : ι) : LimiterThreads ι where
  limiter := { S.limiter with activeCount := S.limiter.activeCount + 1 }
  waiter := Function.update S.waiter i .running
  held := Function.update S.held i (S.held i + 1)

/-- `acquire` at the predicate of its `wait`. -/
def look (S : LimiterThreads ι) (i : ι) : LimiterThreads ι :=
  if S.limiter.hasCapacity then S.grant i
  else { S with waiter := Function.update S.waiter i .asleep }

def step [Fintype ι] (S : LimiterThreads ι) : LimiterCall ι → Option (LimiterThreads ι)
  | .acquire i => if S.waiter i = .running then some (S.look i) else none
  | .resume i =>
    if S.waiter i = .notified ∨ S.waiter i = .woken then some (S.look i) else none
  | .spurious i =>
    if S.waiter i = .asleep then some { S with waiter := Function.update S.waiter i .woken }
    else none
  | .tryAcquire i =>
    if S.waiter i = .running then
      match S.limiter.tryAcquire with
      | (limiter, true) => some { S with limiter, held := Function.update S.held i (S.held i + 1) }
      | (limiter, false) => some { S with limiter }
    else none
  | .release i pick =>
    if S.waiter i = .running ∧ 0 < S.held i ∧ Picks S.waiter pick then
      some
        { limiter := S.limiter.release
          waiter := if 0 < S.limiter.activeCount then notifyOne S.waiter pick else S.waiter
          held := Function.update S.held i (S.held i - 1) }
    else none
  | .setMaxConcurrency maxConcurrent =>
    some { S with
      limiter := S.limiter.setMaxConcurrency maxConcurrent
      waiter := if 0 < maxConcurrent then notifyAll S.waiter else S.waiter }

/-- The slots that are free; negative when the limit was lowered below the slots in use. -/
def free (S : LimiterThreads ι) : ℤ := S.limiter.maxConcurrent - S.limiter.activeCount

variable [Fintype ι] {S S' : LimiterThreads ι} {call : LimiterCall ι}
  {i j : ι} {tr : List (LimiterThreads ι × LimiterCall ι)}

omit [Fintype ι] [DecidableEq ι] in
theorem hasCapacity_iff : S.limiter.hasCapacity = true ↔ 0 < S.free := by
  rw [InferenceLimiter.hasCapacity, free, decide_eq_true_eq, Int.sub_pos]

/-- The limiter counts the slots held, and no thread sleeps on while a slot is free that nobody was
woken for. -/
structure Sound (S : LimiterThreads ι) : Prop where
  counted : S.limiter.activeCount = ∑ i, S.held i
  awake : NoLostWakeup S.free S.waiter

omit [DecidableEq ι] in
theorem sound_init : Sound (init : LimiterThreads ι) where
  counted := by simp [init]
  awake := noLostWakeup_of_forall fun _ => by simp [init]

omit [DecidableEq ι] in
theorem Sound.activeCount_pos (h : Sound S) (hi : 0 < S.held i) : 0 < S.limiter.activeCount := by
  have hle : S.held i ≤ ∑ j, S.held j :=
    Finset.single_le_sum (fun j _ => Nat.zero_le (S.held j)) (Finset.mem_univ i)
  rw [h.counted]
  omega

/-- A thread takes a slot and counts for it. -/
theorem sum_held_take (i : ι) :
    ∑ j, Function.update S.held i (S.held i + 1) j = ∑ j, S.held j + 1 := by
  have := Family.sum_update (f := S.held) (i := i) (a := S.held i + 1) id
  simp only [id] at this
  omega

theorem sum_held_return (hi : 0 < S.held i) :
    ∑ j, Function.update S.held i (S.held i - 1) j + 1 = ∑ j, S.held j := by
  have := Family.sum_update (f := S.held) (i := i) (a := S.held i - 1) id
  simp only [id] at this
  omega

theorem Sound.look (h : Sound S) (i : ι) : Sound (S.look i) := by
  unfold LimiterThreads.look
  split
  · constructor
    · have := h.counted
      simp only [grant, sum_held_take, Nat.cast_add, Nat.cast_one]
      omega
    · have hfree : (S.grant i).free = S.free - 1 := by
        simp only [free, grant]
        omega
      rw [hfree]
      by_cases hn : S.waiter i = .notified
      · exact h.awake.resume hn
      · exact (h.awake.update hn (by decide) (by decide)).mono (by omega)
  · rename_i hfull
    rw [hasCapacity_iff] at hfull
    exact ⟨h.counted, noLostWakeup_of_nonpos (not_lt.mp hfull)⟩

theorem Sound.tryAcquire (h : Sound S) (hs : S.step (.tryAcquire i) = some S') : Sound S' := by
  simp only [step, Option.ite_none_right_eq_some] at hs
  obtain ⟨-, hs⟩ := hs
  rcases S.limiter.tryAcquire_cases with ⟨-, hacq⟩ | ⟨-, hacq⟩
  · rw [hacq] at hs
    obtain rfl := Option.some.inj hs
    constructor
    · have := h.counted
      simp only [sum_held_take, Nat.cast_add, Nat.cast_one]
      omega
    · exact h.awake.mono (by simp only [free]; omega)
  · rw [hacq] at hs
    obtain rfl := Option.some.inj hs
    exact h

theorem Sound.release (h : Sound S) {pick : Option ι}
    (hs : S.step (.release i pick) = some S') : Sound S' := by
  simp only [step, Option.ite_none_right_eq_some, Option.some.injEq] at hs
  obtain ⟨⟨-, hheld, hpick⟩, rfl⟩ := hs
  have hpos := h.activeCount_pos hheld
  rw [if_pos hpos, InferenceLimiter.release_of_pos hpos]
  constructor
  · have hsum := sum_held_return hheld
    have := h.counted
    simp only
    omega
  · have hfree : S.limiter.maxConcurrent - (S.limiter.activeCount - 1) = S.free + 1 := by
      simp only [free]
      omega
    simp only [free, hfree]
    exact h.awake.notifyOne hpick

theorem Sound.setMaxConcurrency (h : Sound S) {n : ℤ}
    (hs : S.step (.setMaxConcurrency n) = some S') : Sound S' := by
  obtain rfl := Option.some.inj hs
  by_cases hn : 0 < n
  · simp only [hn, if_true, InferenceLimiter.setMaxConcurrency]
    exact ⟨h.counted, noLostWakeup_notifyAll⟩
  · simp only [hn, if_false, InferenceLimiter.setMaxConcurrency]
    exact h

theorem Sound.step (h : Sound S) (hs : S.step call = some S') : Sound S' := by
  cases call with
  | acquire i =>
    simp only [LimiterThreads.step, Option.ite_none_right_eq_some, Option.some.injEq] at hs
    obtain ⟨-, rfl⟩ := hs
    exact h.look i
  | resume i =>
    simp only [LimiterThreads.step, Option.ite_none_right_eq_some, Option.some.injEq] at hs
    obtain ⟨-, rfl⟩ := hs
    exact h.look i
  | spurious i =>
    simp only [LimiterThreads.step, Option.ite_none_right_eq_some, Option.some.injEq] at hs
    obtain ⟨hi, rfl⟩ := hs
    exact ⟨h.counted, h.awake.update (by rw [hi]; decide) (by decide) (by decide)⟩
  | tryAcquire i => exact h.tryAcquire hs
  | release i pick => exact h.release hs
  | setMaxConcurrency n => exact h.setMaxConcurrency hs

omit [Fintype ι] in
theorem capacity_of_look (hlt : S.held i < (S.look j).held i) :
    S.limiter.activeCount < S.limiter.maxConcurrent := by
  unfold look at hlt
  split at hlt
  · rename_i hcapacity
    simpa [InferenceLimiter.hasCapacity] using hcapacity
  · exact absurd hlt (lt_irrefl _)

/-- A step gives a slot to a thread only below the limit. -/
theorem capacity_of_grant (hs : S.step call = some S') (hlt : S.held i < S'.held i) :
    S.limiter.activeCount < S.limiter.maxConcurrent := by
  cases call with
  | acquire j | resume j =>
    simp only [step, Option.ite_none_right_eq_some, Option.some.injEq] at hs
    obtain ⟨-, rfl⟩ := hs
    exact capacity_of_look hlt
  | spurious j =>
    simp only [step, Option.ite_none_right_eq_some, Option.some.injEq] at hs
    obtain ⟨-, rfl⟩ := hs
    exact absurd hlt (lt_irrefl _)
  | tryAcquire j =>
    simp only [step, Option.ite_none_right_eq_some] at hs
    obtain ⟨-, hs⟩ := hs
    rcases S.limiter.tryAcquire_cases with ⟨hcapacity, -⟩ | ⟨-, hacq⟩
    · exact hcapacity
    · rw [hacq] at hs
      obtain rfl := Option.some.inj hs
      exact absurd hlt (lt_irrefl _)
  | release j pick =>
    simp only [step, Option.ite_none_right_eq_some, Option.some.injEq] at hs
    obtain ⟨-, rfl⟩ := hs
    rcases eq_or_ne i j with rfl | hne
    · simp only [Function.update_self] at hlt
      omega
    · simp only [Function.update_of_ne hne] at hlt
      exact absurd hlt (lt_irrefl _)
  | setMaxConcurrency n =>
    obtain rfl := Option.some.inj hs
    exact absurd hlt (lt_irrefl _)

/-- In every run the limiter counts the slots held, a slot is given only below the limit, and while
a thread sleeps with no wakeup pending there are no more free slots than threads that were notified
and have not run yet. -/
theorem sound_of_run (hrun : Run step (init : LimiterThreads ι) tr S) :
    S.limiter.activeCount = ∑ i, S.held i ∧
      (∀ p ∈ tr, ∀ S' i, p.1.step p.2 = some S' → p.1.held i < S'.held i →
        p.1.limiter.activeCount < p.1.limiter.maxConcurrent) ∧
      ((∃ i, S.waiter i = .asleep) →
        S.limiter.maxConcurrent - S.limiter.activeCount ≤ pending S.waiter) := by
  have hsound : Sound S := hrun.invariant sound_init fun _ _ _ h hs => h.step hs
  refine ⟨hsound.counted, ?_, hsound.awake⟩
  intro p _ S' i hs hlt
  exact capacity_of_grant hs hlt

end LimiterThreads

namespace Demo

/-- Two threads wait for the one slot of a third, which gives it back. -/
def releaseCalls : List (LimiterCall (Fin 3)) :=
  [.setMaxConcurrency 1, .acquire 0, .acquire 1, .acquire 2, .release 0 (some 1)]

theorem sound_of_release : ∃ tr S,
    exec LimiterThreads.step (LimiterThreads.init : LimiterThreads (Fin 3)) releaseCalls =
      some (tr, S) ∧ S.waiter 2 = .asleep ∧
      S.limiter.maxConcurrent - S.limiter.activeCount ≤ pending S.waiter := by
  obtain ⟨tr, S, hrun, hsleep⟩ : ∃ tr S,
      exec LimiterThreads.step (LimiterThreads.init : LimiterThreads (Fin 3)) releaseCalls =
        some (tr, S) ∧ S.waiter 2 = .asleep := ⟨_, _, rfl, rfl⟩
  exact ⟨tr, S, hrun, hsleep, (LimiterThreads.sound_of_run (.of_exec hrun)).2.2 ⟨2, hsleep⟩⟩

end Demo

end JotaTranscriber
