import Mathlib.Algebra.Order.Ring.Int

/-! # The inference limiter

A counter of the slots in use, with its cap.
-/

namespace JotaTranscriber

structure InferenceLimiter where
  activeCount : ℤ := 0
  maxConcurrent : ℤ := 4
  deriving DecidableEq, Repr

namespace InferenceLimiter

def setMaxConcurrency (l : InferenceLimiter) (maxConcurrent : ℤ) : InferenceLimiter :=
  if 0 < maxConcurrent then { l with maxConcurrent } else l

def hasCapacity (l : InferenceLimiter) : Bool := l.activeCount < l.maxConcurrent

def tryAcquire (l : InferenceLimiter) : InferenceLimiter × Bool :=
  if l.activeCount < l.maxConcurrent then ({ l with activeCount := l.activeCount + 1 }, true)
  else (l, false)

def release (l : InferenceLimiter) : InferenceLimiter :=
  if 0 < l.activeCount then { l with activeCount := l.activeCount - 1 } else l

theorem tryAcquire_cases (l : InferenceLimiter) :
    (l.activeCount < l.maxConcurrent ∧
        l.tryAcquire = ({ l with activeCount := l.activeCount + 1 }, true)) ∨
      (l.maxConcurrent ≤ l.activeCount ∧ l.tryAcquire = (l, false)) := by
  unfold tryAcquire
  split
  · exact .inl ⟨‹_›, rfl⟩
  · exact .inr ⟨by omega, rfl⟩

/-- The limit is never below one. -/
theorem setMaxConcurrency_pos (n : ℤ) : 0 < (setMaxConcurrency {} n).maxConcurrent := by
  unfold setMaxConcurrency
  split
  · assumption
  · decide

theorem release_of_pos {l : InferenceLimiter} (h : 0 < l.activeCount) :
    l.release = { l with activeCount := l.activeCount - 1 } := if_pos h

end InferenceLimiter

end JotaTranscriber
