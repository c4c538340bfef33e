import Mathlib.Data.List.Count
import JotaTranscriber.Transition.Run

/-! # Steps that use up a measure

Where each step of a kind uses up a part of a measure and no step adds to it, a
run has no more steps of the kind than the measure was at its start, whatever
other steps come between them.
-/

namespace JotaTranscriber.Transition

variable {σ ε : Type*} {step : σ → ε → Option σ} {s s' : σ} {tr : List (σ × ε)}

theorem Run.countP_le {I : σ → Prop} {A : σ × ε → Bool} {μ : σ → ℕ} (h : Run step s tr s')
    (h₀ : I s) (hI : ∀ s e s', I s → step s e = some s' → I s')
    (hμ : ∀ s e s', I s → step s e = some s' → μ s' + (if A (s, e) = true then 1 else 0) ≤ μ s) :
    tr.countP A + μ s' ≤ μ s := by
  induction h with
  | nil => simp
  | @snoc tr s₁ s₂ e hr hs ih =>
    have hstep := hμ s₁ e s₂ (hr.invariant h₀ hI) hs
    rw [List.countP_append, List.countP_singleton]
    omega

/-- A run all of whose steps are of the kind is no longer than the measure. -/
theorem Run.length_le {I : σ → Prop} {μ : σ → ℕ} (h : Run step s tr s') (h₀ : I s)
    (hI : ∀ s e s', I s → step s e = some s' → I s')
    (hμ : ∀ s e s', I s → step s e = some s' → μ s' + 1 ≤ μ s) : tr.length + μ s' ≤ μ s := by
  rw [← List.countP_true]
  exact h.countP_le h₀ hI fun s e s' hs hstep => by simpa using hμ s e s' hs hstep

end JotaTranscriber.Transition
