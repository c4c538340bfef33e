import JotaTranscriber.Transition.Run

/-! # Projections of runs

A part of a system sees some of the events, and none of the others move it. A
run of the whole is then a run of the part, and what holds of all runs of the
part holds of the part in every run of the whole.
-/

namespace JotaTranscriber.Transition

variable {σ τ ε ε' : Type*} {step : σ → ε → Option σ} {step' : τ → ε' → Option τ}
  {π : σ → τ} {ρ : σ → ε → Option ε'} {s₀ s s' : σ} {e : ε} {tr tr' : List (σ × ε)}

/-- The events of a trace that the part sees, each with the state of the part. -/
def project (π : σ → τ) (ρ : σ → ε → Option ε') (tr : List (σ × ε)) : List (τ × ε') :=
  tr.filterMap fun p => (ρ p.1 p.2).map fun e => (π p.1, e)

/-- A step of the whole is a step of the part, or leaves the part as it is. -/
def Projects (step' : τ → ε' → Option τ) (π : σ → τ) (ρ : σ → ε → Option ε') (s : σ) (e : ε)
    (s' : σ) : Prop :=
  (ρ s e = none ∧ π s' = π s) ∨ ∃ e', ρ s e = some e' ∧ step' (π s) e' = some (π s')

theorem project_append : project π ρ (tr ++ tr') = project π ρ tr ++ project π ρ tr' :=
  List.filterMap_append

theorem project_singleton : project π ρ [(s, e)] = ((ρ s e).map fun e' => (π s, e')).toList := by
  cases h : ρ s e <;> simp [project, h]

/-- An event that the part sees is one of the whole. -/
theorem mem_project {p : τ × ε'} :
    p ∈ project π ρ tr ↔ ∃ q ∈ tr, π q.1 = p.1 ∧ ρ q.1 q.2 = some p.2 := by
  obtain ⟨t, e⟩ := p
  simp [project, and_comm]

theorem Run.project (h : Run step s₀ tr s)
    (hstep : ∀ p ∈ tr, ∀ s', step p.1 p.2 = some s' → Projects step' π ρ p.1 p.2 s') :
    Run step' (π s₀) (project π ρ tr) (π s) := by
  induction h with
  | nil => exact .nil
  | @snoc tr s s' e _ hs ih =>
    rw [List.forall_mem_append, List.forall_mem_singleton] at hstep
    rw [project_append, project_singleton]
    rcases hstep.2 s' hs with ⟨hnone, hsame⟩ | ⟨e', hsome, hs'⟩
    · rw [hnone, hsame]
      simpa using ih hstep.1
    · rw [hsome]
      exact (ih hstep.1).snoc hs'

end JotaTranscriber.Transition
