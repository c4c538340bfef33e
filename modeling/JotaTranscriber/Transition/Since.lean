import Mathlib.Data.List.Count
import Mathlib.Data.List.Induction
import JotaTranscriber.Transition.Run

/-! # What has held since a step

The past-time operator on traces: a step of a kind was taken, and a property of
the states has held ever since. A signal that is given for a step exactly if it
has not been given since is given exactly once in each stretch of the property.
-/

namespace JotaTranscriber.Transition

variable {σ ε : Type*}

/-- A step meeting `W` was taken, and every state from the next one to the present one `s` meets
`P`. -/
def Since (W : σ → ε → Prop) (P : σ → Prop) (tr : List (σ × ε)) (s : σ) : Prop :=
  P s ∧ ∃ tr₁ p tr₂, tr = tr₁ ++ p :: tr₂ ∧ W p.1 p.2 ∧ ∀ q ∈ tr₂, P q.1

variable {step : σ → ε → Option σ} {W D : σ → ε → Prop} {P : σ → Prop}
  {tr tr₁ tr₂ : List (σ × ε)} {s s' s₀ : σ} {e e₀ : ε}

theorem since_snoc : Since W P (tr ++ [(s, e)]) s' ↔ P s' ∧ (W s e ∨ Since W P tr s) := by
  unfold Since
  apply and_congr_right
  intro _
  constructor
  · rintro ⟨tr₁, p, tr₂, htr, hp, hall⟩
    rcases List.eq_nil_or_concat tr₂ with rfl | ⟨tr₂, q, rfl⟩
    · obtain ⟨rfl, hq⟩ := List.append_inj' htr rfl
      cases hq
      exact .inl hp
    · rw [List.concat_eq_append] at htr hall
      rw [← List.cons_append, ← List.append_assoc] at htr
      obtain ⟨hpre, hlast⟩ := List.append_inj' htr rfl
      cases hlast
      rw [List.forall_mem_append, List.forall_mem_singleton] at hall
      exact .inr ⟨hall.2, tr₁, p, tr₂, hpre, hp, hall.1⟩
  · rintro (h | ⟨hs, tr₁, p, tr₂, rfl, hp, hall⟩)
    · exact ⟨tr, (s, e), [], rfl, h, by simp⟩
    · refine ⟨tr₁, p, tr₂ ++ [(s, e)], by simp, hp, ?_⟩
      rw [List.forall_mem_append, List.forall_mem_singleton]
      exact ⟨hall, hs⟩

/-- A stretch of `P` looks back no further than to the state before it. -/
theorem since_iff_of_not (hW : ∀ s e, W s e → P s) (h₀ : ¬ P s₀) (hs : P s)
    (hall : ∀ q ∈ tr₂, P q.1) :
    Since W P (tr₁ ++ (s₀, e₀) :: tr₂) s ↔ ∃ q ∈ tr₂, W q.1 q.2 := by
  induction tr₂ using List.reverseRecOn generalizing s with
  | nil =>
    rw [since_snoc]
    apply iff_of_false _ (by simp)
    rintro ⟨-, h | h⟩
    · exact h₀ (hW _ _ h)
    · exact h₀ h.1
  | append_singleton tr₂ q ih =>
    rw [List.forall_mem_append, List.forall_mem_singleton] at hall
    rw [← List.cons_append, ← List.append_assoc, since_snoc, ih hall.2 hall.1]
    simp [hs, or_comm, or_and_right, exists_or]

/-- Conditions on the steps of a run that agree with one on the steps alone. -/
theorem Run.eachStep_iff {G : List (σ × ε) → σ → ε → Prop} {Q : σ → ε → Prop}
    (h : Run step s₀ tr s)
    (hiff : ∀ tr₁ s₁ e tr₂, tr = tr₁ ++ (s₁, e) :: tr₂ → Run step s₀ tr₁ s₁ →
      (G tr₁ s₁ e ↔ Q s₁ e)) : EachStep G tr ↔ ∀ p ∈ tr, Q p.1 p.2 := by
  constructor
  · rintro hG ⟨s₁, e⟩ hp
    obtain ⟨tr₁, tr₂, rfl⟩ := List.append_of_mem hp
    obtain ⟨_, hrun, -⟩ := h.split_at
    exact (hiff tr₁ s₁ e tr₂ rfl hrun).mp (hG tr₁ s₁ e tr₂ rfl)
  · rintro hQ tr₁ s₁ e tr₂ rfl
    obtain ⟨_, hrun, -⟩ := h.split_at
    exact (hiff tr₁ s₁ e tr₂ rfl hrun).mpr (hQ (s₁, e) (by simp))

section Once

variable {B : σ → ε → Bool}

/-- The signal `B` is given for the steps meeting `D` before which it was not given since, and no
others. -/
def Edge (D : σ → ε → Prop) (P : σ → Prop) (B : σ → ε → Bool) (tr : List (σ × ε)) (s : σ)
    (e : ε) : Prop :=
  B s e = true ↔ D s e ∧ ¬ Since (fun s e => B s e = true) P tr s

/-- In a stretch of `P` with a step meeting `D` the signal is given exactly once. -/
theorem EachStep.countP_eq_one (h : EachStep (Edge D P B) (tr₁ ++ (s₀, e₀) :: tr₂))
    (hB : ∀ s e, B s e = true → P s) (h₀ : ¬ P s₀) (hall : ∀ q ∈ tr₂, P q.1) :
    tr₂.countP (fun q => B q.1 q.2) ≤ 1 ∧
      ((∃ q ∈ tr₂, D q.1 q.2) → tr₂.countP (fun q => B q.1 q.2) = 1) := by
  induction tr₂ using List.reverseRecOn with
  | nil => simp
  | append_singleton tr₂ q ih =>
    obtain ⟨s, e⟩ := q
    rw [List.forall_mem_append, List.forall_mem_singleton] at hall
    rw [← List.cons_append, ← List.append_assoc] at h
    obtain ⟨hle, hone⟩ := ih h.of_append hall.1
    have hlast : B s e = true ↔ D s e ∧ ¬ ∃ q ∈ tr₂, B q.1 q.2 = true := by
      have hsince : Since (fun s e => B s e = true) P (tr₁ ++ (s₀, e₀) :: tr₂) s ↔
          ∃ q ∈ tr₂, B q.1 q.2 = true := since_iff_of_not hB h₀ hall.2 hall.1
      rw [← hsince]
      exact h.last
    cases hgiven : B s e with
    | true =>
      obtain ⟨-, hnone⟩ := hlast.mp hgiven
      have hzero : tr₂.countP (fun q => B q.1 q.2) = 0 := by
        rw [List.countP_eq_zero]
        intro q hq hBq
        exact hnone ⟨q, hq, hBq⟩
      simp [hgiven, hzero]
    | false =>
      have hkeep : (tr₂ ++ [(s, e)]).countP (fun q => B q.1 q.2) =
          tr₂.countP (fun q => B q.1 q.2) := by simp [hgiven]
      rw [hkeep]
      refine ⟨hle, ?_⟩
      rintro ⟨q, hq, hDq⟩
      rcases List.mem_append.mp hq with hq | hq
      · exact hone ⟨q, hq, hDq⟩
      · -- a silent step meeting `D`: the signal was given before
        obtain rfl := List.mem_singleton.mp hq
        have hsome : ∃ q ∈ tr₂, B q.1 q.2 = true := by
          by_contra hnone
          have := hlast.mpr ⟨hDq, hnone⟩
          rw [hgiven] at this
          cases this
        have hpos := List.countP_pos_iff.mpr hsome
        omega

end Once

end JotaTranscriber.Transition
