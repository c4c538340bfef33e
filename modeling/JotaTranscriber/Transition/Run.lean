import Mathlib.Data.List.Basic
import Mathlib.Logic.Function.Basic

/-! # Runs of a labelled transition function

A system is a partial function from a state and an event to the next state. A
run keeps its trace: every event taken, each with the state it was taken in.
Invariants are proved step by step; a condition on the steps of a run can
guard an invariant, or characterise the runs that never leave a property.
-/

namespace JotaTranscriber.Transition

variable {σ ε : Type*}

/-- `Run step s₀ tr s`: the events of the trace `tr` lead from `s₀` to `s`. -/
inductive Run (step : σ → ε → Option σ) (s₀ : σ) : List (σ × ε) → σ → Prop where
  | nil : Run step s₀ [] s₀
  | snoc {tr : List (σ × ε)} {s s' : σ} {e : ε} :
      Run step s₀ tr s → step s e = some s' → Run step s₀ (tr ++ [(s, e)]) s'

/-- The states some run from `s₀` ends in. -/
def Reachable (step : σ → ε → Option σ) (s₀ s : σ) : Prop := ∃ tr, Run step s₀ tr s

/-- Execute a list of events, keeping the trace. -/
def exec (step : σ → ε → Option σ) : σ → List ε → Option (List (σ × ε) × σ)
  | s, [] => some ([], s)
  | s, e :: es => (step s e).bind fun s' =>
      (exec step s' es).map fun r => ((s, e) :: r.1, r.2)

variable {step : σ → ε → Option σ} {s₀ s s' : σ} {tr tr' : List (σ × ε)} {e : ε}

theorem Run.single (h : step s e = some s') : Run step s [(s, e)] s' := .snoc .nil h

theorem Run.append (h : Run step s₀ tr s) (h' : Run step s tr' s') :
    Run step s₀ (tr ++ tr') s' := by
  induction h' with
  | nil => simpa using h
  | snoc _ hs ih => rw [← List.append_assoc]; exact .snoc ih hs

theorem Run.cons (h : step s₀ e = some s) (h' : Run step s tr s') :
    Run step s₀ ((s₀, e) :: tr) s' :=
  (Run.single h).append h'

theorem Run.of_exec {es : List ε} (h : exec step s₀ es = some (tr, s)) : Run step s₀ tr s := by
  induction es generalizing s₀ tr with
  | nil =>
    simp only [exec, Option.some.injEq, Prod.mk.injEq] at h
    obtain ⟨rfl, rfl⟩ := h
    exact .nil
  | cons e es ih =>
    obtain ⟨s', hs, h⟩ := Option.bind_eq_some_iff.mp h
    obtain ⟨r, hr, h⟩ := Option.map_eq_some_iff.mp h
    simp only [Prod.mk.injEq] at h
    obtain ⟨rfl, rfl⟩ := h
    exact .cons hs (ih hr)

/-- The trace of an execution takes its events. -/
theorem exec_events {es : List ε} (h : exec step s₀ es = some (tr, s)) :
    tr.map Prod.snd = es := by
  induction es generalizing s₀ tr with
  | nil =>
    simp only [exec, Option.some.injEq, Prod.mk.injEq] at h
    obtain ⟨rfl, -⟩ := h
    rfl
  | cons e es ih =>
    obtain ⟨s', hs, h⟩ := Option.bind_eq_some_iff.mp h
    obtain ⟨r, hr, h⟩ := Option.map_eq_some_iff.mp h
    simp only [Prod.mk.injEq] at h
    obtain ⟨rfl, rfl⟩ := h
    rw [List.map_cons, ih hr]

theorem Reachable.next (h : Reachable step s₀ s) (hs : step s e = some s') :
    Reachable step s₀ s' :=
  h.elim fun _ hr => ⟨_, .snoc hr hs⟩

theorem Reachable.run (h : Reachable step s₀ s) (hr : Run step s tr s') :
    Reachable step s₀ s' :=
  h.elim fun _ h₀ => ⟨_, h₀.append hr⟩

/-- A run can be cut at any step of its trace. -/
theorem Run.split_at {tr₁ tr₂ : List (σ × ε)} {s₁ : σ}
    (h : Run step s₀ (tr₁ ++ (s₁, e) :: tr₂) s) :
    ∃ s₂, Run step s₀ tr₁ s₁ ∧ step s₁ e = some s₂ ∧ Run step s₂ tr₂ s := by
  generalize htr : tr₁ ++ (s₁, e) :: tr₂ = tr at h
  induction h generalizing tr₂ with
  | nil => simp at htr
  | @snoc tr s s' e' hr hs ih =>
    rcases List.eq_nil_or_concat tr₂ with rfl | ⟨tr₂, p, rfl⟩
    · obtain ⟨rfl, hp⟩ := List.append_inj' htr rfl
      cases hp
      exact ⟨s', hr, hs, .nil⟩
    · rw [List.concat_eq_append] at htr ⊢
      rw [← List.cons_append, ← List.append_assoc] at htr
      obtain ⟨hpre, hlast⟩ := List.append_inj' htr rfl
      cases hlast
      obtain ⟨s₂, h₁, h₂, h₃⟩ := ih hpre
      exact ⟨s₂, h₁, h₂, .snoc h₃ hs⟩

theorem run_nil : Run step s₀ [] s ↔ s = s₀ := by
  constructor
  · intro h
    generalize htr : [] = tr at h
    cases h with
    | nil => rfl
    | snoc => simp at htr
  · rintro rfl
    exact .nil

theorem run_cons {p : σ × ε} : Run step s₀ (p :: tr) s ↔
    p.1 = s₀ ∧ ∃ s', step s₀ p.2 = some s' ∧ Run step s' tr s := by
  constructor
  · intro h
    have hrun : Run step s₀ ([] ++ (p.1, p.2) :: tr) s := h
    obtain ⟨s', hnil, hs, h'⟩ := hrun.split_at
    have heq := run_nil.mp hnil
    exact ⟨heq, s', heq ▸ hs, h'⟩
  · rintro ⟨rfl, s', hs, h'⟩
    exact .cons hs h'

theorem Run.step_of_mem {p : σ × ε} (h : Run step s₀ tr s) (hp : p ∈ tr) :
    ∃ s', step p.1 p.2 = some s' := by
  obtain ⟨tr₁, tr₂, rfl⟩ := List.append_of_mem hp
  obtain ⟨s', -, hs, -⟩ := h.split_at
  exact ⟨s', hs⟩

/-- What holds at the start and survives every step holds at the end of every run. -/
theorem Run.invariant {I : σ → Prop} (h : Run step s₀ tr s) (h₀ : I s₀)
    (hstep : ∀ s e s', I s → step s e = some s' → I s') : I s := by
  induction h with
  | nil => exact h₀
  | snoc _ hs ih => exact hstep _ _ _ ih hs

theorem Reachable.invariant {I : σ → Prop} (h : Reachable step s₀ s) (h₀ : I s₀)
    (hstep : ∀ s e s', I s → step s e = some s' → I s') : I s :=
  h.elim fun _ hr => hr.invariant h₀ hstep

/-- Every step of a trace meets `G`, which may look back at the trace before the step. -/
def EachStep (G : List (σ × ε) → σ → ε → Prop) (tr : List (σ × ε)) : Prop :=
  ∀ tr₁ s e tr₂, tr = tr₁ ++ (s, e) :: tr₂ → G tr₁ s e

theorem EachStep.of_forall {G : List (σ × ε) → σ → ε → Prop}
    (h : ∀ p ∈ tr, ∀ tr', G tr' p.1 p.2) : EachStep G tr := by
  rintro tr₁ s e tr₂ rfl
  exact h (s, e) (by simp) tr₁

theorem EachStep.and {G H : List (σ × ε) → σ → ε → Prop} (hG : EachStep G tr)
    (hH : EachStep H tr) : EachStep (fun tr s e => G tr s e ∧ H tr s e) tr :=
  fun tr₁ s e tr₂ h => ⟨hG tr₁ s e tr₂ h, hH tr₁ s e tr₂ h⟩

theorem EachStep.of_append {G : List (σ × ε) → σ → ε → Prop} (h : EachStep G (tr ++ tr')) :
    EachStep G tr := by
  rintro tr₁ s e tr₂ rfl
  exact h tr₁ s e (tr₂ ++ tr') (by simp)

theorem EachStep.last {G : List (σ × ε) → σ → ε → Prop} (h : EachStep G (tr ++ [(s, e)])) :
    G tr s e :=
  h tr s e [] rfl

theorem eachStep_snoc {G : List (σ × ε) → σ → ε → Prop} :
    EachStep G (tr ++ [(s, e)]) ↔ EachStep G tr ∧ G tr s e := by
  constructor
  · exact fun h => ⟨h.of_append, h.last⟩
  · rintro ⟨h, hlast⟩ tr₁ s₁ e₁ tr₂ htr
    rcases List.eq_nil_or_concat tr₂ with rfl | ⟨tr₂, q, rfl⟩
    · obtain ⟨rfl, hq⟩ := List.append_inj' htr rfl
      cases hq
      exact hlast
    · rw [List.concat_eq_append, ← List.cons_append, ← List.append_assoc] at htr
      exact h tr₁ s₁ e₁ tr₂ (List.append_inj' htr rfl).1

/-- A property of the trace and the state that every step meeting `G` preserves holds along the
runs all of whose steps meet `G`. -/
theorem Run.invariant_of_eachStep {I : List (σ × ε) → σ → Prop}
    {G : List (σ × ε) → σ → ε → Prop} (h : Run step s₀ tr s) (h₀ : I [] s₀)
    (hstep : ∀ tr s e s', Run step s₀ tr s → I tr s → G tr s e → step s e = some s' →
      I (tr ++ [(s, e)]) s')
    (hG : EachStep G tr) : I tr s := by
  induction h with
  | nil => exact h₀
  | snoc hr hs ih => exact hstep _ _ _ _ hr (ih hG.of_append) hG.last hs

/-- Every state a run visits meets `P`. -/
def Throughout (P : σ → Prop) (tr : List (σ × ε)) (s : σ) : Prop :=
  (∀ p ∈ tr, P p.1) ∧ P s

theorem Throughout.last {P : σ → Prop} (h : Throughout P tr s) : P s := h.2

/-- An invariant holds in every state a run visits. -/
theorem Run.throughout {I : σ → Prop} (h : Run step s₀ tr s) (h₀ : I s₀)
    (hstep : ∀ s e s', I s → step s e = some s' → I s') : Throughout I tr s := by
  induction h with
  | nil => exact ⟨by simp, h₀⟩
  | snoc _ hs ih =>
    constructor
    · intro p hp
      rcases List.mem_append.mp hp with hp | hp
      · exact ih.1 p hp
      · obtain rfl := List.mem_singleton.mp hp
        exact ih.2
    · exact hstep _ _ _ ih.2 hs

theorem throughout_snoc {P : σ → Prop} :
    Throughout P (tr ++ [(s, e)]) s' ↔ Throughout P tr s ∧ P s' := by
  simp only [Throughout, List.forall_mem_append, List.mem_singleton, forall_eq]

/-- Where a property of the trace that gets no truer as the trace grows says which states meet `P`,
a run meets `P` throughout if and only if its trace does. -/
theorem Run.throughout_iff_trace {P : σ → Prop} {Q : List (σ × ε) → Prop}
    (h : Run step s₀ tr s) (hiff : ∀ {tr s}, Run step s₀ tr s → (P s ↔ Q tr))
    (hmono : ∀ tr tr', Q (tr ++ tr') → Q tr) : Throughout P tr s ↔ Q tr := by
  constructor
  · exact fun hP => (hiff h).mp hP.last
  · intro hQ
    refine ⟨?_, (hiff h).mpr hQ⟩
    rintro ⟨s₁, e⟩ hp
    obtain ⟨tr₁, tr₂, rfl⟩ := List.append_of_mem hp
    obtain ⟨_, hrun, -⟩ := h.split_at
    exact (hiff hrun).mpr (hmono _ _ hQ)

/-- Where `G` says exactly which steps stay in `P`, a run stays in `P` throughout if and only
if all its steps meet `G`. The invariant `I` and the range `D` of the steps of the run may be used
to decide each step. -/
theorem Run.throughout_iff {I P : σ → Prop} {D G : σ → ε → Prop} (h : Run step s₀ tr s)
    (hI : I s₀) (hP : P s₀) (hD : ∀ p ∈ tr, D p.1 p.2)
    (hstep : ∀ s e s', I s → step s e = some s' → I s')
    (hexact : ∀ s e s', I s → P s → D s e → step s e = some s' → (P s' ↔ G s e)) :
    Throughout P tr s ↔ ∀ p ∈ tr, G p.1 p.2 := by
  induction h with
  | nil => simp [Throughout, hP]
  | @snoc tr s s' e hr hs ih =>
    rw [List.forall_mem_append, List.forall_mem_singleton] at hD
    rw [throughout_snoc, ih hD.1, List.forall_mem_append, List.forall_mem_singleton]
    apply and_congr_right
    intro ht
    exact hexact s e s' (hr.invariant hI hstep) ((ih hD.1).mpr ht).last hD.2 hs

/-- The same where `G` may look back at the trace before the step. -/
theorem Run.throughout_iff_eachStep {P : σ → Prop} {G : List (σ × ε) → σ → ε → Prop}
    (h : Run step s₀ tr s) (hP : P s₀)
    (hexact : ∀ tr s e s', Run step s₀ tr s → P s → step s e = some s' → (P s' ↔ G tr s e)) :
    Throughout P tr s ↔ EachStep G tr := by
  induction h with
  | nil =>
    apply iff_of_true ⟨by simp, hP⟩
    rintro tr₁ s e tr₂ htr
    simp at htr
  | @snoc tr s s' e hr hs ih =>
    rw [throughout_snoc, eachStep_snoc, ← ih]
    apply and_congr_right
    intro ht
    exact hexact tr s e s' hr ht.last hs

end JotaTranscriber.Transition
