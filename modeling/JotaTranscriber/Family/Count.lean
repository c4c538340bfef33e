import Mathlib.Algebra.BigOperators.Group.Finset.Piecewise
import Mathlib.Algebra.Order.BigOperators.Group.Finset
import Mathlib.Data.Fintype.Basic
import Mathlib.Tactic.Abel

/-! # Counting the members of a family

The number of members of a finite family that meet a predicate, and how it
moves when one member is replaced. A shared counter is right when it equals
such a number: each step replaces one member and moves the counter by the
same amount.
-/

namespace JotaTranscriber.Family

variable {ι α : Type*} [Fintype ι]
variable (p : α → Prop) [DecidablePred p]

/-- The number of members of `f` that meet `p`. -/
def count (f : ι → α) : ℕ := ∑ i, if p (f i) then 1 else 0

/-- The number of members of `f` other than the `i`-th that meet `p`. -/
def others [DecidableEq ι] (f : ι → α) (i : ι) : ℕ :=
  ∑ j ∈ Finset.univ.erase i, if p (f j) then 1 else 0

variable {p} {f : ι → α} {i : ι} {a : α}

theorem count_eq_zero_iff : count p f = 0 ↔ ∀ i, ¬ p (f i) := by
  simp [count]

variable [DecidableEq ι]

/-- Replacing one member moves a sum over the family by what that member contributes. -/
theorem sum_update {M : Type*} [AddCommMonoid M] (m : α → M) :
    ∑ j, m (Function.update f i a j) + m (f i) = ∑ j, m (f j) + m a := by
  have hothers : ∑ j ∈ Finset.univ.erase i, m (Function.update f i a j) =
      ∑ j ∈ Finset.univ.erase i, m (f j) := by
    apply Finset.sum_congr rfl
    intro j hj
    rw [Function.update_of_ne (Finset.ne_of_mem_erase hj)]
  rw [← Finset.add_sum_erase _ _ (Finset.mem_univ i), hothers, Function.update_self,
    ← Finset.add_sum_erase _ _ (Finset.mem_univ i)]
  abel

theorem count_eq_others (i : ι) :
    count p f = (if p (f i) then 1 else 0) + others p f i :=
  (Finset.add_sum_erase _ _ (Finset.mem_univ i)).symm

/-- Replacing one member moves the count by what that member contributes. -/
theorem count_update :
    count p (Function.update f i a) + (if p (f i) then 1 else 0) =
      count p f + (if p a then 1 else 0) :=
  sum_update fun b => if p b then 1 else 0

theorem count_update_of_iff (h : p a ↔ p (f i)) :
    count p (Function.update f i a) = count p f := by
  have := count_update (p := p) (f := f) (i := i) (a := a)
  simp only [h] at this
  omega

theorem count_update_enter (h : ¬ p (f i)) (ha : p a) :
    count p (Function.update f i a) = count p f + 1 := by
  simpa [h, ha] using count_update (p := p) (f := f) (i := i) (a := a)

theorem count_update_leave (h : p (f i)) (ha : ¬ p a) :
    count p (Function.update f i a) + 1 = count p f := by
  simpa [h, ha] using count_update (p := p) (f := f) (i := i) (a := a)

theorem count_pos (h : p (f i)) : 0 < count p f := by
  rw [count_eq_others i, if_pos h]
  omega

end JotaTranscriber.Family
