import Mathlib.Algebra.Order.Field.Basic
import Mathlib.Algebra.Order.Group.Unbundled.Abs
import Mathlib.Tactic.Linarith
import Mathlib.Tactic.Ring

/-! # First-order high-pass filters, and peaks

The recursion `y = α * (y' + x - x')` over a signal, from the last input `x'`
and the last output `y'`. Its output is bounded by twice the input, although
it can exceed the input: what the recursion keeps is that the last output
stays as close to the last input as the input is bounded.
-/

namespace JotaTranscriber.Signal

variable {K : Type*} [Field K]

/-- The filtered signal. -/
def highPass (α x' y' : K) : List K → List K
  | [] => []
  | x :: xs => α * (y' + x - x') :: highPass α x (α * (y' + x - x')) xs

/-- The last input and output. -/
def highPassState (α x' y' : K) : List K → K × K
  | [] => (x', y')
  | x :: xs => highPassState α x (α * (y' + x - x')) xs

variable {α x' y' b g : K} {xs ys : List K}

@[simp] theorem length_highPass : (highPass α x' y' xs).length = xs.length := by
  induction xs generalizing x' y' with
  | nil => rfl
  | cons x xs ih => rw [highPass, List.length_cons, ih, List.length_cons]

/-- A signal may be cut anywhere if the state is carried over. -/
theorem highPass_append : highPass α x' y' (xs ++ ys) =
    highPass α x' y' xs ++
      highPass α (highPassState α x' y' xs).1 (highPassState α x' y' xs).2 ys := by
  induction xs generalizing x' y' with
  | nil => rfl
  | cons x xs ih => rw [List.cons_append, highPass, ih, highPass, List.cons_append, highPassState]

theorem highPassState_append : highPassState α x' y' (xs ++ ys) =
    highPassState α (highPassState α x' y' xs).1 (highPassState α x' y' xs).2 ys := by
  induction xs generalizing x' y' with
  | nil => rfl
  | cons x xs ih => rw [List.cons_append, highPassState, ih, highPassState]

variable [LinearOrder K]

/-- The largest absolute value. -/
def peak : List K → K
  | [] => 0
  | x :: xs => max |x| (peak xs)

theorem abs_le_peak {x : K} (h : x ∈ xs) : |x| ≤ peak xs := by
  induction xs with
  | nil => cases h
  | cons z xs ih =>
    rcases List.mem_cons.mp h with rfl | h
    · exact le_max_left _ _
    · exact (ih h).trans (le_max_right _ _)

theorem peak_le (hb : 0 ≤ b) (h : ∀ x ∈ xs, |x| ≤ b) : peak xs ≤ b := by
  induction xs with
  | nil => exact hb
  | cons x xs ih =>
    obtain ⟨hx, hxs⟩ := List.forall_mem_cons.mp h
    exact max_le hx (ih hxs)

variable [IsStrictOrderedRing K]

theorem peak_nonneg : 0 ≤ peak xs := by
  cases xs with
  | nil => exact le_rfl
  | cons x xs => exact (abs_nonneg x).trans (le_max_left _ _)

/-- The peak of a signal multiplied by a gain. -/
theorem peak_map_mul (hg : 0 ≤ g) : peak (xs.map (· * g)) = peak xs * g := by
  induction xs with
  | nil => exact (zero_mul g).symm
  | cons x xs ih =>
    rw [List.map_cons, peak, ih, abs_mul, abs_of_nonneg hg, peak, max_mul_of_nonneg _ _ hg]

/-- One step keeps the output as close to the input as the input is bounded. -/
theorem abs_sub_le_step {x : K} (h0 : 0 ≤ α) (h1 : α ≤ 1) (hx : |x| ≤ b) (h : |y' - x'| ≤ b) :
    |α * (y' + x - x') - x| ≤ b := by
  rw [abs_le] at hx h ⊢
  have hsplit : α * (y' + x - x') - x = α * (y' - x') - (1 - α) * x := by ring
  rw [hsplit]
  constructor <;> nlinarith

theorem abs_le_step {x : K} (h0 : 0 ≤ α) (hx : |x| ≤ b) (h : |y' - x'| ≤ b) :
    |α * (y' + x - x')| ≤ 2 * α * b := by
  rw [abs_mul, abs_of_nonneg h0]
  have hsum : |y' + x - x'| ≤ 2 * b := by
    calc |y' + x - x'| = |(y' - x') + x| := by ring_nf
      _ ≤ |y' - x'| + |x| := abs_add_le _ _
      _ ≤ 2 * b := by linarith
  calc α * |y' + x - x'| ≤ α * (2 * b) := mul_le_mul_of_nonneg_left hsum h0
    _ = 2 * α * b := by ring

/-- A bounded signal keeps the last output close to the last input. -/
theorem abs_highPassState_sub_le (h0 : 0 ≤ α) (h1 : α ≤ 1) (hxs : ∀ x ∈ xs, |x| ≤ b)
    (h : |y' - x'| ≤ b) :
    |(highPassState α x' y' xs).2 - (highPassState α x' y' xs).1| ≤ b := by
  induction xs generalizing x' y' with
  | nil => exact h
  | cons x xs ih =>
    obtain ⟨hx, hxs⟩ := List.forall_mem_cons.mp hxs
    exact ih hxs (abs_sub_le_step h0 h1 hx h)

/-- The output is bounded by twice the input. -/
theorem abs_highPass_le (h0 : 0 ≤ α) (h1 : α ≤ 1) (hxs : ∀ x ∈ xs, |x| ≤ b) (h : |y' - x'| ≤ b) :
    ∀ y ∈ highPass α x' y' xs, |y| ≤ 2 * α * b := by
  induction xs generalizing x' y' with
  | nil => simp [highPass]
  | cons x xs ih =>
    obtain ⟨hx, hxs⟩ := List.forall_mem_cons.mp hxs
    rw [highPass, List.forall_mem_cons]
    exact ⟨abs_le_step h0 hx h, ih hxs (abs_sub_le_step h0 h1 hx h)⟩

/-- The last output is one of the outputs, or the one before the signal. -/
theorem abs_highPassState_le (h0 : 0 ≤ α) (h1 : α ≤ 1) (hxs : ∀ x ∈ xs, |x| ≤ b)
    (h : |y' - x'| ≤ b) (hy : |y'| ≤ 2 * α * b) :
    |(highPassState α x' y' xs).2| ≤ 2 * α * b := by
  induction xs generalizing x' y' with
  | nil => exact hy
  | cons x xs ih =>
    obtain ⟨hx, hxs⟩ := List.forall_mem_cons.mp hxs
    exact ih hxs (abs_sub_le_step h0 h1 hx h) (abs_le_step h0 hx h)

end JotaTranscriber.Signal
