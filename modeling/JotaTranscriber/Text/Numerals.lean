import Mathlib.Tactic.IntervalCases
import JotaTranscriber.Text.Decimal
import JotaTranscriber.Text.Json

/-! # Numbers written out

`std::to_string` writes an integer so that the scanner reads the same one.
-/

namespace JotaTranscriber

theorem lit_append (s t : String) : lit (s ++ t) = lit s ++ lit t := by
  simp [lit]

namespace Decimal

variable {n d : ℕ}

theorem value_concat (digits : List UInt8) (c : UInt8) :
    value (digits ++ [c]) = 10 * value digits + (c.toNat - 48) := by
  simp [value]

/-- The text of one digit. -/
theorem lit_digitChar (h : d < 10) :
    ∃ c, lit (.singleton d.digitChar) = [c] ∧ isDigit c = true ∧ c.toNat - 48 = d := by
  interval_cases d
  all_goals exact ⟨_, rfl, by decide, by decide⟩

/-- The digits of a number. -/
theorem lit_repr (n : ℕ) : lit n.repr ≠ [] ∧ (∀ c ∈ lit n.repr, isDigit c = true) ∧
    value (lit n.repr) = n := by
  induction n using Nat.strongRecOn with
  | ind n ih =>
    by_cases hlt : n < 10
    · obtain ⟨c, hc, hdigit, hvalue⟩ := lit_digitChar hlt
      rw [Nat.repr_of_lt hlt, hc]
      exact ⟨by simp, by simpa using hdigit, by simpa [value] using hvalue⟩
    · obtain ⟨-, hall, hvalue⟩ := ih (n / 10) (by omega)
      obtain ⟨c, hc, hdigit, hlast⟩ := lit_digitChar (d := n % 10) (by omega)
      rw [Nat.repr_of_ge (by omega), lit_append, hc]
      refine ⟨by simp, ?_, ?_⟩
      · rw [List.forall_mem_append, List.forall_mem_singleton]
        exact ⟨hall, hdigit⟩
      · rw [value_concat, hvalue, hlast]
        omega

theorem writes_toString (z : ℤ) : Writes (lit (toString z)) z := by
  rw [Int.toString_eq_repr, Int.repr_eq_if]
  split
  · obtain ⟨hne, hall, hvalue⟩ := lit_repr z.toNat
    have hwrites := Writes.unsigned hne hall
    rwa [hvalue, Int.toNat_of_nonneg ‹_›] at hwrites
  · obtain ⟨hne, hall, hvalue⟩ := lit_repr (-z).toNat
    have hwrites := Writes.minus hne hall
    rw [hvalue, Int.toNat_of_nonneg (by omega), neg_neg] at hwrites
    rw [lit_append]
    exact hwrites

theorem scan_toString (z : ℤ) : scan (lit (toString z)) = some z :=
  scan_of_writes (writes_toString z)

/-- The text of a number has no byte that is neither a digit nor a minus. -/
theorem notMem_toString {c : UInt8} (hc : isDigit c = false) (hminus : c ≠ 45) (z : ℤ) :
    c ∉ lit (toString z) := by
  rw [Int.toString_eq_repr, Int.repr_eq_if]
  split
  · intro hmem
    rw [(lit_repr z.toNat).2.1 c hmem] at hc
    cases hc
  · rw [lit_append, List.mem_append]
    rintro (hmem | hmem)
    · exact hminus (List.mem_singleton.mp hmem)
    · rw [(lit_repr (-z).toNat).2.1 c hmem] at hc
      cases hc

end Decimal

end JotaTranscriber
