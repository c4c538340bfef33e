import Mathlib.Data.Option.Basic
import Mathlib.Logic.Function.Basic
import Mathlib.Order.Lattice

/-! # Expiry on lookup

A map whose entries expire, and which drops an expired entry only when it is
looked up. As long as the clock does not run backwards nobody can tell it from
the map that drops nothing and looks at the times alone.
-/

namespace JotaTranscriber.Store

variable {κ ε τ : Type*} [LinearOrder τ]

/-- The entry that a lookup finds: one that has not expired. -/
def live (expires : ε → τ) (m : κ → Option ε) (key : κ) (now : τ) : Option ε :=
  (m key).filter fun e => now < expires e

/-- `c` is `m` without some of the entries that have expired by this time. -/
def Trims (expires : ε → τ) (clock : τ) (c m : κ → Option ε) : Prop :=
  ∀ key, c key = m key ∨ (c key = none ∧ ∀ e, m key = some e → expires e ≤ clock)

variable {expires : ε → τ} {c m : κ → Option ε} {clock clock' now : τ} {key : κ}

theorem live_eq_none : live expires m key now = none ↔
    ∀ e, m key = some e → expires e ≤ now := by
  cases h : m key <;> simp [live, h, Option.filter]

theorem Trims.refl : Trims expires clock m m := fun _ => .inl rfl

theorem Trims.mono (h : Trims expires clock c m) (hle : clock ≤ clock') :
    Trims expires clock' c m := fun key =>
  (h key).imp_right fun ⟨hnone, hall⟩ => ⟨hnone, fun e he => (hall e he).trans hle⟩

/-- What was dropped would not be found either. -/
theorem Trims.live_eq (h : Trims expires clock c m) (hle : clock ≤ now) :
    live expires c key now = live expires m key now := by
  rcases h key with heq | ⟨hnone, hall⟩
  · rw [live, heq, live]
  · rw [live_eq_none.mpr fun e he => (hall e he).trans hle, live, hnone]
    rfl

variable [DecidableEq κ]

theorem Trims.put (h : Trims expires clock c m) (key : κ) (e : ε) :
    Trims expires clock (Function.update c key (some e)) (Function.update m key (some e)) := by
  intro other
  rcases eq_or_ne other key with rfl | hne
  · simp
  · simpa [Function.update_of_ne hne] using h other

theorem Trims.drop (h : Trims expires clock c m) (hdead : live expires c key clock = none) :
    Trims expires clock (Function.update c key none) m := by
  intro other
  rcases eq_or_ne other key with rfl | hne
  · right
    rw [h.live_eq le_rfl] at hdead
    exact ⟨Function.update_self _ _ _, live_eq_none.mp hdead⟩
  · simpa [Function.update_of_ne hne] using h other

end JotaTranscriber.Store
