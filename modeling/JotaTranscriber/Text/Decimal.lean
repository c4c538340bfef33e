import Mathlib.Data.Int.Basic
import Mathlib.Data.List.TakeWhile

/-! # Decimal integers

The texts that write an integer in decimal, sign included, and the scanner that
reads the integer at the start of a text.
-/

namespace JotaTranscriber.Decimal

def isDigit (c : UInt8) : Bool := 48 ≤ c && c ≤ 57

/-- The number written by a string of digits. -/
def value (digits : List UInt8) : ℕ := digits.foldl (fun n c => 10 * n + (c.toNat - 48)) 0

/-- Whether a text begins with a minus, and what follows its sign. -/
def sign : List UInt8 → Bool × List UInt8
  | [] => (false, [])
  | c :: text =>
    if c = 45 then (true, text) else if c = 43 then (false, text) else (false, c :: text)

/-- The integer at the start of a text: a sign, if there is one, and all the digits after it. -/
def scan (text : List UInt8) : Option ℤ :=
  let (negative, rest) := sign text
  let digits := rest.takeWhile isDigit
  if digits = [] then none else some (if negative then -(value digits) else value digits)

/-- The text is a sign, or none, and at least one digit, and writes the integer. -/
inductive Writes : List UInt8 → ℤ → Prop where

  | unsigned {digits : List UInt8} : digits ≠ [] → (∀ c ∈ digits, isDigit c = true) →
      Writes digits (value digits)

  | plus {digits : List UInt8} : digits ≠ [] → (∀ c ∈ digits, isDigit c = true) →
      Writes (43 :: digits) (value digits)

  | minus {digits : List UInt8} : digits ≠ [] → (∀ c ∈ digits, isDigit c = true) →
      Writes (45 :: digits) (-(value digits))

variable {text digits : List UInt8} {z : ℤ}

theorem sign_of_isDigit (h : ∀ c ∈ digits, isDigit c = true) : sign digits = (false, digits) := by
  cases digits with
  | nil => rfl
  | cons c digits =>
    have hc := h c List.mem_cons_self
    have hminus : c ≠ 45 := by
      rintro rfl
      exact absurd hc (by decide)
    have hplus : c ≠ 43 := by
      rintro rfl
      exact absurd hc (by decide)
    rw [sign, if_neg hminus, if_neg hplus]

theorem scan_of_writes (h : Writes text z) : scan text = some z := by
  cases h with
  | unsigned hne hall =>
    rw [scan, sign_of_isDigit hall]
    simp [List.takeWhile_eq_self_iff.mpr hall, hne]
  | plus hne hall => simp [scan, sign, List.takeWhile_eq_self_iff.mpr hall, hne]
  | minus hne hall => simp [scan, sign, List.takeWhile_eq_self_iff.mpr hall, hne]

/-- A text that writes an integer begins with a sign or a digit. -/
theorem Writes.head (h : Writes text z) : ∃ c rest, text = c :: rest ∧
    (c = 43 ∨ c = 45 ∨ isDigit c = true) := by
  cases h with
  | @unsigned digits hne hall =>
    obtain ⟨c, rest, rfl⟩ := List.exists_cons_of_ne_nil hne
    exact ⟨c, rest, rfl, .inr (.inr (hall c List.mem_cons_self))⟩
  | plus _ _ => exact ⟨43, _, rfl, .inl rfl⟩
  | minus _ _ => exact ⟨45, _, rfl, .inr (.inl rfl)⟩

end JotaTranscriber.Decimal
