import Mathlib.Data.Multiset.Count
import JotaTranscriber.Text.Json

/-! # The connection limiter

A total and a count for each address, moved together. The limiter stands for
the bag of the addresses that hold a slot: an acquired slot is added to the
bag, and a release takes one out of it that was there.
-/

namespace JotaTranscriber

structure ConnectionLimiter where
  maxTotal : ℕ
  maxPerIp : ℕ
  total : ℕ := 0
  perIp : Bytes → Option ℕ := fun _ => none

namespace ConnectionLimiter

/-- The count of an address, zero where it is absent. -/
def count (l : ConnectionLimiter) (ip : Bytes) : ℕ := (l.perIp ip).getD 0

/-- An address that is refused for its own count keeps the entry the lookup has made. -/
def tryAcquire (l : ConnectionLimiter) (ip : Bytes) : ConnectionLimiter × Bool :=
  if l.maxTotal ≤ l.total then (l, false)
  else
    let count := l.count ip
    if l.maxPerIp ≤ count then
      ({ l with perIp := Function.update l.perIp ip (some count) }, false)
    else
      ({ l with perIp := Function.update l.perIp ip (some (count + 1)), total := l.total + 1 },
        true)

/-- The entry of an address with a slot less. -/
def releaseEntry (l : ConnectionLimiter) (ip : Bytes) : Bytes → Option ℕ :=
  match l.perIp ip with
  | some count =>
    if 0 < count then
      Function.update l.perIp ip (if count - 1 = 0 then none else some (count - 1))
    else l.perIp
  | none => l.perIp

/-- Neither counter goes below zero; a mismatch is passed over. -/
def release (l : ConnectionLimiter) (ip : Bytes) : ConnectionLimiter :=
  { l with
    perIp := l.releaseEntry ip
    total := if 0 < l.total then l.total - 1 else l.total }

variable {l : ConnectionLimiter} {ip ip' : Bytes} {holders : Multiset Bytes}

theorem count_update (n : Option ℕ) (total : ℕ) :
    count { l with perIp := Function.update l.perIp ip n, total } ip' =
      if ip' = ip then n.getD 0 else l.count ip' := by
  unfold count
  simp only [Function.update_apply]
  split <;> rfl

/-- A slot is given below both limits; a refusal changes no count. -/
theorem tryAcquire_cases (l : ConnectionLimiter) (ip : Bytes) :
    (l.total < l.maxTotal ∧ l.count ip < l.maxPerIp ∧
      l.tryAcquire ip = ({ l with
        perIp := Function.update l.perIp ip (some (l.count ip + 1)), total := l.total + 1 },
        true)) ∨
    (¬ (l.total < l.maxTotal ∧ l.count ip < l.maxPerIp) ∧
      ∃ perIp, l.tryAcquire ip = ({ l with perIp }, false) ∧
        ∀ ip', count { l with perIp } ip' = l.count ip') := by
  by_cases htotal : l.maxTotal ≤ l.total
  · exact .inr ⟨by omega, l.perIp, if_pos htotal, fun _ => rfl⟩
  by_cases hcount : l.maxPerIp ≤ l.count ip
  · refine .inr ⟨by omega, Function.update l.perIp ip (some (l.count ip)), ?_, ?_⟩
    · simp [tryAcquire, htotal, hcount]
    · intro ip'
      rw [count_update]
      split
      · subst ip'
        rfl
      · rfl
  · exact .inl ⟨by omega, by omega, by simp [tryAcquire, htotal, hcount]⟩

theorem tryAcquire_snd : (l.tryAcquire ip).2 = true ↔
    l.total < l.maxTotal ∧ l.count ip < l.maxPerIp := by
  rcases l.tryAcquire_cases ip with ⟨htotal, hcount, heq⟩ | ⟨hnot, perIp, heq, -⟩ <;> rw [heq]
  · exact iff_of_true rfl ⟨htotal, hcount⟩
  · exact iff_of_false (by simp) hnot

@[simp] theorem tryAcquire_maxTotal : (l.tryAcquire ip).1.maxTotal = l.maxTotal := by
  rcases l.tryAcquire_cases ip with ⟨_, _, heq⟩ | ⟨_, _, heq, -⟩ <;> rw [heq]

@[simp] theorem tryAcquire_maxPerIp : (l.tryAcquire ip).1.maxPerIp = l.maxPerIp := by
  rcases l.tryAcquire_cases ip with ⟨_, _, heq⟩ | ⟨_, _, heq, -⟩ <;> rw [heq]

@[simp] theorem release_maxTotal : (l.release ip).maxTotal = l.maxTotal := rfl

@[simp] theorem release_maxPerIp : (l.release ip).maxPerIp = l.maxPerIp := rfl

theorem release_count : (l.release ip).count ip' =
    if ip' = ip then l.count ip - 1 else l.count ip' := by
  change (l.releaseEntry ip ip').getD 0 = _
  unfold releaseEntry
  by_cases hip : ip' = ip
  · subst ip'
    rw [if_pos rfl, count]
    cases hentry : l.perIp ip with
    | none => simp [hentry]
    | some n =>
      simp only [Option.getD_some]
      split
      · rw [Function.update_self]
        split
        · simp only [Option.getD_none]
          omega
        · rfl
      · rw [hentry, Option.getD_some]
        omega
  · rw [if_neg hip, count]
    cases l.perIp ip with
    | none => rfl
    | some n =>
      simp only
      split
      · rw [Function.update_of_ne hip]
      · rfl

/-- The limiter counts the holders, and has let in no more than its limits. -/
structure Represents (l : ConnectionLimiter) (holders : Multiset Bytes) : Prop where
  total : l.total = holders.card
  count : ∀ ip, l.count ip = holders.count ip
  total_le : l.total ≤ l.maxTotal
  count_le : ∀ ip, l.count ip ≤ l.maxPerIp

theorem represents_init (maxTotal maxPerIp : ℕ) :
    Represents { maxTotal, maxPerIp } 0 :=
  ⟨rfl, fun _ => rfl, Nat.zero_le _, fun _ => Nat.zero_le _⟩

/-- A slot is asked for: the address joins the holders, or nothing changes. -/
theorem Represents.tryAcquire (h : l.Represents holders) :
    (l.tryAcquire ip).1.Represents
      (if (l.tryAcquire ip).2 = true then ip ::ₘ holders else holders) := by
  rcases l.tryAcquire_cases ip with ⟨htotal, hcount, heq⟩ | ⟨hnot, perIp, heq, hsame⟩ <;> rw [heq]
  · rw [if_pos rfl]
    constructor
    · rw [Multiset.card_cons, ← h.total]
    · intro ip'
      rw [count_update, Multiset.count_cons, ← h.count]
      split
      · subst ip'
        rfl
      · rfl
    · exact htotal
    · intro ip'
      rw [count_update]
      split
      · exact hcount
      · exact h.count_le ip'
  · rw [if_neg (by simp)]
    constructor
    · exact h.total
    · intro ip'
      rw [hsame, h.count]
    · exact h.total_le
    · intro ip'
      rw [hsame]
      exact h.count_le ip'

theorem Represents.release (h : l.Represents (ip ::ₘ holders)) :
    (l.release ip).Represents holders := by
  have htotal : l.total = holders.card + 1 := by
    rw [h.total, Multiset.card_cons]
  have hless : (l.release ip).total = holders.card := by
    simp [ConnectionLimiter.release, htotal]
  constructor
  · exact hless
  · intro ip'
    rw [release_count]
    split
    · subst ip'
      rw [h.count, Multiset.count_cons_self, Nat.add_sub_cancel]
    · rw [h.count, Multiset.count_cons_of_ne ‹_›]
  · have := h.total_le
    rw [hless, release_maxTotal]
    omega
  · intro ip'
    have hone := h.count_le ip
    have hall := h.count_le ip'
    rw [release_count, release_maxPerIp]
    split <;> omega

end ConnectionLimiter

end JotaTranscriber
