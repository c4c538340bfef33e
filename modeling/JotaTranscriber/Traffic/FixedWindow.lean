import Mathlib.Algebra.Order.Ring.Defs
import Mathlib.Data.List.Induction
import Mathlib.Tactic.Linarith
import Mathlib.Tactic.Ring

/-! # Fixed-window limits

A window counts what arrives. The first arrival a width after its start closes
the window: it is refused if the count is then over the quota, and else begins
the next window with nothing counted. What a closed window has counted keeps to
the quota for each width of the time it took; and traffic that is shaped by a rate, a
burst and a largest gap is never refused if a stretched window has room for it.
-/

namespace JotaTranscriber.Traffic

variable {K : Type*}

/-- Something of a size that arrives at a time. -/
structure Arrival (K : Type*) where
  time : K
  size : K

/-- The limit of a window: how long it lasts, and how much it may hold when it is closed. -/
structure Limit (K : Type*) where
  width : K
  quota : K

/-- A bound on traffic: what comes at once, what comes in time, and how long a pause may last. -/
structure Shape (K : Type*) where
  burst : K
  rate : K
  gap : K

structure FixedWindow (K : Type*) where
  start : K
  count : K

variable [CommRing K] [LinearOrder K]

def total (l : List (Arrival K)) : K := (l.map Arrival.size).sum

/-- The traffic comes in order, no stretch of it exceeds the burst by more than the rate allows for
the time it takes, and no pause is longer than the gap. -/
structure Shaped (S : Shape K) (l : List (Arrival K)) : Prop where
  sorted : l.Pairwise fun a b => a.time ≤ b.time
  bounded : ∀ before m after, l = before ++ m ++ after → ∀ a ∈ m.head?, ∀ b ∈ m.getLast?,
    total m ≤ S.burst + S.rate * (b.time - a.time)
  close : ∀ before a b after, l = before ++ a :: b :: after → b.time ≤ a.time + S.gap

namespace FixedWindow

/-- The window after an arrival, or nothing when it is refused. -/
def accept (L : Limit K) (w : FixedWindow K) (a : Arrival K) : Option (FixedWindow K) :=
  if w.start + L.width ≤ a.time then
    if L.quota < w.count + a.size then none else some ⟨a.time, 0⟩
  else some { w with count := w.count + a.size }

/-- The window after a list of arrivals, as long as none is refused. -/
def serve (L : Limit K) (w : FixedWindow K) (l : List (Arrival K)) : Option (FixedWindow K) :=
  l.foldlM (accept L) w

end FixedWindow

omit [LinearOrder K] in
@[simp] theorem total_snoc (l : List (Arrival K)) (a : Arrival K) :
    total (l ++ [a]) = total l + a.size := by
  simp [total]

section Shaped

variable {S : Shape K} {l l' : List (Arrival K)}

theorem Shaped.of_append (h : Shaped S (l ++ l')) : Shaped S l where
  sorted := (List.pairwise_append.mp h.sorted).1
  bounded before m after hl := h.bounded before m (after ++ l') (by rw [hl]; simp)
  close before a b after hl := h.close before a b (after ++ l') (by rw [hl]; simp)

/-- The last arrival comes after all others. -/
theorem Shaped.le_last {a b : Arrival K} (h : Shaped S (l ++ [a])) (hb : b ∈ l) :
    b.time ≤ a.time :=
  (List.pairwise_append.mp h.sorted).2.2 b hb a (List.mem_singleton_self a)

end Shaped

namespace FixedWindow

variable {L : Limit K} {w w' : FixedWindow K} {a : Arrival K} {l : List (Arrival K)}

@[simp] theorem serve_nil : w.serve L [] = some w := rfl

theorem serve_snoc : w.serve L (l ++ [a]) = (w.serve L l).bind fun w' => w'.accept L a := by
  simp [serve, List.foldlM_append]

/-- An arrival is refused exactly when it closes a window over the quota. -/
theorem accept_eq_none : w.accept L a = none ↔
    w.start + L.width ≤ a.time ∧ L.quota < w.count + a.size := by
  unfold accept
  split_ifs <;> simp [*]

/-- What an arrival that is not refused does. -/
theorem accept_cases (h : w.accept L a = some w') :
    (a.time < w.start + L.width ∧ w' = ⟨w.start, w.count + a.size⟩) ∨
      (w.start + L.width ≤ a.time ∧ w.count + a.size ≤ L.quota ∧ w' = ⟨a.time, 0⟩) := by
  unfold accept at h
  split_ifs at h with htime hquota
  · exact .inr ⟨htime, not_lt.mp hquota, (Option.some.inj h).symm⟩
  · exact .inl ⟨not_le.mp htime, (Option.some.inj h).symm⟩

variable [IsStrictOrderedRing K]

/-- What an arrival takes out of the window keeps to the quota for each width of the time by which
the start moves. -/
theorem accept_le (hwidth : 0 ≤ L.width) (hquota : 0 ≤ L.quota) (h : w.accept L a = some w') :
    (w.count + a.size - w'.count) * L.width ≤ L.quota * (w'.start - w.start) := by
  rcases accept_cases h with ⟨-, rfl⟩ | ⟨htime, hle, rfl⟩
  · simp
  · calc (w.count + a.size - 0) * L.width
        = (w.count + a.size) * L.width := by rw [sub_zero]
      _ ≤ L.quota * L.width := mul_le_mul_of_nonneg_right hle hwidth
      _ ≤ L.quota * (a.time - w.start) := mul_le_mul_of_nonneg_left (by linarith) hquota

/-- From the window `w₀`, the window `w` has counted a last stretch of the arrivals, all of them
within its width. -/
structure Holds (L : Limit K) (w₀ w : FixedWindow K) (l : List (Arrival K)) : Prop where
  counted : ∃ before m, l = before ++ m ∧ w.count = total m ∧
    ∀ a ∈ m, w.start ≤ a.time ∧ a.time < w.start + L.width
  begun : ∀ time, w₀.start ≤ time → (∀ a ∈ l, a.time ≤ time) → w.start ≤ time

variable {S : Shape K} {w₀ : FixedWindow K}

/-- A stretched window has room for shaped traffic. -/
theorem Holds.room (h : Holds L w₀ w l) (hs : Shaped S (l ++ [a])) (hrate : 0 ≤ S.rate)
    (hwidth : 0 ≤ L.width) (hgap : 0 ≤ S.gap)
    (hroom : S.burst + S.rate * (L.width + S.gap) ≤ L.quota) : w.count + a.size ≤ L.quota := by
  obtain ⟨before, m, rfl, hcount, hwithin⟩ := h.counted
  rw [hcount, ← total_snoc]
  rcases List.eq_nil_or_concat m with rfl | ⟨m', g, rfl⟩
  · have hone := hs.bounded before [a] [] (by simp) a rfl a rfl
    have hspare : 0 ≤ S.rate * (L.width + S.gap) := mul_nonneg hrate (add_nonneg hwidth hgap)
    rw [sub_self, mul_zero] at hone
    exact (hone.trans (by linarith)).trans hroom
  · rw [List.concat_eq_append] at *
    have hpause := hs.close (before ++ m') g a [] (by simp)
    obtain ⟨f, hf⟩ : ∃ f, f ∈ (m' ++ [g]).head? := ⟨_, List.head?_eq_some_head (by simp)⟩
    have hf' : f ∈ (m' ++ [g] ++ [a]).head? := by
      rw [List.head?_append, Option.mem_def.mp hf]
      rfl
    have hall := hs.bounded before (m' ++ [g] ++ [a]) [] (by simp) f hf' a (by simp)
    have hfirst := (hwithin f (List.mem_of_mem_head? hf)).1
    have hlast := (hwithin g (by simp)).2
    have hspan : S.rate * (a.time - f.time) ≤ S.rate * (L.width + S.gap) :=
      mul_le_mul_of_nonneg_left (by linarith) hrate
    linarith

omit [IsStrictOrderedRing K] in
theorem Holds.accept (h : Holds L w₀ w l) (hlate : w.start ≤ a.time) (ha : w.accept L a = some w') :
    Holds L w₀ w' (l ++ [a]) := by
  rcases accept_cases ha with ⟨htime, rfl⟩ | ⟨-, -, rfl⟩
  · obtain ⟨before, m, hl, hcount, hwithin⟩ := h.counted
    refine ⟨⟨before, m ++ [a], by rw [hl, List.append_assoc], ?_, ?_⟩, ?_⟩
    · rw [total_snoc, hcount]
    · intro b hb
      rcases List.mem_append.mp hb with hb | hb
      · exact hwithin b hb
      · obtain rfl := List.mem_singleton.mp hb
        exact ⟨hlate, htime⟩
    · exact fun time h₀ hall => h.begun time h₀ fun b hb => hall b (List.mem_append_left _ hb)
  · exact ⟨⟨l ++ [a], [], by simp, rfl, by simp⟩, fun time _ hall => hall a (by simp)⟩

/-- Shaped traffic that begins with an empty window is never refused. -/
theorem serve_of_shaped (hs : Shaped S l) (hrate : 0 ≤ S.rate) (hwidth : 0 ≤ L.width)
    (hgap : 0 ≤ S.gap) (hroom : S.burst + S.rate * (L.width + S.gap) ≤ L.quota)
    (hstart : ∀ a ∈ l, w₀.start ≤ a.time) (hcount : w₀.count = 0) :
    ∃ w, w₀.serve L l = some w ∧ Holds L w₀ w l := by
  induction l using List.reverseRecOn with
  | nil => exact ⟨w₀, rfl, ⟨[], [], rfl, hcount, by simp⟩, fun _ h₀ _ => h₀⟩
  | append_singleton l a ih =>
    obtain ⟨w, hw, hholds⟩ := ih hs.of_append fun b hb => hstart b (List.mem_append_left _ hb)
    have hlate : w.start ≤ a.time :=
      hholds.begun a.time (hstart a (by simp)) fun b hb => hs.le_last hb
    have hadmitted : w.accept L a ≠ none := by
      rw [Ne, accept_eq_none]
      rintro ⟨-, hover⟩
      exact absurd (hholds.room hs hrate hwidth hgap hroom) (not_le.mpr hover)
    obtain ⟨w', hw'⟩ := Option.ne_none_iff_exists'.mp hadmitted
    exact ⟨w', by rw [serve_snoc, hw]; exact hw', hholds.accept hlate hw'⟩

end FixedWindow

end JotaTranscriber.Traffic
