import Mathlib.Data.Finset.Lattice.Fold
import Mathlib.Logic.Relation
import JotaTranscriber.Locking.Language

/-! # An order on locks

The locks have ranks, and every thread takes them upwards. The end of a thread
counts as one more lock, which the thread holds from its start and which others
wait for when they join it. Then the rank of what a thread waits for is below
the rank of what the holder waits for, and no threads wait for one another.
-/

namespace JotaTranscriber.Locking

open Transition

variable {L T : Type*}

/-- Each lock taken, and each thread joined, ranks above `n` and above the locks around it. An
attempt to lock does not wait, and may be made at any rank. -/
def Cmd.Ordered (rank : L → ℕ) (floor : T → ℕ) : ℕ → Cmd L T → Prop
  | _, .skip | _, .raise | _, .exit | _, .start _ => True
  | n, .seq c d | n, .choose c d | n, .handled c d =>
    c.Ordered rank floor n ∧ d.Ordered rank floor n
  | n, .loop c => c.Ordered rank floor n
  | n, .locked l c => n < rank l ∧ c.Ordered rank floor (max (rank l) n)
  | n, .tryLocked l c => c.Ordered rank floor (max (rank l) n)
  | n, .join t => n < floor t

namespace Cmd

variable {rank : L → ℕ} {floor : T → ℕ} {m n : ℕ} {c : Cmd L T} {cs : List (Cmd L T)}

/-- What is in order above one rank is in order above a lower one. -/
theorem Ordered.mono (h : c.Ordered rank floor n) (hmn : m ≤ n) : c.Ordered rank floor m := by
  induction c generalizing m n with
  | seq c d ihc ihd => exact ⟨ihc h.1 hmn, ihd h.2 hmn⟩
  | choose c d ihc ihd => exact ⟨ihc h.1 hmn, ihd h.2 hmn⟩
  | handled c d ihc ihd => exact ⟨ihc h.1 hmn, ihd h.2 hmn⟩
  | loop c ih => exact ih h hmn
  | locked l c ih => exact ⟨hmn.trans_lt h.1, ih h.2 (max_le_max_left _ hmn)⟩
  | tryLocked l c ih => exact ih h (max_le_max_left _ hmn)
  | join t => exact hmn.trans_lt h
  | _ => trivial

@[simp] theorem ordered_block :
    (block cs).Ordered rank floor n ↔ ∀ c ∈ cs, c.Ordered rank floor n := by
  induction cs with
  | nil => simp [block, Ordered]
  | cons c cs ih => rw [block, Ordered, ih, List.forall_mem_cons]

@[simp] theorem ordered_perhaps :
    (perhaps c).Ordered rank floor n ↔ c.Ordered rank floor n := by
  simp [perhaps, Ordered]

@[simp] theorem ordered_mayRaise :
    (mayRaise : Cmd L T).Ordered rank floor n := by
  simp [mayRaise, Ordered]

end Cmd

section Stack

variable (rank : L → ℕ) (floor : T → ℕ) (base : ℕ)

/-- The greatest rank held on a stack. -/
def level : List (Frame L T) → ℕ
  | [] => base
  | .guard l :: K => max (rank l) (level K)
  | .run _ :: K | .handler _ :: K => level K

/-- Everything left to do on a stack is ordered above what is held there. -/
def StackOrdered : List (Frame L T) → Prop
  | [] => True
  | .run c :: K | .handler c :: K => c.Ordered rank floor (level rank base K) ∧ StackOrdered K
  | .guard _ :: K => StackOrdered K

variable {rank base}

theorem base_le_level (K : List (Frame L T)) : base ≤ level rank base K := by
  induction K with
  | nil => exact le_rfl
  | cons f K ih =>
    cases f with
    | guard l => exact ih.trans (le_max_right _ _)
    | run c => exact ih
    | handler d => exact ih

theorem rank_le_level {l : L} {K : List (Frame L T)} (h : l ∈ held K) :
    rank l ≤ level rank base K := by
  induction K with
  | nil => cases h
  | cons f K ih =>
    cases f with
    | guard l' =>
      rcases List.mem_cons.mp h with rfl | h
      · exact le_max_left _ _
      · exact (ih h).trans (le_max_right _ _)
    | run c => exact ih h
    | handler d => exact ih h

end Stack

/-- What one thread waits for in a state: a lock or the end of another thread. -/
inductive WaitsFor (S : T → Thread L T) (t u : T) : Prop where
  | lock {l : L} {c : Cmd L T} {K : List (Frame L T)} : (S t).stack = .run (.locked l c) :: K →
      (S t).raising = false → l ∈ held (S u).stack → WaitsFor S t u
  | join {K : List (Frame L T)} : (S t).stack = .run (.join u) :: K → (S t).raising = false →
      (S u).started = true → ¬ (S u).Finished → WaitsFor S t u

/-- The threads keep to the order, and one that has not been started holds nothing. -/
structure Orderly (rank : L → ℕ) (floor : T → ℕ) (S : T → Thread L T) : Prop where
  ordered : ∀ t, StackOrdered rank floor (floor t) (S t).stack
  unstarted : ∀ t, (S t).started = false → held (S t).stack = []

/-- No lock is held twice. -/
structure Exclusive (S : T → Thread L T) : Prop where
  nodup : ∀ t, (held (S t).stack).Nodup
  owner : ∀ t u l, l ∈ held (S t).stack → l ∈ held (S u).stack → t = u

/-- What a step does to the stack of the thread that takes it. -/
inductive StackStep (S : T → Thread L T) : List (Frame L T) → List (Frame L T) → Prop where
  | pop {f : Frame L T} {K : List (Frame L T)} : StackStep S (f :: K) K
  | exit {K : List (Frame L T)} : StackStep S (.run .exit :: K) []
  | seq {c d : Cmd L T} {K : List (Frame L T)} :
      StackStep S (.run (.seq c d) :: K) (.run c :: .run d :: K)
  | choose {c d : Cmd L T} (b : Bool) {K : List (Frame L T)} :
      StackStep S (.run (.choose c d) :: K) (.run (if b then c else d) :: K)
  | turn {c : Cmd L T} {K : List (Frame L T)} :
      StackStep S (.run (.loop c) :: K) (.run c :: .run (.loop c) :: K)
  | lock {l : L} {c : Cmd L T} {K : List (Frame L T)} : Free S l →
      StackStep S (.run (.locked l c) :: K) (.run c :: .guard l :: K)
  | tryLock {l : L} {c : Cmd L T} {K : List (Frame L T)} : Free S l →
      StackStep S (.run (.tryLocked l c) :: K) (.run c :: .guard l :: K)
  | handled {c d : Cmd L T} {K : List (Frame L T)} :
      StackStep S (.run (.handled c d) :: K) (.run c :: .handler d :: K)
  | handle {d : Cmd L T} {K : List (Frame L T)} : StackStep S (.handler d :: K) (.run d :: K)

variable {rank : L → ℕ} {floor : T → ℕ} {S S' : T → Thread L T} {t u : T} {b : Bool}
  {K K' : List (Frame L T)} {c : Cmd L T}

/-- A step keeps what is left to do in order. -/
theorem StackStep.ordered {base : ℕ} (h : StackStep S K K')
    (ho : StackOrdered rank floor base K) : StackOrdered rank floor base K' := by
  cases h with
  | @pop f K =>
    cases f with
    | guard l => exact ho
    | run c => exact ho.2
    | handler d => exact ho.2
  | exit => trivial
  | seq => exact ⟨ho.1.1, ho.1.2, ho.2⟩
  | choose b =>
    refine ⟨?_, ho.2⟩
    cases b
    · exact ho.1.2
    · exact ho.1.1
  | turn => exact ⟨ho.1, ho⟩
  | lock _ => exact ⟨ho.1.2, ho.2⟩
  | tryLock _ => exact ho
  | handled => exact ⟨ho.1.1, ho.1.2, ho.2⟩
  | handle => exact ho

/-- A step takes at most one lock, which is free. -/
theorem StackStep.held (h : StackStep S K K') :
    (held K').Sublist (held K) ∨ ∃ l, Free S l ∧ Locking.held K' = l :: Locking.held K := by
  cases h with
  | @pop f K =>
    left
    cases f with
    | guard l => exact List.sublist_cons_self _ _
    | run c => exact .refl _
    | handler d => exact .refl _
  | exit => exact .inl (List.nil_sublist _)
  | lock hfree => exact .inr ⟨_, hfree, rfl⟩
  | tryLock hfree => exact .inr ⟨_, hfree, rfl⟩
  | seq => exact .inl (.refl _)
  | choose b => exact .inl (.refl _)
  | turn => exact .inl (.refl _)
  | handled => exact .inl (.refl _)
  | handle => exact .inl (.refl _)

section Step

variable [DecidableEq T]

theorem stack_put (S : T → Thread L T) (t : T) (K : List (Frame L T)) :
    (put S t K t).stack = K := by
  rw [put, Function.update_self]

theorem stack_raiseOn (S : T → Thread L T) (t : T) (K : List (Frame L T)) :
    (raiseOn S t K t).stack = K := by
  rw [raiseOn, Function.update_self]

/-- What one step can do: it moves one thread, and may start another. -/
structure Steps (S : T → Thread L T) (t : T) (S' : T → Thread L T) : Prop where
  stack : StackStep S (S t).stack (S' t).stack
  others : ∀ u, u ≠ t → (S' u).stack = (S u).stack
  started : (S t).started = true
  starts : ∀ u, (S u).started = true → (S' u).started = true

theorem steps_put (hs : (S t).started = true) (h : StackStep S (S t).stack K) :
    Steps S t (put S t K) where
  stack := by rwa [stack_put]
  others u hu := by rw [put, Function.update_of_ne hu]
  started := hs
  starts u hu := by
    rw [put, Function.update_apply]
    split
    · exact hs
    · exact hu

theorem steps_raiseOn (hs : (S t).started = true) (h : StackStep S (S t).stack K) :
    Steps S t (raiseOn S t K) where
  stack := by rwa [stack_raiseOn]
  others u hu := by rw [raiseOn, Function.update_of_ne hu]
  started := hs
  starts u hu := by
    rw [raiseOn, Function.update_apply]
    split
    · exact hs
    · exact hu

variable [Fintype T] [DecidableEq L]

theorem steps_runCmd (hs : (S t).started = true) (hK : (S t).stack = .run c :: K)
    (h : runCmd S t b K c = some S') : Steps S t S' := by
  cases c with
  | skip =>
    cases h
    exact steps_put hs (hK ▸ .pop)
  | raise =>
    cases h
    exact steps_raiseOn hs (hK ▸ .pop)
  | exit =>
    cases h
    exact steps_raiseOn hs (hK ▸ .exit)
  | seq c d =>
    cases h
    exact steps_put hs (hK ▸ .seq)
  | choose c d =>
    cases h
    exact steps_put hs (hK ▸ .choose b)
  | loop c =>
    cases h
    apply steps_put hs
    rw [hK]
    split
    · exact .turn
    · exact .pop
  | locked l c =>
    obtain ⟨hfree, h⟩ := Option.ite_none_right_eq_some.mp h
    cases h
    exact steps_put hs (hK ▸ .lock hfree)
  | tryLocked l c =>
    cases h
    apply steps_put hs
    rw [hK]
    split
    · rename_i hfree
      exact .tryLock hfree.2
    · exact .pop
  | handled c d =>
    cases h
    exact steps_put hs (hK ▸ .handled)
  | start u =>
    cases h
    have hstart : ∀ v, (Function.update S u { S u with started := true } v).stack = (S v).stack ∧
        ((S v).started = true →
          (Function.update S u { S u with started := true } v).started = true) := by
      intro v
      rw [Function.update_apply]
      split
      · subst v
        exact ⟨rfl, fun _ => rfl⟩
      · exact ⟨rfl, id⟩
    refine ⟨?_, ?_, hs, ?_⟩
    · rw [stack_put, hK]
      exact .pop
    · intro v hv
      rw [put, Function.update_of_ne hv]
      exact (hstart v).1
    · intro v hv
      rw [put, Function.update_apply]
      split
      · exact (hstart t).2 hs
      · exact (hstart v).2 hv
  | join u =>
    obtain ⟨-, h⟩ := Option.ite_none_left_eq_some.mp h
    cases h
    exact steps_put hs (hK ▸ .pop)

theorem step_steps (h : step S (t, b) = some S') : Steps S t S' := by
  unfold step at h
  split at h
  · cases h
  · rename_i hlive
    have hs : (S t).started = true := by
      rw [not_or, Bool.not_eq_false] at hlive
      exact hlive.2
    split at h
    · cases h
    · exact steps_runCmd hs ‹_› h
    · cases h
      exact steps_put hs (by rw [‹(S t).stack = _›]; exact .pop)
    · cases h
      exact steps_put hs (by rw [‹(S t).stack = _›]; exact .pop)
    · rename_i d K _ hK
      cases h
      refine ⟨?_, ?_, hs, ?_⟩
      · rw [Function.update_self, hK]
        exact .handle
      · intro u hu
        rw [Function.update_of_ne hu]
      · intro u hu
        rw [Function.update_apply]
        split
        · exact hs
        · exact hu
    · cases h
      exact steps_raiseOn hs (by rw [‹(S t).stack = _›]; exact .pop)

end Step

section Invariants

theorem Orderly.step (h : Orderly rank floor S) (hs : Steps S t S') : Orderly rank floor S' where
  ordered u := by
    rcases eq_or_ne u t with rfl | hne
    · exact hs.stack.ordered (h.ordered u)
    · rw [hs.others u hne]
      exact h.ordered u
  unstarted u hu := by
    have hbefore : (S u).started = false := by
      by_contra hstarted
      rw [hs.starts u (by simpa using hstarted)] at hu
      cases hu
    have hne : u ≠ t := by
      rintro rfl
      rw [hs.started] at hbefore
      cases hbefore
    rw [hs.others u hne]
    exact h.unstarted u hbefore

theorem Exclusive.step (h : Exclusive S) (hs : Steps S t S') : Exclusive S' := by
  -- whatever the thread holds after the step was its own before, or was free
  have hmine : ∀ l ∈ held (S' t).stack, l ∈ held (S t).stack ∨ Free S l := by
    intro l hl
    rcases hs.stack.held with hsub | ⟨l', hfree, heq⟩
    · exact .inl (hsub.mem hl)
    · rw [heq] at hl
      rcases List.mem_cons.mp hl with rfl | hl
      · exact .inr hfree
      · exact .inl hl
  have howner : ∀ u l, u ≠ t → l ∈ held (S' t).stack → l ∉ held (S' u).stack := by
    intro u l hne hl hu
    rw [hs.others u hne] at hu
    rcases hmine l hl with hl | hfree
    · exact hne (h.owner u t l hu hl)
    · exact hfree u hu
  refine ⟨?_, ?_⟩
  · intro u
    rcases eq_or_ne u t with rfl | hne
    · rcases hs.stack.held with hsub | ⟨l, hfree, heq⟩
      · exact hsub.nodup (h.nodup u)
      · rw [heq]
        exact List.nodup_cons.mpr ⟨hfree u, h.nodup u⟩
    · rw [hs.others u hne]
      exact h.nodup u
  · intro u v l hu hv
    rcases eq_or_ne u t with rfl | hut
    · rcases eq_or_ne v u with rfl | hvt
      · rfl
      · exact absurd hv (howner v l hvt hu)
    · rcases eq_or_ne v t with rfl | hvt
      · exact absurd hu (howner u l hut hv)
      · rw [hs.others u hut] at hu
        rw [hs.others v hvt] at hv
        exact h.owner u v l hu hv

/-- A new process: every thread has its command to run, and only one has been started. -/
def init [DecidableEq T] (program : T → Cmd L T) (main : T) : T → Thread L T :=
  fun t => { stack := [.run (program t)], started := t = main }

theorem orderly_init [DecidableEq T] {program : T → Cmd L T}
    (h : ∀ t, (program t).Ordered rank floor (floor t)) (main : T) :
    Orderly rank floor (init program main) where
  ordered t := ⟨h t, trivial⟩
  unstarted _ _ := rfl

theorem exclusive_init [DecidableEq T] (program : T → Cmd L T) (main : T) :
    Exclusive (init program main) where
  nodup _ := .nil
  owner _ _ _ h := by cases h

end Invariants

/-! ## Who waits for whom -/

/-- The rank of what a thread waits for, if it does. -/
def waited (rank : L → ℕ) (floor : T → ℕ) (th : Thread L T) : ℕ :=
  match th.stack with
  | .run (.locked l _) :: _ => rank l
  | .run (.join u) :: _ => floor u
  | _ => 0

/-- What a thread waits for ranks above all it holds. -/
theorem level_lt_waited (h : Orderly rank floor S) (hwait : WaitsFor S t u) :
    level rank (floor t) (S t).stack < waited rank floor (S t) := by
  have ho := h.ordered t
  cases hwait with
  | lock hK _ _ =>
    rw [hK] at ho ⊢
    rw [waited, hK]
    exact ho.1.1
  | join hK _ _ _ =>
    rw [hK] at ho ⊢
    rw [waited, hK]
    exact ho.1

/-- The holder of what a thread waits for is still running. -/
theorem running_of_waitsFor (h : Orderly rank floor S) (hwait : WaitsFor S t u) :
    (S u).started = true ∧ ¬ (S u).Finished := by
  cases hwait with
  | lock _ _ hl =>
    constructor
    · by_contra hnot
      rw [h.unstarted u (by simpa using hnot)] at hl
      cases hl
    · rintro ⟨hnil, -⟩
      rw [hnil] at hl
      cases hl
  | join _ _ hs hnot => exact ⟨hs, hnot⟩

/-- What a thread waits for ranks no higher than what its holder holds. -/
theorem waited_le_level (hwait : WaitsFor S t u) :
    waited rank floor (S t) ≤ level rank (floor u) (S u).stack := by
  cases hwait with
  | lock hK _ hl =>
    rw [waited, hK]
    exact rank_le_level hl
  | join hK _ _ _ =>
    rw [waited, hK]
    exact base_le_level _

section Progress

variable [DecidableEq T] [Fintype T] [DecidableEq L]

/-- The thread can make a step. -/
def CanStep (S : T → Thread L T) (t : T) : Prop := ∃ b S', step S (t, b) = some S'

theorem canStep_of_isSome (h : (step S (t, b)).isSome = true) : CanStep S t := by
  obtain ⟨S', hS'⟩ := Option.isSome_iff_exists.mp h
  exact ⟨b, S', hS'⟩

/-- A running thread can make a step, or waits for another one. -/
theorem canStep_or_waitsFor (hlive : ¬ Ended S) (hs : (S t).started = true)
    (hnot : ¬ (S t).Finished) : CanStep S t ∨ ∃ u, WaitsFor S t u := by
  have hstep {r : Bool} {f : Frame L T} {K : List (Frame L T)} (hr : (S t).raising = r)
      (hK : (S t).stack = f :: K) (hsome : (match r, f :: K with
        | _, [] => none
        | false, .run c :: K => runCmd S t true K c
        | false, .guard _ :: K => some (put S t K)
        | false, .handler _ :: K => some (put S t K)
        | true, .handler d :: K =>
          some (Function.update S t { S t with stack := .run d :: K, raising := false })
        | true, _ :: K => some (raiseOn S t K)).isSome = true) : CanStep S t := by
    apply canStep_of_isSome (b := true)
    rw [step, if_neg (by simp [hlive, hs])]
    dsimp only
    rw [hr, hK]
    exact hsome
  match hr : (S t).raising, hK : (S t).stack with
  | false, [] => exact absurd ⟨hK, hr⟩ hnot
  | true, [] => exact absurd ⟨t, hK, hr⟩ hlive
  | true, .handler d :: K => exact .inl (hstep hr hK rfl)
  | true, .guard l :: K => exact .inl (hstep hr hK rfl)
  | true, .run c :: K => exact .inl (hstep hr hK rfl)
  | false, .guard l :: K => exact .inl (hstep hr hK rfl)
  | false, .handler d :: K => exact .inl (hstep hr hK rfl)
  | false, .run c :: K =>
    cases c with
    | locked l c =>
      by_cases hfree : Free S l
      · left
        apply hstep hr hK
        simp only [runCmd, if_pos hfree, Option.isSome_some]
      · right
        rw [Free, not_forall] at hfree
        obtain ⟨u, hu⟩ := hfree
        exact ⟨u, .lock hK hr (not_not.mp hu)⟩
    | join u =>
      by_cases hrunning : (S u).started = true ∧ ¬ (S u).Finished
      · exact .inr ⟨u, .join hK hr hrunning.1 hrunning.2⟩
      · left
        apply hstep hr hK
        simp only [runCmd, if_neg hrunning, Option.isSome_some]
    | _ => exact .inl (hstep hr hK rfl)

/-- Whoever waits, waits in the end for a thread that can make a step. -/
theorem exists_canStep (h : Orderly rank floor S) (hlive : ¬ Ended S)
    (hs : (S t).started = true) (hnot : ¬ (S t).Finished) :
    ∃ u, Relation.ReflTransGen (WaitsFor S) t u ∧ CanStep S u := by
  -- the rank waited for grows along a chain, and there are finitely many threads
  let top := Finset.univ.sup fun t => waited rank floor (S t)
  have hle (t : T) : waited rank floor (S t) ≤ top :=
    Finset.le_sup (f := fun t => waited rank floor (S t)) (Finset.mem_univ t)
  induction hn : top - waited rank floor (S t) using Nat.strong_induction_on generalizing t with
  | _ n ih =>
    rcases canStep_or_waitsFor hlive hs hnot with hstep | ⟨u, hwait⟩
    · exact ⟨t, .refl, hstep⟩
    obtain ⟨hstarted, hrunning⟩ := running_of_waitsFor h hwait
    rcases canStep_or_waitsFor hlive hstarted hrunning with hstep | ⟨v, hwait'⟩
    · exact ⟨u, .single hwait, hstep⟩
    have hlt : waited rank floor (S t) < waited rank floor (S u) :=
      (waited_le_level hwait).trans_lt (level_lt_waited h hwait')
    obtain ⟨w, hchain, hstep⟩ :=
      ih (top - waited rank floor (S u)) (by have := hle u; omega) hstarted hrunning rfl
    exact ⟨w, .head hwait hchain, hstep⟩

variable {program : T → Cmd L T} {main : T} {tr : List ((T → Thread L T) × (T × Bool))}

theorem orderly_of_run (h : ∀ t, (program t).Ordered rank floor (floor t))
    (hrun : Run step (init program main) tr S) : Orderly rank floor S :=
  hrun.invariant (orderly_init h main) fun _ _ _ ho hs => ho.step (step_steps hs)

theorem exclusive_of_run (hrun : Run step (init program main) tr S) : Exclusive S :=
  hrun.invariant (exclusive_init program main) fun _ _ _ he hs => he.step (step_steps hs)

end Progress

end JotaTranscriber.Locking
