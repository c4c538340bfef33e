import Mathlib.Algebra.Order.Group.Multiset
import JotaTranscriber.Family.Count
import JotaTranscriber.Server.ConnectionLimiter
import JotaTranscriber.Transition.Run

/-! # Connection guards

A guard owns a slot of the limiter, which its destructor gives back, and passes
it on when it is moved from. Moves go member by member: a guard that is moved
onto forgets the slot it owned, which nobody gives back then. Every slot
acquired is owned by one guard, was given back once, or was forgotten so.
-/

namespace JotaTranscriber

open Transition

structure ConnectionGuard where
  /-- Whether `limiter_` points to the limiter; it is null in a guard that was moved from. -/
  limiter : Bool
  ip : Bytes
  deriving DecidableEq, Repr

namespace ConnectionGuard

/-- The slot owned by the guard at a place, if there is one. -/
def slot : Option ConnectionGuard → Multiset Bytes
  | some ⟨true, ip⟩ => {ip}
  | _ => 0

/-- The destructor, as it changes the limiter. -/
def destruct (guard : ConnectionGuard) (l : ConnectionLimiter) : ConnectionLimiter :=
  if guard.limiter then l.release guard.ip else l

end ConnectionGuard

/-- A limiter, and the guards alive at each of a family of places. -/
structure GuardedLimiter (ι : Type*) where
  limiter : ConnectionLimiter
  guards : ι → Option ConnectionGuard

inductive GuardEvent (ι : Type*) where
  /-- A slot is asked for, and a guard constructed for it if it is given. -/
  | construct (g : ι) (ip : Bytes)
  /-- `g` is constructed by moving from `other`, whose `ip_` is left as `rest`. -/
  | moveConstruct (g other : ι) (rest : Bytes)
  /-- `other` is moved onto `g`. -/
  | moveAssign (g other : ι) (rest : Bytes)
  | destroy (g : ι)

namespace GuardedLimiter

open ConnectionGuard

variable {ι : Type*}

def init (maxTotal maxPerIp : ℕ) : GuardedLimiter ι where
  limiter := { maxTotal, maxPerIp }
  guards _ := none

section Step

variable [DecidableEq ι]

/-- The defaulted moves: both members go over, and the pointer is null in what is left. -/
def move (S : GuardedLimiter ι) (g other : ι) (source : ConnectionGuard) (rest : Bytes) :
    GuardedLimiter ι where
  limiter := S.limiter
  guards := Function.update (Function.update S.guards other (some ⟨false, rest⟩)) g (some source)

def step (S : GuardedLimiter ι) : GuardEvent ι → Option (GuardedLimiter ι)
  | .construct g ip =>
    if S.guards g = none then
      match S.limiter.tryAcquire ip with
      | (limiter, true) =>
        some { limiter, guards := Function.update S.guards g (some ⟨true, ip⟩) }
      | (limiter, false) => some { S with limiter }
    else none
  | .moveConstruct g other rest =>
    match S.guards g, S.guards other with
    | none, some source => some (S.move g other source rest)
    | _, _ => none
  | .moveAssign g other rest =>
    match S.guards g, S.guards other with
    | some _, some source => if g = other then none else some (S.move g other source rest)
    | _, _ => none
  | .destroy g =>
    match S.guards g with
    | some guard =>
      some { limiter := guard.destruct S.limiter, guards := Function.update S.guards g none }
    | none => none

end Step

/-- The slots a step acquires. -/
def acquires (S : GuardedLimiter ι) : GuardEvent ι → Multiset Bytes
  | .construct _ ip => if (S.limiter.tryAcquire ip).2 = true then {ip} else 0
  | _ => 0

/-- The slots a step gives back. -/
def releases (S : GuardedLimiter ι) : GuardEvent ι → Multiset Bytes
  | .destroy g => slot (S.guards g)
  | _ => 0

/-- The slots a step leaves without an owner. -/
def forgets (S : GuardedLimiter ι) : GuardEvent ι → Multiset Bytes
  | .moveAssign g _ _ => slot (S.guards g)
  | _ => 0

/-- The slots the steps of a trace account for, each by `f`. -/
def along (f : GuardedLimiter ι → GuardEvent ι → Multiset Bytes)
    (tr : List (GuardedLimiter ι × GuardEvent ι)) : Multiset Bytes :=
  (tr.map fun p => f p.1 p.2).sum

/-- The step moves a guard onto one that owns a slot. -/
def Overwrites (S : GuardedLimiter ι) : GuardEvent ι → Prop
  | .moveAssign g _ _ => ∃ ip, S.guards g = some ⟨true, ip⟩
  | _ => False

section Accounts

variable {S : GuardedLimiter ι} {ev : GuardEvent ι} {ip : Bytes}
  {tr tr' : List (GuardedLimiter ι × GuardEvent ι)}

theorem count_slot (guard : Option ConnectionGuard) :
    (slot guard).count ip = if guard = some ⟨true, ip⟩ then 1 else 0 := by
  match guard with
  | some ⟨true, ip'⟩ => simp [slot, Multiset.count_singleton, eq_comm]
  | some ⟨false, _⟩ => simp [slot]
  | none => simp [slot]

@[simp] theorem along_nil (f : GuardedLimiter ι → GuardEvent ι → Multiset Bytes) :
    along f [] = 0 := rfl

@[simp] theorem along_append (f : GuardedLimiter ι → GuardEvent ι → Multiset Bytes) :
    along f (tr ++ tr') = along f tr + along f tr' := by
  simp [along]

@[simp] theorem along_singleton (f : GuardedLimiter ι → GuardEvent ι → Multiset Bytes) :
    along f [(S, ev)] = f S ev := by
  simp [along]

theorem forgets_eq_zero_iff : S.forgets ev = 0 ↔ ¬ S.Overwrites ev := by
  cases ev with
  | moveAssign g other rest =>
    simp only [forgets, Overwrites]
    match S.guards g with
    | some ⟨true, _⟩ => simp [slot]
    | some ⟨false, _⟩ => simp [slot]
    | none => simp [slot]
  | _ => simp [forgets, Overwrites]

theorem along_forgets_eq_zero_iff :
    along forgets tr = 0 ↔ ∀ p ∈ tr, ¬ p.1.Overwrites p.2 := by
  induction tr with
  | nil => simp
  | cons p tr ih =>
    rw [List.forall_mem_cons, ← List.singleton_append, along_append, add_eq_zero, ih,
      along_singleton, forgets_eq_zero_iff]

end Accounts

variable [Fintype ι]

/-- The slots owned by guards. -/
def owned (S : GuardedLimiter ι) : Multiset Bytes := ∑ g, slot (S.guards g)

/-- The number of guards that own a slot of an address. -/
def owners (S : GuardedLimiter ι) (ip : Bytes) : ℕ :=
  Family.count (fun guard => guard = some ⟨true, ip⟩) S.guards

variable {S S' : GuardedLimiter ι} {ev : GuardEvent ι} {g other : ι} {ip : Bytes}
  {source : ConnectionGuard} {forgotten : Multiset Bytes}
  {tr : List (GuardedLimiter ι × GuardEvent ι)} {maxTotal maxPerIp : ℕ}

theorem count_owned : S.owned.count ip = S.owners ip := by
  rw [owned, Multiset.count_sum', owners, Family.count]
  simp only [count_slot]

theorem owned_init : (init maxTotal maxPerIp : GuardedLimiter ι).owned = 0 := by
  simp [owned, init, slot]

variable [DecidableEq ι]

/-- What a step does, and where it can be taken. -/
inductive Moves (S : GuardedLimiter ι) : GuardEvent ι → GuardedLimiter ι → Prop where

  | construct {g : ι} {ip : Bytes} : S.guards g = none → (S.limiter.tryAcquire ip).2 = true →
      Moves S (.construct g ip)
        { limiter := (S.limiter.tryAcquire ip).1
          guards := Function.update S.guards g (some ⟨true, ip⟩) }

  | refused {g : ι} {ip : Bytes} : (S.limiter.tryAcquire ip).2 = false →
      Moves S (.construct g ip) { S with limiter := (S.limiter.tryAcquire ip).1 }

  | moveConstruct {g other : ι} {rest : Bytes} {source : ConnectionGuard} : S.guards g = none →
      S.guards other = some source → Moves S (.moveConstruct g other rest)
        (S.move g other source rest)

  | moveAssign {g other : ι} {rest : Bytes} {source : ConnectionGuard} : g ≠ other →
      S.guards other = some source → Moves S (.moveAssign g other rest)
        (S.move g other source rest)

  | destroy {g : ι} {guard : ConnectionGuard} : S.guards g = some guard →
      Moves S (.destroy g)
        { limiter := guard.destruct S.limiter, guards := Function.update S.guards g none }

omit [Fintype ι] in
theorem step_moves (hs : S.step ev = some S') : Moves S ev S' := by
  cases ev with
  | construct g ip =>
    simp only [step] at hs
    split at hs
    · rename_i hg
      split at hs <;> rename_i l hl <;> cases hs
      · have hgiven : (S.limiter.tryAcquire ip).2 = true := by rw [hl]
        simpa [hl] using Moves.construct hg hgiven
      · have hrefused : (S.limiter.tryAcquire ip).2 = false := by rw [hl]
        simpa [hl] using Moves.refused (g := g) hrefused
    · cases hs
  | moveConstruct g other rest =>
    simp only [step] at hs
    split at hs
    · cases hs
      exact .moveConstruct ‹_› ‹_›
    · cases hs
  | moveAssign g other rest =>
    simp only [step] at hs
    split at hs
    · split at hs <;> cases hs
      exact .moveAssign ‹_› ‹_›
    · cases hs
  | destroy g =>
    simp only [step] at hs
    split at hs <;> cases hs
    exact .destroy ‹_›

/-- A slot goes over from the guard that is moved from; that of the guard moved onto is gone. -/
theorem owned_move (rest : Bytes) (hne : g ≠ other) (hsource : S.guards other = some source) :
    (S.move g other source rest).owned + slot (S.guards g) = S.owned := by
  have hleft := Family.sum_update (f := S.guards) (i := other) (a := some ⟨false, rest⟩) slot
  have hmoved := Family.sum_update
    (f := Function.update S.guards other (some ⟨false, rest⟩)) (i := g) (a := some source) slot
  rw [Function.update_of_ne hne] at hmoved
  rw [hsource] at hleft
  rw [owned, owned, move, hmoved, hleft]
  simp [slot]

/-- Each step: the slots owned and acquired are owned afterwards, given back or forgotten. -/
theorem ledger_step (hs : S.step ev = some S') :
    S'.owned + S.releases ev + S.forgets ev = S.owned + S.acquires ev := by
  cases step_moves hs with
  | @construct g ip hg hgiven =>
    have hnew := Family.sum_update (f := S.guards) (i := g) (a := some ⟨true, ip⟩) slot
    rw [hg] at hnew
    simpa [owned, acquires, releases, forgets, hgiven, slot] using hnew
  | refused hrefused => simp [owned, acquires, releases, forgets, hrefused]
  | @moveConstruct g other rest source hg hsource =>
    have hne : g ≠ other := by
      rintro rfl
      rw [hg] at hsource
      cases hsource
    have hmoved := owned_move rest hne hsource
    rw [hg] at hmoved
    simpa [acquires, releases, forgets, slot] using hmoved
  | @moveAssign g other rest source hne hsource =>
    simpa [acquires, releases, forgets] using owned_move rest hne hsource
  | @destroy g guard hg =>
    have hless := Family.sum_update (f := S.guards) (i := g) (a := none) slot
    simpa [owned, acquires, releases, forgets, slot] using hless

/-- The limiter counts the slots owned and those forgotten. -/
theorem represents_step (h : S.limiter.Represents (S.owned + forgotten))
    (hs : S.step ev = some S') :
    S'.limiter.Represents (S'.owned + (forgotten + S.forgets ev)) := by
  have hledger := ledger_step hs
  cases step_moves hs with
  | @construct g ip hg hgiven =>
    have hasked : (S.limiter.tryAcquire ip).1.Represents _ := h.tryAcquire
    rw [if_pos hgiven] at hasked
    simp only [acquires, releases, forgets, hgiven, if_true, add_zero] at hledger ⊢
    rw [hledger]
    rwa [add_right_comm, Multiset.add_comm _ {ip}, Multiset.singleton_add]
  | @refused g ip hrefused =>
    have hasked : (S.limiter.tryAcquire ip).1.Represents _ := h.tryAcquire
    rw [if_neg (by simp [hrefused])] at hasked
    simpa [forgets, owned] using hasked
  | @moveConstruct g other rest source hg hsource =>
    simp only [acquires, releases, forgets, add_zero] at hledger ⊢
    rw [hledger]
    exact h
  | @moveAssign g other rest source hne hsource =>
    simp only [acquires, releases, forgets, add_zero] at hledger ⊢
    rw [add_comm forgotten, ← add_assoc, hledger]
    exact h
  | @destroy g guard hg =>
    simp only [acquires, releases, forgets, add_zero, hg] at hledger ⊢
    rw [← hledger] at h
    match guard with
    | ⟨true, ip⟩ =>
      have hone (held : Multiset Bytes) :
          held + slot (some ⟨true, ip⟩) + forgotten = ip ::ₘ (held + forgotten) := by
        rw [slot, ← Multiset.singleton_add]
        abel
      rw [hone] at h
      exact h.release
    | ⟨false, _⟩ => simpa [slot, destruct] using h

theorem ledger_of_run (hrun : Run step (init maxTotal maxPerIp) tr S) :
    S.owned + along releases tr + along forgets tr = along acquires tr := by
  induction hrun with
  | nil => simp [owned_init]
  | @snoc tr S S' ev hr hs ih =>
    simp only [along_append, along_singleton]
    calc S'.owned + (along releases tr + S.releases ev) + (along forgets tr + S.forgets ev)
        = S'.owned + S.releases ev + S.forgets ev + along releases tr + along forgets tr := by abel
      _ = S.owned + along releases tr + along forgets tr + S.acquires ev := by
        rw [ledger_step hs]
        abel
      _ = along acquires tr + S.acquires ev := by rw [ih]

theorem represents_of_run (hrun : Run step (init maxTotal maxPerIp) tr S) :
    S.limiter.Represents (S.owned + along forgets tr) := by
  induction hrun with
  | nil =>
    rw [owned_init]
    exact ConnectionLimiter.represents_init maxTotal maxPerIp
  | snoc _ hs ih =>
    rw [along_append, along_singleton]
    exact represents_step ih hs

/-- The limiter holds as many slots of every address as guards own exactly if none was
forgotten. -/
theorem count_eq_owners_iff (hrun : Run step (init maxTotal maxPerIp) tr S) :
    (∀ ip, S.limiter.count ip = S.owners ip) ↔ along forgets tr = 0 := by
  have hcount (ip : Bytes) : S.limiter.count ip = S.owners ip + (along forgets tr).count ip := by
    rw [(represents_of_run hrun).count, Multiset.count_add, count_owned]
  constructor
  · intro h
    rw [Multiset.eq_zero_iff_forall_notMem]
    intro ip
    have := h ip
    rw [← Multiset.count_eq_zero]
    have := hcount ip
    omega
  · intro h ip
    rw [hcount, h, Multiset.count_zero, add_zero]

/-- In every state of a run the limiter holds as many slots of each address as guards own, and
each slot acquired is owned or was given back once, if and only if no guard is moved onto one that
owns a slot. -/
theorem slots_iff (hrun : Run step (init maxTotal maxPerIp) tr S) :
    (Throughout (fun S => ∀ ip, S.limiter.count ip = S.owners ip) tr S ↔
        ∀ p ∈ tr, ¬ p.1.Overwrites p.2) ∧
      (along acquires tr = S.owned + along releases tr ↔ ∀ p ∈ tr, ¬ p.1.Overwrites p.2) := by
  constructor
  · apply hrun.throughout_iff_trace
    · intro tr S hrun
      rw [count_eq_owners_iff hrun, along_forgets_eq_zero_iff]
    · intro tr tr' h p hp
      exact h p (List.mem_append_left _ hp)
  · rw [← along_forgets_eq_zero_iff, ← ledger_of_run hrun, add_eq_left]

end GuardedLimiter

namespace Demo

/-- A slot goes from one guard to another and back, and is given back by the one that has it. -/
def movedGuard : List (GuardEvent (Fin 2)) :=
  [.construct 0 (lit "10.0.0.1"), .moveConstruct 1 0 [], .moveAssign 0 1 [], .destroy 1,
    .destroy 0]

theorem slots_of_moved_guard : ∃ tr S,
    Run GuardedLimiter.step (GuardedLimiter.init 8 2) tr S ∧ tr.map Prod.snd = movedGuard ∧
      Throughout (fun S => ∀ ip, S.limiter.count ip = S.owners ip) tr S := by
  have hexec : (exec GuardedLimiter.step (GuardedLimiter.init 8 2) movedGuard).map
      (fun r => GuardedLimiter.along GuardedLimiter.forgets r.1) = some 0 := by decide
  obtain ⟨r, hr, hforgets⟩ := Option.map_eq_some_iff.mp hexec
  have hrun := Run.of_exec hr
  exact ⟨_, _, hrun, exec_events hr, (GuardedLimiter.slots_iff hrun).1.mpr
    (GuardedLimiter.along_forgets_eq_zero_iff.mp hforgets)⟩

/-- Of two guards one is moved onto the other; when both are gone a slot is still taken. -/
def overwrittenGuard : List (GuardEvent (Fin 2)) :=
  [.construct 0 (lit "10.0.0.1"), .construct 1 (lit "10.0.0.2"), .moveAssign 0 1 [],
    .destroy 0, .destroy 1]

theorem slot_leaks_of_overwritten_guard :
    ¬ ∀ (maxTotal maxPerIp : ℕ) (tr : List (GuardedLimiter (Fin 2) × GuardEvent (Fin 2)))
        (S : GuardedLimiter (Fin 2)),
        Run GuardedLimiter.step (GuardedLimiter.init maxTotal maxPerIp) tr S →
        ∀ ip, S.limiter.count ip = S.owners ip := by
  intro hall
  have hexec : (exec GuardedLimiter.step (GuardedLimiter.init 8 2) overwrittenGuard).map
      (fun r => (r.2.limiter.count (lit "10.0.0.1"), r.2.owners (lit "10.0.0.1"))) =
        some (1, 0) := by decide
  obtain ⟨r, hr, hcounts⟩ := Option.map_eq_some_iff.mp hexec
  have heq := hall 8 2 _ _ (Run.of_exec hr) (lit "10.0.0.1")
  rw [Prod.mk.injEq] at hcounts
  omega

end Demo

end JotaTranscriber
