import Mathlib.Data.Fintype.Defs
import Mathlib.Data.List.Basic
import Mathlib.Logic.Function.Basic
import JotaTranscriber.Transition.Run

/-! # Threads that take locks

What a thread does with mutexes and with other threads, as a language: guards
that unlock at the end of their scope, attempts to lock, exceptions and their
handlers, starts and joins. What depends on anything else is a choice. Each
thread runs on a stack of its own, and holds the locks whose guards are there.
-/

namespace JotaTranscriber.Locking

inductive Cmd (L T : Type*) where
  | skip
  | raise
  /-- The process ends. -/
  | exit
  | seq (c d : Cmd L T)
  | choose (c d : Cmd L T)
  /-- Any number of turns. -/
  | loop (c : Cmd L T)
  /-- Under a guard, which unlocks however the command ends. -/
  | locked (l : L) (c : Cmd L T)
  /-- Under a guard if the lock can be had at once, and not at all otherwise. -/
  | tryLocked (l : L) (c : Cmd L T)
  /-- The second command handles what the first one raises. -/
  | handled (c d : Cmd L T)
  | start (t : T)
  | join (t : T)

namespace Cmd

variable {L T : Type*}

/-- One command after the other. -/
def block : List (Cmd L T) → Cmd L T
  | [] => .skip
  | c :: cs => .seq c (block cs)

def perhaps (c : Cmd L T) : Cmd L T := .choose c .skip

/-- A call that may end in an exception. -/
def mayRaise : Cmd L T := perhaps .raise

end Cmd

inductive Frame (L T : Type*) where
  | run (c : Cmd L T)
  | guard (l : L)
  | handler (d : Cmd L T)

structure Thread (L T : Type*) where
  stack : List (Frame L T)
  /-- An exception is on its way up the stack. -/
  raising : Bool := false
  started : Bool := false

/-- The locks whose guards are on a stack. -/
def held {L T : Type*} : List (Frame L T) → List L
  | [] => []
  | .guard l :: K => l :: held K
  | .run _ :: K | .handler _ :: K => held K

namespace Thread

variable {L T : Type*}

def Finished (th : Thread L T) : Prop := th.stack = [] ∧ th.raising = false

/-- An exception has left the function of the thread, or it has called for the exit. -/
def Escaped (th : Thread L T) : Prop := th.stack = [] ∧ th.raising = true

instance (th : Thread L T) : Decidable th.Finished :=
  match h : th.stack with
  | [] => decidable_of_iff (th.raising = false) (by simp [Finished, h])
  | _ :: _ => .isFalse (by simp [Finished, h])

instance (th : Thread L T) : Decidable th.Escaped :=
  match h : th.stack with
  | [] => decidable_of_iff (th.raising = true) (by simp [Escaped, h])
  | _ :: _ => .isFalse (by simp [Escaped, h])

end Thread

section System

variable {L T : Type*}

/-- No thread holds the lock. -/
def Free (S : T → Thread L T) (l : L) : Prop := ∀ t, l ∉ held (S t).stack

/-- The process has ended. -/
def Ended (S : T → Thread L T) : Prop := ∃ t, (S t).Escaped

instance [Fintype T] [DecidableEq L] (S : T → Thread L T) (l : L) : Decidable (Free S l) :=
  inferInstanceAs (Decidable (∀ _, _))

instance [Fintype T] (S : T → Thread L T) : Decidable (Ended S) :=
  inferInstanceAs (Decidable (∃ _, _))

variable [DecidableEq T]

/-- The thread goes on with this stack. -/
def put (S : T → Thread L T) (t : T) (K : List (Frame L T)) : T → Thread L T :=
  Function.update S t { S t with stack := K }

/-- The thread raises an exception on this stack. -/
def raiseOn (S : T → Thread L T) (t : T) (K : List (Frame L T)) : T → Thread L T :=
  Function.update S t { S t with stack := K, raising := true }

variable [Fintype T] [DecidableEq L]

/-- The command on top of the stack of a thread; `b` is its choice, where it has one. -/
def runCmd (S : T → Thread L T) (t : T) (b : Bool) (K : List (Frame L T)) :
    Cmd L T → Option (T → Thread L T)
  | .skip => some (put S t K)
  | .raise => some (raiseOn S t K)
  | .exit => some (raiseOn S t [])
  | .seq c d => some (put S t (.run c :: .run d :: K))
  | .choose c d => some (put S t (.run (if b then c else d) :: K))
  | .loop c => some (put S t (if b then .run c :: .run (.loop c) :: K else K))
  | .locked l c => if Free S l then some (put S t (.run c :: .guard l :: K)) else none
  | .tryLocked l c =>
    some (put S t (if b = true ∧ Free S l then .run c :: .guard l :: K else K))
  | .handled c d => some (put S t (.run c :: .handler d :: K))
  | .start u => some (put (Function.update S u { S u with started := true }) t K)
  | .join u => if (S u).started = true ∧ ¬ (S u).Finished then none else some (put S t K)

/-- A step of the thread `ev.1`. -/
def step (S : T → Thread L T) (ev : T × Bool) : Option (T → Thread L T) :=
  if Ended S ∨ (S ev.1).started = false then none
  else match (S ev.1).raising, (S ev.1).stack with
  | _, [] => none
  | false, .run c :: K => runCmd S ev.1 ev.2 K c
  | false, .guard _ :: K => some (put S ev.1 K)
  | false, .handler _ :: K => some (put S ev.1 K)
  | true, .handler d :: K =>
    some (Function.update S ev.1 { S ev.1 with stack := .run d :: K, raising := false })
  | true, _ :: K => some (raiseOn S ev.1 K)

end System

end JotaTranscriber.Locking
