import DocSync.Agenda
import DocSync.Place

/-!
A delay that can be restarted. Scheduling drops the pending task and puts a new one to sleep, so of
a burst of calls only the last one acts. A task carries the generation in which it was scheduled,
and acts only while that is still the timer's own. What is pending is cleared before the action
runs.
-/

namespace DocSync

structure Timer where
  generation : Nat
  pending : Option Nat
  deriving DecidableEq, Repr

namespace Timer

variable {ι : Type}

def idle : Timer := ⟨0, none⟩

def isPending (t : Timer) : Bool := t.pending.isSome

def abort (t : Timer) (a : Agenda ι) : Agenda ι :=
  match t.pending with
  | none => a
  | some id => a.drop id

/-- Restarts the delay. The job is built from the generation it belongs to. Outside a runtime its
task is refused; by then the pending one is dropped and the generation has moved on. -/
def schedule (t : Timer) (a : Agenda ι) (deadline : Nat) (job : Nat → ι)
    (place : Place := .inside) : Timer × Agenda ι :=
  let generation := t.generation + 1
  match place with
  | .inside =>
    let (agenda, id) := (t.abort a).sleep deadline (job generation)
    (⟨generation, some id⟩, agenda)
  | .outside => (⟨generation, none⟩, t.abort a)

def cancel (t : Timer) (a : Agenda ι) : Timer × Agenda ι :=
  match t.pending with
  | none => (t, a)
  | some id => (⟨t.generation + 1, none⟩, a.drop id)

/-- The timer once a task of a generation has run, if the task may act. -/
def fire? (t : Timer) (generation : Nat) : Option Timer :=
  if t.generation = generation then some { t with pending := none } else none

end Timer

end DocSync
