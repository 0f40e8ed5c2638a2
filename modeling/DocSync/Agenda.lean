/-!
Tasks that sleep until a deadline, in the order in which they were put to sleep. A task has a number
that is never used again and by which it can be dropped. Of the tasks that are due, the one with the
earliest deadline comes first, and of those with one deadline the one that was put to sleep first.
-/

namespace DocSync

structure Sleeper (ι : Type) where
  id : Nat
  deadline : Nat
  job : ι
  deriving DecidableEq, Repr

structure Agenda (ι : Type) where
  nextId : Nat
  sleepers : List (Sleeper ι)
  deriving DecidableEq, Repr

namespace Agenda

variable {ι : Type}

def empty : Agenda ι := ⟨0, []⟩

def sleep (a : Agenda ι) (deadline : Nat) (job : ι) : Agenda ι × Nat :=
  (⟨a.nextId + 1, a.sleepers ++ [⟨a.nextId, deadline, job⟩]⟩, a.nextId)

def drop (a : Agenda ι) (id : Nat) : Agenda ι :=
  { a with sleepers := a.sleepers.filter fun s => s.id != id }

def find? (a : Agenda ι) (id : Nat) : Option (Sleeper ι) :=
  a.sleepers.find? fun s => s.id == id

/-- The earlier of two tasks; the first where their deadlines agree. -/
def earlier (s t : Sleeper ι) : Sleeper ι := if t.deadline < s.deadline then t else s

def first? : List (Sleeper ι) → Option (Sleeper ι)
  | [] => none
  | s :: rest =>
    match first? rest with
    | none => some s
    | some t => some (earlier s t)

/-- The first task whose deadline is no later than a time. -/
def due? (a : Agenda ι) (time : Nat) : Option (Sleeper ι) :=
  (first? a.sleepers).filter fun s => s.deadline ≤ time

end Agenda

end DocSync
