import DocSync.Agenda
import DocSync.Wait

/-!
Callers of one wait on one clock. Calls, clock moves and each task's turn to run are events of their
own; `settle` and `advance` run every task as soon as it can give its answer.
-/

namespace DocSync.Wait

/-- A caller: its label and the generation of its wait. -/
structure Caller (β : Type) where
  label : β
  generation : Nat
  deriving DecidableEq, Repr

/-- An answer: when it came, to whom, and the rejection if it is one. -/
structure Answer (β : Type) where
  time : Nat
  label : β
  reason : Option WaitError
  deriving DecidableEq, Repr

/-- The wait, the tasks of its callers, the time, and the answers, newest first. -/
structure Group (β : Type) where
  now : Nat
  wait : Wait
  agenda : Agenda (Caller β)
  done : List (Answer β)

inductive Event (β : Type) where
  | wait (delay : Nat) (label : β)
  | cancel
  /-- A caller's task is dropped; its wait stays outstanding. -/
  | abandon (id : Nat)
  /-- The clock moves without any task running. -/
  | pass (time : Nat)
  /-- A task gets to look at its wait. -/
  | run (id : Nat)

namespace Group

variable {β : Type}

def empty : Group β := ⟨0, .idle, .empty, []⟩

def start (g : Group β) (delay : Nat) (label : β) : Group β :=
  let (wait, generation) := g.wait.start
  let (agenda, _) := g.agenda.sleep (g.now + delay) ⟨label, generation⟩
  { g with wait := wait, agenda := agenda }

def poll? (g : Group β) (s : Sleeper (Caller β)) : Option (Option WaitError × Wait) :=
  g.wait.poll? s.job.generation (s.deadline ≤ g.now)

/-- Gives a task's answer, if it has one; the task ends with it. -/
def run (g : Group β) (s : Sleeper (Caller β)) : Group β :=
  match g.poll? s with
  | none => g
  | some (reason, wait) =>
    { g with
      wait := wait
      agenda := g.agenda.drop s.id
      done := ⟨g.now, s.job.label, reason⟩ :: g.done }

def next (g : Group β) : Event β → Group β
  | .wait delay label => g.start delay label
  | .cancel => { g with wait := g.wait.cancel }
  | .abandon id => { g with agenda := g.agenda.drop id }
  | .pass time => { g with now := g.now + time }
  | .run id =>
    match g.agenda.find? id with
    | none => g
    | some s => g.run s

/-- Lets every task in turn give its answer. -/
def settle (g : Group β) : Group β := g.agenda.sleepers.foldl run g

/-- Moves the clock to each deadline up to a time in turn, and settles there. -/
def flow (time : Nat) : Nat → Group β → Group β
  | 0, g => g
  | n + 1, g =>
    match g.agenda.due? time with
    | none => g
    | some s => flow time n ({ g with now := max g.now s.deadline }).settle

/-- Lets time flow. Every stop ends at least one task. -/
def advance (g : Group β) (time : Nat) : Group β :=
  let g := g.settle
  let horizon := g.now + time
  { g.flow horizon g.agenda.sleepers.length with now := horizon }

end Group

end DocSync.Wait
