import DocSync.Keyed
import DocSync.Timer

/-!
Named timers on one clock. An action logs the time, its label and whether its timer is pending, and
may then schedule on the same timer. Calls and clock moves are events of their own, and so is each
task's turn to run; `settle` and `advance` run every task at its exact deadline.
-/

namespace DocSync.Timer

/-- What an action does: it logs a label, and may schedule another action after a delay. -/
inductive Plan (β : Type) where
  | last (label : β)
  | andThen (label : β) (delay : Nat) (next : Plan β)
  deriving Repr

namespace Plan

variable {β : Type}

def label : Plan β → β
  | last l => l
  | andThen l _ _ => l

def length : Plan β → Nat
  | last _ => 1
  | andThen _ _ next => next.length + 1

end Plan

/-- What a sleeping task belongs to and does. -/
structure Job (β : Type) where
  name : String
  generation : Nat
  plan : Plan β
  deriving Repr

structure Firing (β : Type) where
  time : Nat
  label : β
  pending : Bool
  deriving Repr

/-- The timers, the tasks asleep, the time, and what fired, newest first. -/
structure Group (β : Type) where
  now : Nat
  timers : List (String × Timer)
  agenda : Agenda (Job β)
  fired : List (Firing β)

inductive Event (β : Type) where
  | schedule (name : String) (delay : Nat) (plan : Plan β)
  | cancel (name : String)
  | drop (name : String)
  /-- The clock moves without any task running. -/
  | pass (time : Nat)
  /-- A task whose deadline is reached gets to run. -/
  | run (id : Nat)

namespace Group

variable {β : Type}

def empty : Group β := ⟨0, [], .empty, []⟩

/-- Schedules on a timer, which is made if it is not there. -/
def schedule (g : Group β) (name : String) (delay : Nat) (plan : Plan β) : Group β :=
  let timer := (g.timers.lookup name).getD .idle
  let (timer, agenda) := timer.schedule g.agenda (g.now + delay) fun n => ⟨name, n, plan⟩
  { g with timers := Keyed.put name timer g.timers, agenda := agenda }

def cancel (g : Group β) (name : String) : Group β :=
  match g.timers.lookup name with
  | none => g
  | some timer =>
    let (timer, agenda) := timer.cancel g.agenda
    { g with timers := Keyed.put name timer g.timers, agenda := agenda }

def drop (g : Group β) (name : String) : Group β :=
  { g.cancel name with timers := Keyed.remove name g.timers }

def act (g : Group β) (name : String) (pending : Bool) (plan : Plan β) : Group β :=
  let g := { g with fired := ⟨g.now, plan.label, pending⟩ :: g.fired }
  match plan with
  | .last _ => g
  | .andThen _ delay next => g.schedule name delay next

/-- Runs a task: it leaves the agenda, and acts if it is not outdated. -/
def run (g : Group β) (s : Sleeper (Job β)) : Group β :=
  let g := { g with agenda := g.agenda.drop s.id }
  match (g.timers.lookup s.job.name).bind fun t => t.fire? s.job.generation with
  | none => g
  | some timer =>
    ({ g with timers := Keyed.put s.job.name timer g.timers }).act s.job.name timer.isPending
      s.job.plan

def next (g : Group β) : Event β → Group β
  | .schedule name delay plan => g.schedule name delay plan
  | .cancel name => g.cancel name
  | .drop name => g.drop name
  | .pass time => { g with now := g.now + time }
  | .run id =>
    match g.agenda.find? id with
    | none => g
    | some s => if s.deadline ≤ g.now then g.run s else g

def load (g : Group β) : Nat :=
  g.agenda.sleepers.foldr (fun s n => s.job.plan.length + n) 0

/-- Runs, up to a number of times, the first task that is due at a time, at its deadline. -/
def runDue (time : Nat) : Nat → Group β → Group β
  | 0, g => g
  | n + 1, g =>
    match g.agenda.due? time with
    | none => g
    | some s => runDue time n (({ g with now := max g.now s.deadline }).run s)

/-- Runs all tasks that are due now. Each run leaves fewer actions to come. -/
def settle (g : Group β) : Group β := g.runDue g.now g.load

/-- Lets time flow and runs every task at its deadline. -/
def advance (g : Group β) (time : Nat) : Group β :=
  let g := g.settle
  let horizon := g.now + time
  { g.runDue horizon g.load with now := horizon }

end Group

end DocSync.Timer
