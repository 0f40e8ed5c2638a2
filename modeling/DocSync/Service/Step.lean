import DocSync.Service.Request

/-!
A service as a machine. Each event is a piece of work that nothing interrupts: a call of the
service's user, an answer or a notification of the server, the clock moving, or the turn of a task.
Events may come in any order; one that does not apply changes nothing.

`settle` gives every task its turn and fires every timer that is due, until only answers, time or a
user can make anything happen.
-/

namespace DocSync

namespace Service

inductive Event where
  | openDocument (id : DocumentId) (document : Document) (channel : String)
  | beginOpen (id : DocumentId) (document : Document) (channel : String)
  | finishOpen (session : Nat)
  | closeDocument (id : DocumentId)
  | change (channel : String) (change : ContentChange)
  | setText (session : Nat) (text : List Char)
  | setContext (session : Nat) (before after : List Char)
  | closeSession (session : Nat)
  | flush (request session : Nat)
  | complete (request : Nat) (id : DocumentId) (position : EditorPosition)
  | info (request : Nat) (id : DocumentId) (position : EditorPosition) (use : InfoUse)
  | connect (request : Nat)
  | shutdown (request : Nat)
  | receive (event : ServerEvent)
  | endStream
  | answer (task : Nat) (answer : Answer)
  /-- The clock moves without any task running. -/
  | pass (time : Nat)
  /-- A debounce timer's task whose deadline is reached gets its turn. -/
  | fire (sleeper : Nat)
  | run (task : Nat)

/-- Runs a debounce timer's task. If it is not outdated, a task is started that pushes. -/
def fire (s : Service) (sleeper : Sleeper Debounce) : Service :=
  let s := { s with agenda := s.agenda.drop sleeper.id }
  match s.session? sleeper.job.session with
  | none => s
  | some x =>
    match x.timer.fire? sleeper.job.generation with
    | none => s
    | some timer =>
      (s.setSession sleeper.job.session { x with timer := timer }).spawn
        (.start sleeper.job.session)

/-- A task's turn. A task that waits for an answer has none. -/
def run (s : Service) (task : Nat) : Work → Service
  | .start h => s.push task h .nothing
  | .debounce request h id p generation deadline =>
    s.runDebounce task request h id p generation deadline
  | .connectTurn request => s.runConnectTurn task request
  | .sync _ _ _ => s
  | .complete _ _ _ => s
  | .info _ _ _ => s
  | .connect _ => s
  | .shutdown _ => s

/-- The call that failed was one of a request about a document. -/
def fail (s : Service) (task request : Nat) (id : DocumentId) (e : Failure) (o : Outcome) :
    Service :=
  (s.report (some id) e.message).finish task request o

def isOk : Except Failure Unit → Bool
  | .ok () => true
  | .error _ => false

/-- Takes in the answer that a task waits for. -/
def answer (s : Service) (task : Nat) : Work → Answer → Service
  | .sync h t after, .synced result =>
    let (s, result) := (s.note (.answered task h t.version (isOk result))).completePush h t result
    s.afterPush task result after
  | .complete request id _, .completed (.error e) =>
    s.fail task request id e (.completion (.error e))
  | .complete request _ p, .completed (.ok result) =>
    s.finish task request (.completion (.ok (.items (CompletionItem.ofResult result p))))
  | .info request id use, .informed (.error e) => s.fail task request id e (InfoUse.refuse e use)
  | .info request _ use, .informed (.ok r) => s.finish task request (InfoUse.outcome r use)
  | .connect request, .connected result stream => s.completeConnect task request result stream
  | .shutdown request, .stopped result => s.finish task request (.done result)
  | _, _ => s

/-- One event at a place. Only a call that schedules a push asks where it is made: whatever is
awaited is driven from inside a runtime. -/
def next (s : Service) : Event → (place : Place := .inside) → Service
  | .openDocument id document channel, place => (s.openDocument id document channel place).1
  | .beginOpen id document channel, place =>
    match s.beginOpen id document channel place with
    | .ok (s, _) => s
    | .error _ => s
  | .finishOpen h, _ => if s.opening.contains h then (s.finishOpen h).1 else s
  | .closeDocument id, _ => (s.closeDocument id).1
  | .change channel change, place => s.fireChannel channel change place
  | .setText h text, place => s.setText h text place
  | .setContext h before after, place => s.setContext h before after place
  | .closeSession h, _ => s.closeSession h
  | .flush request h, _ => s.requestFlush request h
  | .complete request id p, _ => s.requestCompletion request id p
  | .info request id p use, _ => s.requestInfo request id p use
  | .connect request, _ => s.requestConnect request
  | .shutdown request, _ => s.requestShutdown request
  | .receive e, _ => s.receive e
  | .endStream, _ => { s with isListening := false }
  | .answer task a, _ =>
    match s.tasks.lookup task with
    | none => s
    | some w => s.answer task w a
  | .pass time, _ => { s with now := s.now + time }
  | .fire id, _ =>
    match s.agenda.find? id with
    | none => s
    | some sleeper => if sleeper.deadline ≤ s.now then s.fire sleeper else s
  | .run task, _ =>
    match s.tasks.lookup task with
    | none => s
    | some w => s.run task w

def canRun (s : Service) : Work → Bool
  | .start _ => true
  | .debounce _ _ _ _ generation deadline =>
    (s.wait.poll? generation (deadline ≤ s.now)).isSome
  | .connectTurn _ => s.link != .busy
  | _ => false

/-- The next turn that is due: a timer's first, then that of the oldest task that can run. -/
def turn? (s : Service) : Option Event :=
  match s.agenda.due? s.now with
  | some sleeper => some (.fire sleeper.id)
  | none => (s.tasks.find? fun t => s.canRun t.2).map fun t => .run t.1

/-- How many turns and answers a task can still take. -/
def Work.load : Work → Nat
  | .start _ => 2
  | .sync _ _ (.completion _ _ _ _) => 2
  | .sync _ _ _ => 1
  | .debounce _ _ _ _ _ _ => 3
  | .complete _ _ _ => 1
  | .info _ _ _ => 1
  | .connectTurn _ => 2
  | .connect _ => 1
  | .shutdown _ => 1

/-- How many turns and answers are still to come if no user does anything. -/
def load (s : Service) : Nat :=
  3 * s.agenda.sleepers.length + Keyed.total (fun t => Work.load t.2) s.tasks

def settleFor : Nat → Service → Service
  | 0, s => s
  | n + 1, s =>
    match s.turn? with
    | none => s
    | some e => settleFor n (s.next e)

def settle (s : Service) : Service := settleFor s.load s

def Work.deadline? : Work → Option Nat
  | .debounce _ _ _ _ _ deadline => some deadline
  | _ => none

def deadline? (s : Service) : Option Nat :=
  (s.agenda.sleepers.map Sleeper.deadline ++ s.tasks.filterMap fun t => Work.deadline? t.2).min?

end Service

end DocSync
