import DocSync.Service.Step

/-!
A service over a server in memory and a clock that moves on demand.

The server succeeds at once, unless it is told to refuse a kind of call or to hold it back until it
is released. Notifications before the stream is taken are queued. After every step all work that can
be done is done, and time flows through every deadline on its way.
-/

namespace DocSync

/-- What a server can be told to refuse or to hold. -/
inductive CallKind where
  | connect
  | sync
  | complete
  | info
  | shutdown
  deriving DecidableEq, Repr

namespace CallKind

def name : CallKind → String
  | connect => "connect"
  | sync => "sync"
  | complete => "complete"
  | info => "info"
  | shutdown => "shutdown"

def refusal (k : CallKind) : Failure := .transport (k.name ++ " refused")

/-- The kind of call whose answer a task waits for. -/
def ofWork? : Service.Work → Option CallKind
  | .connect _ => some connect
  | .sync _ _ _ => some sync
  | .complete _ _ _ => some complete
  | .info _ _ _ => some info
  | .shutdown _ => some shutdown
  | .start _ => none
  | .debounce _ _ _ _ _ _ => none
  | .connectTurn _ => none

end CallKind

/-- A call that was held: the task that made it, and whether it still waits. -/
structure HeldCall where
  task : Nat
  kind : CallKind
  isWaiting : Bool
  deriving DecidableEq, Repr

structure Simulation where
  service : Service
  refused : List CallKind
  refusesStream : Bool
  heldKinds : List CallKind
  held : List HeldCall
  isTaken : Bool
  isEnded : Bool
  queue : List ServerEvent
  completion : CompletionResult
  info : InfoResponse

namespace Simulation

def initial (service : Service) : Simulation where
  service := service
  refused := []
  refusesStream := false
  heldKinds := []
  held := []
  isTaken := false
  isEnded := false
  queue := []
  completion := .empty
  info := ⟨none⟩

/-- The stream of notifications can be taken once. -/
def stream (m : Simulation) : Except Failure Unit :=
  if m.refusesStream then .error (.transport "subscribe refused")
  else if m.isTaken then .error (.transport "already subscribed")
  else .ok ()

/-- The answer to a call of a kind that fails as given, or succeeds. -/
def answerOf (m : Simulation) (failure : Option Failure) : CallKind → Service.Answer
  | .connect => .connected (toExcept failure ()) m.stream
  | .sync => .synced (toExcept failure ())
  | .complete => .completed (toExcept failure m.completion)
  | .info => .informed (toExcept failure m.info)
  | .shutdown => .stopped (toExcept failure ())
where
  toExcept {α : Type} : Option Failure → α → Except Failure α
    | some e, _ => .error e
    | none, a => .ok a

/-- Hands the queued notifications to a service that has just taken the stream. -/
def drain (m : Simulation) : Simulation :=
  let service := m.queue.foldl (fun s e => s.next (.receive e)) m.service
  let service := if m.isEnded then service.next .endStream else service
  { m with service := service, queue := [] }

/-- Answers a call. A connect that succeeds takes the stream. -/
def answer (m : Simulation) (task : Nat) (kind : CallKind) (failure : Option Failure) :
    Simulation :=
  let takes := kind = .connect ∧ failure = none ∧ Service.isOk m.stream
  let m := { m with service := m.service.next (.answer task (m.answerOf failure kind)) }
  if takes then ({ m with isTaken := true }).drain else m

/-- A call that the server has neither answered nor held. -/
def newCall? (m : Simulation) : Option (Nat × CallKind) :=
  m.service.tasks.findSome? fun (task, w) =>
    match CallKind.ofWork? w with
    | none => none
    | some kind =>
      if m.held.any fun c => c.task == task && c.isWaiting then none else some (task, kind)

/-- Meets a new call: refuses it, holds it, or lets it succeed. -/
def meet (m : Simulation) (task : Nat) (kind : CallKind) : Simulation :=
  if m.refused.contains kind then m.answer task kind (some kind.refusal)
  else if m.heldKinds.contains kind then { m with held := m.held ++ [⟨task, kind, true⟩] }
  else m.answer task kind none

def settleFor : Nat → Simulation → Simulation
  | 0, m => m
  | n + 1, m =>
    match m.newCall? with
    | some (task, kind) => settleFor n (m.meet task kind)
    | none =>
      match m.service.turn? with
      | none => m
      | some e => settleFor n { m with service := m.service.next e }

/-- Does all work that can be done. Every call is met once, and every other step takes a turn. -/
def settle (m : Simulation) : Simulation := settleFor (2 * m.service.load) m

def act (m : Simulation) (e : Service.Event) : Simulation :=
  ({ m with service := m.service.next e }).settle

/-- Lets the clock stop at each deadline up to a time and settles there. -/
def flow (time : Nat) : Nat → Simulation → Simulation
  | 0, m => m
  | n + 1, m =>
    match m.service.deadline? with
    | none => m
    | some deadline =>
      if deadline ≤ time then
        flow time n (m.act (.pass (deadline - m.service.now)))
      else m

def advance (m : Simulation) (time : Nat) : Simulation :=
  let m := m.settle
  let horizon := m.service.now + time
  let m := m.flow horizon m.service.load
  m.act (.pass (horizon - m.service.now))

/-- Sends a notification, and tells whether anyone takes it. -/
def emit (m : Simulation) (e : ServerEvent) : Simulation × Bool :=
  if m.isEnded then (m, false)
  else if !m.isTaken then ({ m with queue := m.queue ++ [e] }, true)
  else if m.service.isListening then (m.act (.receive e), true)
  else (m, false)

def endStream (m : Simulation) : Simulation :=
  let m := { m with isEnded := true }
  if m.isTaken then m.act .endStream else m

/-- Answers a held call, and tells whether it was waiting. -/
def release (m : Simulation) (index : Nat) (failure : Option Failure) : Simulation × Bool :=
  match m.held[index]? with
  | none => (m, false)
  | some c =>
    if c.isWaiting then
      let m := { m with held := m.held.set index { c with isWaiting := false } }
      ((m.answer c.task c.kind failure).settle, true)
    else (m, false)

/-- Tells the server whether to refuse a kind of call. -/
def refuse (m : Simulation) (kind : CallKind) (isOn : Bool) : Simulation :=
  { m with refused := if isOn then kind :: m.refused else m.refused.filter (· != kind) }

/-- Tells the server whether to hold a kind of call. -/
def holdKind (m : Simulation) (kind : CallKind) (isOn : Bool) : Simulation :=
  { m with heldKinds := if isOn then kind :: m.heldKinds else m.heldKinds.filter (· != kind) }

end Simulation

end DocSync
