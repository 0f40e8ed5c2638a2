import DocSync.Abbreviation.Input
import DocSync.Completion
import DocSync.Diagnostics.Store
import DocSync.Failure
import DocSync.Hover
import DocSync.Running
import DocSync.Session
import DocSync.Signal
import DocSync.Wait

/-!
The state of a service: its sessions, what it has asked the server, and the tasks under way.

A request runs as a task. Between two waits a task is not interrupted, so a task is what it waits
for together with what it does next. The journal lists, newest first, all that can be observed from
outside.
-/

namespace DocSync

namespace Service

/-- A request to the server as the service makes it. A `sync` also notes the session and the version
that it is made for. -/
inductive Call where
  | connect
  | subscribe
  | sync (session version : Nat) (document : DocumentId) (content : List Char)
  | complete (document : DocumentId) (position : ServerPosition)
  | info (document : DocumentId) (position : ServerPosition)
  | shutdown
  deriving DecidableEq, Repr

/-- What the server answers to a call. The answer to a connect also says whether the stream of
notifications could be taken. -/
inductive Answer where
  | connected (result stream : Except Failure Unit)
  | synced (result : Except Failure Unit)
  | completed (result : Except Failure CompletionResult)
  | informed (result : Except Failure InfoResponse)
  | stopped (result : Except Failure Unit)
  deriving Repr

inductive Outcome where
  | done (result : Except Failure Unit)
  | completion (result : Except Failure CompletionOutcome)
  | hover (result : Except Failure HoverInfo)
  | info (result : Except Failure (Option InfoRecord))
  deriving Repr

/-- What follows a push: nothing, the end of a flush, or the question of a completion request. -/
inductive After where
  | nothing
  | flush (request : Nat)
  | completion (request session : Nat) (document : DocumentId) (position : EditorPosition)
  deriving DecidableEq, Repr

inductive InfoUse where
  | hover (position : EditorPosition)
  | record
  deriving DecidableEq, Repr

/-- A task, by what it waits for. -/
inductive Work where
  /-- Its first turn; then it pushes. -/
  | start (session : Nat)
  | sync (session : Nat) (ticket : Ticket) (after : After)
  | debounce (request session : Nat) (document : DocumentId) (position : EditorPosition)
      (generation deadline : Nat)
  | complete (request : Nat) (document : DocumentId) (position : EditorPosition)
  | info (request : Nat) (document : DocumentId) (use : InfoUse)
  /-- Another connect is under way. -/
  | connectTurn (request : Nat)
  | connect (request : Nat)
  | shutdown (request : Nat)
  deriving DecidableEq, Repr

inductive Notice where
  | called (task : Nat) (call : Call)
  /-- The push of a task was answered; the flag says whether it was accepted. -/
  | answered (task session version : Nat) (accepted : Bool)
  | failed (document : Option DocumentId) (message : String)
  | running (members : List DocumentId)
  | snapshot (messages : List ServerMessage)
  | markers (update : MarkerUpdate)
  | finished (request : Nat) (outcome : Outcome)
  deriving Repr

/-- The one-time connection: not made, being made by some task, or made. -/
inductive Link where
  | absent
  | busy
  | made
  deriving DecidableEq, Repr

/-- A debounce timer's task: the session and the timer generation that it belongs to. -/
structure Debounce where
  session : Nat
  generation : Nat
  deriving DecidableEq, Repr

end Service

/-- Sessions are known by their place in `sessions`, which keeps closed ones; `registry` holds the
open ones by document, and `opening` those that are not registered yet. -/
structure Service where
  syncDelay : Nat
  completionDelay : Nat
  input : AbbreviationInput
  now : Nat
  sessions : List Session
  opening : List Nat
  registry : List (DocumentId × Nat)
  channels : List (String × Signal Nat)
  running : RunningSet
  diagnostics : DiagnosticsStore
  wait : Wait
  agenda : Agenda Service.Debounce
  link : Service.Link
  isConnected : Bool
  isStopped : Bool
  isListening : Bool
  nextTask : Nat
  tasks : List (Nat × Service.Work)
  journal : List Service.Notice

namespace Service

def initial (syncDelay completionDelay : Nat) (input : AbbreviationInput) : Service where
  syncDelay := syncDelay
  completionDelay := completionDelay
  input := input
  now := 0
  sessions := []
  opening := []
  registry := []
  channels := []
  running := .empty
  diagnostics := .empty
  wait := .idle
  agenda := .empty
  link := .absent
  isConnected := false
  isStopped := false
  isListening := false
  nextTask := 0
  tasks := []
  journal := []

def note (s : Service) (n : Notice) : Service := { s with journal := n :: s.journal }

def session? (s : Service) (h : Nat) : Option Session := s.sessions[h]?

def setSession (s : Service) (h : Nat) (x : Session) : Service :=
  { s with sessions := s.sessions.set h x }

def open? (s : Service) (id : DocumentId) : Option Nat := s.registry.lookup id

def channel (s : Service) (name : String) : Signal Nat := (s.channels.lookup name).getD .empty

def report (s : Service) (id : Option DocumentId) (message : String) : Service :=
  s.note (.failed id message)

/-- Lets a task wait for what the work says. -/
def hold (s : Service) (task : Nat) (w : Work) : Service :=
  { s with tasks := Keyed.put task w s.tasks }

def spawn (s : Service) (w : Work) : Service :=
  { s with nextTask := s.nextTask + 1, tasks := s.tasks ++ [(s.nextTask, w)] }

def drop (s : Service) (task : Nat) : Service := { s with tasks := Keyed.remove task s.tasks }

def finish (s : Service) (task request : Nat) (o : Outcome) : Service :=
  (s.drop task).note (.finished request o)

/-- Makes a call and lets the task wait for its answer. -/
def ask (s : Service) (task : Nat) (w : Work) (c : Call) : Service :=
  (s.hold task w).note (.called task c)

end Service

end DocSync
