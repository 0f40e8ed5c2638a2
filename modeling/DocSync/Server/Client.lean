import DocSync.Server.Response

/-!
A client of a server program that speaks lines of JSON.

A request is registered as pending, then the connection is looked at and the request sent, and if
that is refused the registration is taken back: three steps. A connection that breaks is first
marked dead, then everything pending is failed, and then the reason is told: three steps. A reader
that takes in an error looks its number up among what is pending, and only in a second step delivers
or tells it. All connections over time share what is pending, and steps of different parties may
interleave in any order. `Procedure` and `Errand` hold where each party stands.

The journal lists, newest first, what was sent, what was told to the listener, and how each request
and procedure ended.
-/

namespace DocSync.Server

inductive Stage where
  /-- Pending, and not sent yet. -/
  | registered
  /-- Not sent; its registration is still to be taken back. -/
  | refused (reason : Failure)
  | waiting
  | ended
  deriving DecidableEq, Repr

/-- A request with what was delivered to it. The first delivery counts. -/
structure Exchange where
  request : Request
  stage : Stage
  inbox : Option (Except Failure Json)

/-- A server program: whether the connection counts as alive, whether its output is being read, and
whether its reader is to stop. Until it does, lines that are at hand are still taken in. -/
structure Connection where
  isAlive : Bool
  isRead : Bool
  isAborted : Bool
  deriving DecidableEq, Repr

namespace Connection

def opened : Connection := ⟨true, true, false⟩

def die (x : Connection) : Connection := { x with isAlive := false }

def abort (x : Connection) : Connection := { x with isAborted := true }

def endReading (x : Connection) : Connection := { x with isRead := false }

end Connection

/-- What a reader does next with an error whose number it has looked up. -/
inductive Errand where
  /-- The number was pending. -/
  | answer (seq : Nat) (message : String)
  /-- It was not. -/
  | publish (message : String)
  deriving DecidableEq, Repr

inductive Loss where
  | closedOutput
  | failedReading
  | failedWriting
  deriving DecidableEq, Repr

namespace Loss

def message : Loss → String
  | closedOutput => "Lean server closed its output"
  | failedReading => "failed reading from Lean server: stream did not contain valid UTF-8"
  | failedWriting => "failed writing to Lean server: Broken pipe (os error 32)"

/-- A failed write does not end the reading. -/
def strike : Loss → Connection → Connection
  | failedWriting, x => x
  | _, x => x.endReading

end Loss

/-- Who marked a connection dead, and so what follows once everything pending was failed. -/
inductive Cause where
  | lost
  | replaced (canStart : Bool)
  | stopped (canStop : Bool)
  deriving DecidableEq, Repr

/-- Who takes a connection out stops its reader first. -/
def Cause.mark : Cause → Connection → Connection
  | .lost, x => x.die
  | _, x => x.abort.die

/-- The next step of a party that changes connections. -/
inductive Procedure where
  /-- Look whether an alive connection is installed, and take a dead one out. -/
  | connect (canStart : Bool)
  /-- Mark a connection dead for a reason. -/
  | mark (connection : Nat) (reason : String) (cause : Cause)
  /-- Fail everything pending; the reason is to be told if the connection was alive until then. -/
  | drain (wasAlive : Bool) (reason : String) (cause : Cause)
  | announce (reason : String) (cause : Cause)
  | start (canStart : Bool)
  /-- Install the connection to a program that was started. -/
  | install (connection : Nat)
  /-- Take the installed connection out for good. -/
  | shutdown (canStop : Bool)
  deriving DecidableEq, Repr

inductive Notice where
  | sent (connection : Nat) (request : Request)
  | told (event : ServerEvent)
  | ended (seq : Nat) (result : Except Failure Reply)
  | settled (procedure : Nat) (result : Except Failure Unit)

structure Client where
  lastSeq : Nat
  exchanges : List Exchange
  pending : List Nat
  connections : List Connection
  /-- The readers that have looked a number up, by their connections. -/
  errands : List (Nat × Errand)
  installed : Option Nat
  nextProcedure : Nat
  procedures : List (Nat × Procedure)
  isSubscribed : Bool
  journal : List Notice

namespace Client

variable [Wording]

def initial : Client where
  lastSeq := 0
  exchanges := []
  pending := []
  connections := []
  errands := []
  installed := none
  nextProcedure := 0
  procedures := []
  isSubscribed := false
  journal := []

def note (c : Client) (n : Notice) : Client := { c with journal := n :: c.journal }

def tell (c : Client) (e : ServerEvent) : Client := c.note (.told e)

def isAlive (c : Client) (connection : Nat) : Bool :=
  match c.connections[connection]? with
  | some x => x.isAlive
  | none => false

def isRead (c : Client) (connection : Nat) : Bool :=
  match c.connections[connection]? with
  | some x => x.isRead
  | none => false

/-- The reader of a connection takes in a line only when it is through with the one before. -/
def isReady (c : Client) (connection : Nat) : Bool :=
  c.isRead connection && (c.errands.lookup connection).isNone

def alive? (c : Client) : Option Nat := c.installed.filter c.isAlive

def exchange? (c : Client) (seq : Nat) : Option Exchange :=
  c.exchanges.find? fun e => e.request.seq == seq

def setExchange (c : Client) (x : Exchange) : Client :=
  { c with
    exchanges := c.exchanges.map fun e => if e.request.seq == x.request.seq then x else e }

def register (c : Client) (command : Command) : Client :=
  let seq := c.lastSeq + 1
  { c with
    lastSeq := seq
    exchanges := c.exchanges ++ [⟨⟨seq, command⟩, .registered, none⟩]
    pending := c.pending ++ [seq] }

/-- Ends a request that waits and was delivered to. -/
def conclude (c : Client) (x : Exchange) : Client :=
  match x.stage, x.inbox with
  | .waiting, some r =>
    (c.setExchange { x with stage := .ended }).note
      (.ended x.request.seq (r.bind x.request.command.reply))
  | _, _ => c.setExchange x

/-- Sends a registered request if the installed connection is alive. -/
def check (c : Client) (seq : Nat) : Client :=
  match c.exchange? seq with
  | none => c
  | some x =>
    if x.stage = .registered then
      match c.installed with
      | none => c.setExchange { x with stage := .refused .notConnected }
      | some connection =>
        if c.isAlive connection then
          (c.note (.sent connection x.request)).conclude { x with stage := .waiting }
        else c.setExchange { x with stage := .refused .serviceStopped }
    else c

/-- Takes the registration of a refused request back. -/
def cleanUp (c : Client) (seq : Nat) : Client :=
  match c.exchange? seq with
  | none => c
  | some x =>
    match x.stage with
    | .refused reason =>
      (({ c with pending := c.pending.filter fun n => n != seq }).setExchange
        { x with stage := .ended }).note (.ended seq (.error reason))
    | _ => c

/-- Delivers to a pending request, which is pending no longer. -/
def deliver (c : Client) (seq : Nat) (r : Except Failure Json) : Client :=
  let c := { c with pending := c.pending.filter fun n => n != seq }
  match c.exchange? seq with
  | none => c
  | some x => c.conclude { x with inbox := x.inbox.or (some r) }

/-- An answer goes to the request that is pending under its number, if there is one. -/
def answer (c : Client) (seq : Nat) (r : Except Failure Json) : Client :=
  if c.pending.contains seq then c.deliver seq r else c

/-- What is found where the number of an error is looked up. -/
def lookUp (c : Client) (seq : Nat) (message : String) : Errand :=
  if c.pending.contains seq then .answer seq message else .publish message

/-- A reader goes on with an error in its next step. -/
def route (c : Client) (connection : Nat) : Response → Client
  | .ok seq body => c.answer seq (.ok body)
  | .error (some seq) message =>
    { c with errands := Keyed.put connection (c.lookUp seq message) c.errands }
  | .error none message => c.tell (.error message)
  | .allMessages messages => c.tell (.allMessages messages)
  | .currentTasks _ => c
  | .unknown _ => c

/-- Takes in a line of a connection. -/
def line (c : Client) (connection : Nat) (text : List Char) : Client :=
  if c.isReady connection && !Text.isBlankText text then
    match Response.ofLine? text with
    | some r => c.route connection r
    | none => c
  else c

def perform (c : Client) : Errand → Client
  | .answer seq message => c.answer seq (.error (.server message))
  | .publish message => c.tell (.error message)

/-- Goes on with the error that was looked up. -/
def finish (c : Client) (connection : Nat) : Client :=
  match c.errands.lookup connection with
  | none => c
  | some errand =>
    ({ c with errands := Keyed.remove connection c.errands }).perform errand

def change (c : Client) (connection : Nat) (f : Connection → Connection) : Client :=
  { c with connections := c.connections.modify connection f }

/-- A reader that was told to stop does so between two lines. -/
def quit (c : Client) (connection : Nat) : Client :=
  match c.connections[connection]? with
  | some x =>
    if x.isAborted && (c.errands.lookup connection).isNone then c.change connection .endReading
    else c
  | none => c

def failPending (c : Client) : Client :=
  c.pending.foldl (fun c seq => c.deliver seq (.error .serviceStopped)) c

/-- Lets a party wait before its next step. -/
def hold (c : Client) (procedure : Nat) (p : Procedure) : Client :=
  { c with procedures := Keyed.put procedure p c.procedures }

def settle (c : Client) (procedure : Nat) (r : Except Failure Unit) : Client :=
  ({ c with procedures := Keyed.remove procedure c.procedures }).note (.settled procedure r)

def launch (c : Client) (p : Procedure) : Client :=
  { c with
    nextProcedure := c.nextProcedure + 1
    procedures := c.procedures ++ [(c.nextProcedure, p)] }

/-- What follows once everything pending was failed and the reason told. Only who shuts the
connection down hears that the program could not be ended. -/
def afterLoss (c : Client) (procedure : Nat) : Cause → Client
  | .lost => { c with procedures := Keyed.remove procedure c.procedures }
  | .replaced canStart => c.hold procedure (.start canStart)
  | .stopped true => c.settle procedure (.ok ())
  | .stopped false => c.settle procedure (.error (.unavailable (Wording.program "kill")))

/-- The next step of a procedure. -/
def advance (c : Client) (procedure : Nat) : Procedure → Client
  | .connect canStart =>
    match c.installed with
    | none => c.hold procedure (.start canStart)
    | some connection =>
      if c.isAlive connection then c.settle procedure (.ok ())
      else
        ({ c with installed := none }).hold procedure
          (.mark connection "Lean server restarted" (.replaced canStart))
  | .mark connection reason cause =>
    (c.change connection cause.mark).hold procedure (.drain (c.isAlive connection) reason cause)
  | .drain true reason cause => c.failPending.hold procedure (.announce reason cause)
  | .drain false _ cause => c.failPending.afterLoss procedure cause
  | .announce reason cause => (c.tell (.error reason)).afterLoss procedure cause
  | .start canStart =>
    if canStart then
      ({ c with connections := c.connections ++ [Connection.opened] }).hold procedure
        (.install c.connections.length)
    else c.settle procedure (.error (.unavailable (Wording.program "spawn")))
  | .install connection =>
    match c.alive? with
    | some _ => (c.change connection .abort).settle procedure (.ok ())
    | none => ({ c with installed := some connection }).settle procedure (.ok ())
  | .shutdown canStop =>
    match c.installed with
    | none => c.settle procedure (.ok ())
    | some connection =>
      ({ c with installed := none }).hold procedure
        (.mark connection "Lean server shut down" (.stopped canStop))

/-- The stream of notifications can be taken once. -/
def subscribe (c : Client) : Client × Except Failure Unit :=
  if c.isSubscribed then (c, .error (.transport "event stream already subscribed"))
  else ({ c with isSubscribed := true }, .ok ())

inductive Event where
  | request (command : Command)
  | check (seq : Nat)
  | cleanUp (seq : Nat)
  | line (connection : Nat) (text : List Char)
  | finish (connection : Nat)
  | quit (connection : Nat)
  /-- The reading of a connection ends, or writing to it fails; then the connection is lost. -/
  | lose (connection : Nat) (loss : Loss)
  | connect (canStart : Bool)
  | shutdown (canStop : Bool)
  | proceed (procedure : Nat)
  | subscribe

def lose (c : Client) (connection : Nat) (loss : Loss) : Client :=
  (c.change connection loss.strike).launch (.mark connection loss.message .lost)

def next (c : Client) : Event → Client
  | .request command => c.register command
  | .check seq => c.check seq
  | .cleanUp seq => c.cleanUp seq
  | .line connection text => c.line connection text
  | .finish connection => c.finish connection
  | .quit connection => c.quit connection
  | .lose connection loss => c.lose connection loss
  | .connect canStart => c.launch (.connect canStart)
  | .shutdown canStop => c.launch (.shutdown canStop)
  | .proceed procedure =>
    match c.procedures.lookup procedure with
    | none => c
    | some p => c.advance procedure p
  | .subscribe => c.subscribe.1

/-- How many steps a procedure can still take. -/
def Procedure.load : Procedure → Nat
  | .connect _ => 6
  | .mark _ _ _ => 5
  | .drain _ _ _ => 4
  | .announce _ _ => 3
  | .start _ => 2
  | .install _ => 1
  | .shutdown _ => 6

def proceedFor : Nat → Client → Client
  | 0, c => c
  | n + 1, c =>
    match c.procedures with
    | [] => c
    | (id, p) :: _ => proceedFor n (c.advance id p)

/-- Carries out all procedures, the oldest first. -/
def proceed (c : Client) : Client :=
  proceedFor (Keyed.total (fun p => Procedure.load p.2) c.procedures) c

/-- Issues a request without interruption. -/
def issue (c : Client) (command : Command) : Client :=
  let seq := c.lastSeq + 1
  ((c.register command).check seq).cleanUp seq

end Client

end DocSync.Server
