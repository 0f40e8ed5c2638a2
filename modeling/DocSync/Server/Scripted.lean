import DocSync.Server.Client

/-!
A client with a server program that writes what it is told to and nothing else. Its output is cut
into lines at line feeds, less one carriage return before each. Output that is not UTF-8 ends the
reading; what comes at the end of the output without a line feed is a line too.
-/

namespace DocSync.Server

/-- A program that runs: its connection, whether it reads its input, and the part of its output that
has no line feed yet. -/
structure Program where
  connection : Nat
  readsInput : Bool
  unread : List UInt8
  deriving DecidableEq, Repr

structure Scripted where
  client : Client
  canStart : Bool
  program : Option Program

namespace Scripted

variable [Wording]

def initial (canStart : Bool) : Scripted := ⟨.initial, canStart, none⟩

/-- The text of a line's bytes, less a carriage return at its end. -/
def lineText? (bytes : List UInt8) : Option (List Char) :=
  (String.fromUTF8? ⟨bytes.toArray⟩).map fun s =>
    match s.toList.reverse with
    | '\r' :: rest => rest.reverse
    | _ => s.toList

def lose (c : Client) (connection : Nat) (loss : Loss) : Client :=
  (c.next (.lose connection loss)).proceed

/-- Hands a line to the client, if its reading has not ended. -/
def readLine (c : Client) (connection : Nat) (bytes : List UInt8) : Client :=
  if c.isRead connection then
    match lineText? bytes with
    | some text => (c.next (.line connection text)).next (.finish connection)
    | none => lose c connection .failedReading
  else c

/-- Cuts output into complete lines and the rest. -/
def cut : List UInt8 → List (List UInt8) × List UInt8
  | [] => ([], [])
  | b :: bytes =>
    let (complete, rest) := cut bytes
    if b = 10 then ([] :: complete, rest)
    else
      match complete with
      | [] => ([], b :: rest)
      | l :: ls => ((b :: l) :: ls, rest)

def write (x : Scripted) (bytes : List UInt8) : Scripted :=
  match x.program with
  | none => x
  | some p =>
    let (complete, rest) := cut (p.unread ++ bytes)
    { x with
      client := complete.foldl (fun c l => readLine c p.connection l) x.client
      program := some { p with unread := rest } }

def exit (x : Scripted) (bytes : List UInt8) : Scripted :=
  let x := x.write bytes
  match x.program with
  | none => x
  | some p =>
    let c := if p.unread.isEmpty then x.client else readLine x.client p.connection p.unread
    let c := if c.isRead p.connection then lose c p.connection .closedOutput else c
    { x with client := c, program := none }

def closeInput (x : Scripted) : Scripted :=
  { x with program := x.program.map fun p => { p with readsInput := false } }

def lastResult (c : Client) : Except Failure Unit :=
  (c.journal.findSome? fun n =>
    match n with
    | .settled _ r => some r
    | _ => none).getD (.ok ())

/-- Connects. A connection that was not there before is one to a new program. -/
def connect (x : Scripted) : Scripted × Except Failure Unit :=
  let c := (x.client.next (.connect x.canStart)).proceed
  let program := if c.installed = x.client.installed then x.program
    else c.installed.map fun n => ⟨n, true, []⟩
  ({ x with client := c, program := program }, lastResult c)

/-- Shuts the connection down, and the program with it. -/
def shutdown (x : Scripted) : Scripted × Except Failure Unit :=
  let c := (x.client.next (.shutdown true)).proceed
  ({ x with client := c, program := none }, lastResult c)

/-- Issues a request, gives it as the program received it, and lets the program write its output. A
request that the program does not read breaks the connection. -/
def request (x : Scripted) (command : Command) (output : List UInt8) :
    Scripted × Option Request :=
  let wasAlive := x.client.alive?
  let c := x.client.issue command
  let sent : Request := ⟨c.lastSeq, command⟩
  match wasAlive, x.program with
  | some _, some p =>
    if p.readsInput then (({ x with client := c }).write output, some sent)
    else ({ x with client := lose c p.connection .failedWriting }, none)
  | _, _ => (({ x with client := c }).write output, none)

end Scripted

end DocSync.Server
