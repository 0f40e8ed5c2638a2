import DocSync.Document
import DocSync.Message
import DocSync.Timer

/-!
One open document and how far the server is with it. Every edit and every forced push starts a new
version. A push carries the version as its ticket, and an answer counts only while its ticket is
current.
-/

namespace DocSync

inductive SyncPhase where
  | idle
  | pending (version : Nat)
  | awaiting (version : Nat)
  deriving DecidableEq, Repr

structure Ticket where
  version : Nat
  deriving DecidableEq, Repr

namespace Ticket

/-- No version was started since the ticket was issued. -/
def isCurrent (t : Ticket) (version : Nat) : Bool := t.version == version

end Ticket

/-- `channel` names the signal of the editor's changes, and `subscription` is the attachment to it.
-/
structure Session where
  id : DocumentId
  document : Document
  version : Nat
  phase : SyncPhase
  isClosed : Bool
  timer : Timer
  channel : String
  subscription : Option Nat
  deriving DecidableEq, Repr

namespace Session

def opened (id : DocumentId) (document : Document) (channel : String) (subscription : Nat) :
    Session :=
  ⟨id, document, 0, .idle, false, .idle, channel, some subscription⟩

def ticket (s : Session) : Ticket := ⟨s.version⟩

/-- Starts a new version, whose push is to come. -/
def bump (s : Session) : Session :=
  { s with version := s.version + 1, phase := .pending (s.version + 1) }

def send (s : Session) : Session :=
  if s.phase = .pending s.version then { s with phase := .awaiting s.version } else s

/-- The push of a ticket was answered; a push that came to be pending since stays so. -/
def settle (s : Session) (t : Ticket) : Session :=
  if s.phase = .awaiting t.version then { s with phase := .idle } else s

end Session

end DocSync
