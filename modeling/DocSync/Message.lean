import DocSync.Document

/-!
What the server sends: diagnostics, completion candidates and records about a position. Lines are
those of the whole text, from one; columns count from zero.
-/

namespace DocSync

/-- The key of a document, a path or an address. -/
structure DocumentId where
  name : String
  deriving DecidableEq, Repr, Inhabited

inductive Severity where
  | information
  | warning
  | error
  deriving DecidableEq, Repr

structure ServerMessage where
  document : DocumentId
  line : Count
  column : Count
  endLine : Option Count
  endColumn : Option Count
  severity : Severity
  text : String
  caption : String
  deriving DecidableEq, Repr

namespace ServerMessage

def start (m : ServerMessage) : ServerPosition := ⟨m.line, m.column⟩

/-- The end, where both halves are reported. A zero end line counts as absent. -/
def stop? (m : ServerMessage) : Option ServerPosition :=
  match m.endLine, m.endColumn with
  | some line, some column => if 0 < line then some ⟨line, column⟩ else none
  | _, _ => none

end ServerMessage

structure RawCompletion where
  text : String
  signature : Option String
  doc : Option String
  tacticParams : Option (List String)
  deriving DecidableEq, Repr

/-- The candidates at a position and the text before it that they replace. -/
structure CompletionResult where
  completions : List RawCompletion
  typed : String
  deriving DecidableEq, Repr

namespace CompletionResult

def empty : CompletionResult := ⟨[], ""⟩

end CompletionResult

structure InfoRecord where
  fullId : Option String
  text : Option String
  signature : Option String
  doc : Option String
  state : Option String
  tacticParams : Option (List String)
  deriving DecidableEq, Repr

def nonempty? : Option String → Option String
  | some s => if s.isEmpty then none else some s
  | none => none

namespace InfoRecord

/-- The full name, or the plain one where there is no full name. -/
def name? (r : InfoRecord) : Option String := nonempty? (r.fullId.or r.text)

end InfoRecord

structure InfoResponse where
  record : Option InfoRecord
  deriving DecidableEq, Repr

/-- What the goal panel lists: the messages at the cursor, or those of the whole document. -/
inductive DisplayMode where
  | onlyState
  | allMessages
  deriving DecidableEq, Repr

inductive ServerEvent where
  | allMessages (messages : List ServerMessage)
  | error (message : String)
  deriving DecidableEq, Repr

/-- The program that serves, its arguments and its working directory. -/
structure ServerCommand where
  command : String
  args : List String
  root : Option String
  deriving DecidableEq, Repr

namespace ServerCommand

def default : ServerCommand := ⟨"lean", ["--server"], none⟩

end ServerCommand

end DocSync
