import DocSync.Failure
import DocSync.Message.Format
import DocSync.Server.Request
import DocSync.Text.Blank

/-!
Lines of the server. A line is a JSON object whose `response` says what it is; lines that are none
of the known kinds, or not of their form, say nothing.
-/

namespace DocSync.Server

inductive Response where
  /-- A request succeeded. The body is the whole object. -/
  | ok (seq : Nat) (body : Json)
  | error (seq : Option Nat) (message : String)
  | allMessages (messages : List ServerMessage)
  | currentTasks (isRunning : Bool)
  | unknown (kind : String)

namespace Response

/-- A sequence number: a natural number of at most 64 bits. -/
def seq? (j : Json) : Option Nat :=
  (j.field? "seq_num").bind (Codec.natural 18446744073709551615).read?

/-- The messages of a snapshot; without the field there are none. -/
def messages? (j : Json) : Option (List ServerMessage) :=
  match j.field? "msgs" with
  | none => some []
  | some messages => ServerMessage.codec.list.read? messages

def ofJson? (j : Json) : Option Response :=
  match ((j.field? "response").bind Json.text?).getD "" with
  | "ok" => (seq? j).map fun seq => ok seq j
  | "error" =>
    some (error (seq? j)
      (((j.field? "message").bind Json.text?).getD "unknown server error"))
  | "all_messages" => (messages? j).map allMessages
  | "current_tasks" =>
    some (currentTasks (((j.field? "is_running").bind Json.bool?).getD false))
  | kind => some (unknown kind)

def ofLine? (line : List Char) : Option Response := (Json.parse? line).bind ofJson?

end Response

inductive Reply where
  | synced
  | completed (result : CompletionResult)
  | informed (response : InfoResponse)
  deriving DecidableEq, Repr

namespace Command

/-- The reply to a command that a body spells. -/
def reply [Wording] (c : Command) (body : Json) : Except Failure Reply :=
  match c with
  | sync _ _ => .ok .synced
  | complete _ _ _ =>
    match CompletionResult.codec.read? body with
    | some r => .ok (.completed r)
    | none => .error (.undecodable (Wording.value "CompletionResult" body))
  | info _ _ =>
    match InfoResponse.codec.read? body with
    | some r => .ok (.informed r)
    | none => .error (.undecodable (Wording.value "InfoResponse" body))

end Command

end DocSync.Server
