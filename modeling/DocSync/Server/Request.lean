import DocSync.Json.Codec
import DocSync.Json.Writer
import DocSync.Message

/-!
Requests on the wire: each is one flat JSON object on a line of its own, with its sequence number,
the name of its command and the fields of that command.
-/

namespace DocSync.Server

/-- What the server is asked to do. Positions are those of the whole text. A completion can be asked
for without its candidates, which `skip` says. -/
inductive Command where
  | sync (file content : String)
  | complete (file : String) (position : ServerPosition) (skip : Bool := false)
  | info (file : String) (position : ServerPosition)
  deriving DecidableEq, Repr

structure Request where
  seq : Nat
  command : Command
  deriving DecidableEq, Repr

namespace Command

/-- The fields of a command, its name first. -/
def fields : Command → List (String × Json)
  | sync file content =>
    [("command", .string "sync"), ("file_name", .string file), ("content", .string content)]
  | complete file p skip =>
    [("command", .string "complete"), ("file_name", .string file),
      ("line", Codec.count.write p.line), ("column", Codec.count.write p.column),
      ("skip_completions", .bool skip)]
  | info file p =>
    [("command", .string "info"), ("file_name", .string file),
      ("line", Codec.count.write p.line), ("column", Codec.count.write p.column)]

def ofJson? (j : Json) : Option Command := do
  let file ← (← j.field? "file_name").text?
  match ← (← j.field? "command").text? with
  | "sync" => return sync file (← (← j.field? "content").text?)
  | "complete" =>
    let line ← Codec.count.read? (← j.field? "line")
    let column ← Codec.count.read? (← j.field? "column")
    return complete file ⟨line, column⟩ (← (← j.field? "skip_completions").bool?)
  | "info" =>
    let line ← Codec.count.read? (← j.field? "line")
    let column ← Codec.count.read? (← j.field? "column")
    return info file ⟨line, column⟩
  | _ => none

end Command

namespace Request

def toJson (r : Request) : Json := .object (("seq_num", .nat r.seq) :: r.command.fields)

/-- The line of a request, without its line feed. -/
def line (r : Request) : List Char := Json.write r.toJson

def ofJson? (j : Json) : Option Request := do
  let seq ← (← j.field? "seq_num").natural?
  return ⟨seq, ← Command.ofJson? j⟩

end Request

end DocSync.Server
