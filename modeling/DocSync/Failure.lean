import DocSync.Json.Basic
import DocSync.Message

/-!
Everything that can go wrong, by cause, with the text that says so. Where a library underneath
failed, its own words are part of the text.
-/

namespace DocSync

/-- The words of the libraries underneath. What they say about a value or a text depends on what
should have been read from it. -/
class Wording where
  value : String → Json → String
  text : String → List Char → String
  file : List Char → String
  program : String → String

/-- Libraries that say nothing. -/
@[reducible] def Wording.silent : Wording :=
  ⟨fun _ _ => "", fun _ _ => "", fun _ => "", fun _ => ""⟩

inductive Failure where
  | notConnected
  | unknownDocument (id : DocumentId)
  | alreadyOpen (id : DocumentId)
  /-- The connection or the program behind it failed. -/
  | transport (text : String)
  /-- The server answered a request with an error. -/
  | server (text : String)
  | serviceStopped
  /-- The server sent what could not be decoded. -/
  | undecodable (words : String)
  /-- A file could not be read, or a program could not be started or ended. -/
  | unavailable (words : String)
  | invalidConfig (words : String)
  | unavailableTable (words : String)
  | invalidTable (words : String)
  | edit (error : EditError)
  /-- A task was to be started where there is nothing to run it. -/
  | runtime (task : String)
  deriving DecidableEq, Repr

namespace Failure

def message : Failure → String
  | notConnected => "not connected to the analysis server"
  | unknownDocument id => "no open session for " ++ id.name
  | alreadyOpen id => "a session for " ++ id.name ++ " is already open"
  | transport text => "transport error: " ++ text
  | server text => "server error: " ++ text
  | serviceStopped => "service stopped"
  | undecodable words => "deserialization failed: " ++ words
  | unavailable words => words
  | invalidConfig words => "invalid configuration: " ++ words
  | unavailableTable words => "failed to read abbreviation table: " ++ words
  | invalidTable words => "invalid abbreviation table: " ++ words
  | edit e => e.message
  | runtime task =>
    "no tokio runtime to run `" ++ task ++ "` on: there is no reactor running, " ++
      "must be called from the context of a Tokio 1.x runtime"

end Failure

end DocSync
