import DocSync.Json.Codec
import DocSync.Message

/-!
The JSON form of every message. Fields are listed in the order in which an array gives them.
-/

namespace DocSync

open Slot

def DocumentId.codec : Codec DocumentId := Codec.text.via DocumentId.mk DocumentId.name

def Severity.codec : Codec Severity :=
  .choice [("information", .information), ("warning", .warning), ("error", .error)]

def DisplayMode.codec : Codec DisplayMode :=
  .choice [("only_state", .onlyState), ("all_messages", .allMessages)]

def EditorPosition.shape : Shape EditorPosition where
  names := ["line", "column"]
  isClosed := false
  write p := [("line", Codec.count.write p.line), ("column", Codec.count.write p.column)]
  read? slot := do
    let line ← required? .count (slot "line")
    let column ← required? .count (slot "column")
    return ⟨line, column⟩

def EditorPosition.codec : Codec EditorPosition := EditorPosition.shape.codec

def ServerPosition.shape : Shape ServerPosition where
  names := ["line", "column"]
  isClosed := false
  write p := [("line", Codec.count.write p.line), ("column", Codec.count.write p.column)]
  read? slot := do
    let line ← required? .count (slot "line")
    let column ← required? .count (slot "column")
    return ⟨line, column⟩

def ServerPosition.codec : Codec ServerPosition := ServerPosition.shape.codec

def EditorRange.shape : Shape EditorRange where
  names := ["start", "end"]
  isClosed := false
  write r :=
    [("start", EditorPosition.codec.write r.start), ("end", EditorPosition.codec.write r.stop)]
  read? slot := do
    let start ← required? EditorPosition.codec (slot "start")
    let stop ← required? EditorPosition.codec (slot "end")
    return ⟨start, stop⟩

def EditorRange.codec : Codec EditorRange := EditorRange.shape.codec

def TextChange.shape : Shape TextChange where
  names := ["range", "range_length", "text"]
  isClosed := false
  write c :=
    [("range", EditorRange.codec.write c.range),
      ("range_length", Codec.count.write c.rangeLength), ("text", Codec.text.write c.text)]
  read? slot := do
    let range ← required? EditorRange.codec (slot "range")
    let rangeLength ← required? .count (slot "range_length")
    let text ← required? .text (slot "text")
    return ⟨range, rangeLength, text⟩

def TextChange.codec : Codec TextChange := TextChange.shape.codec

def ContentChange.shape : Shape ContentChange where
  names := ["changes"]
  isClosed := false
  write c := [("changes", TextChange.codec.list.write c.changes)]
  read? slot := do
    let changes ← required? TextChange.codec.list (slot "changes")
    return ⟨changes⟩

def ContentChange.codec : Codec ContentChange := ContentChange.shape.codec

def ServerMessage.shape : Shape ServerMessage where
  names :=
    ["file_name", "pos_line", "pos_col", "end_pos_line", "end_pos_col", "severity", "text",
      "caption"]
  isClosed := false
  write m :=
    [("file_name", DocumentId.codec.write m.document), ("pos_line", Codec.count.write m.line),
      ("pos_col", Codec.count.write m.column)] ++
    present .count "end_pos_line" m.endLine ++
    present .count "end_pos_col" m.endColumn ++
    [("severity", Severity.codec.write m.severity), ("text", Codec.text.write m.text),
      ("caption", Codec.text.write m.caption)]
  read? slot := do
    let document ← required? DocumentId.codec (slot "file_name")
    let line ← required? .count (slot "pos_line")
    let column ← required? .count (slot "pos_col")
    let endLine ← optional? .count (slot "end_pos_line")
    let endColumn ← optional? .count (slot "end_pos_col")
    let severity ← required? Severity.codec (slot "severity")
    let text ← required? .text (slot "text")
    let caption ← orDefault? .text "" (slot "caption")
    return ⟨document, line, column, endLine, endColumn, severity, text, caption⟩

def ServerMessage.codec : Codec ServerMessage := ServerMessage.shape.codec

def RawCompletion.shape : Shape RawCompletion where
  names := ["text", "type", "doc", "tactic_params"]
  isClosed := false
  write r :=
    ("text", Codec.text.write r.text) ::
    (present .text "type" r.signature ++ present .text "doc" r.doc ++
      present Codec.text.list "tactic_params" r.tacticParams)
  read? slot := do
    let text ← required? .text (slot "text")
    let signature ← optional? .text (slot "type")
    let doc ← optional? .text (slot "doc")
    let tacticParams ← optional? Codec.text.list (slot "tactic_params")
    return ⟨text, signature, doc, tacticParams⟩

def RawCompletion.codec : Codec RawCompletion := RawCompletion.shape.codec

def CompletionResult.shape : Shape CompletionResult where
  names := ["completions", "prefix"]
  isClosed := false
  write r :=
    [("completions", RawCompletion.codec.list.write r.completions),
      ("prefix", Codec.text.write r.typed)]
  read? slot := do
    let completions ← orDefault? RawCompletion.codec.list [] (slot "completions")
    let typed ← orDefault? .text "" (slot "prefix")
    return ⟨completions, typed⟩

def CompletionResult.codec : Codec CompletionResult := CompletionResult.shape.codec

def InfoRecord.shape : Shape InfoRecord where
  names := ["full-id", "text", "type", "doc", "state", "tactic_params"]
  isClosed := false
  write r :=
    present .text "full-id" r.fullId ++ present .text "text" r.text ++
    present .text "type" r.signature ++ present .text "doc" r.doc ++
    present .text "state" r.state ++ present Codec.text.list "tactic_params" r.tacticParams
  read? slot := do
    let fullId ← optional? .text (slot "full-id")
    let text ← optional? .text (slot "text")
    let signature ← optional? .text (slot "type")
    let doc ← optional? .text (slot "doc")
    let state ← optional? .text (slot "state")
    let tacticParams ← optional? Codec.text.list (slot "tactic_params")
    return ⟨fullId, text, signature, doc, state, tacticParams⟩

def InfoRecord.codec : Codec InfoRecord := InfoRecord.shape.codec

def InfoResponse.shape : Shape InfoResponse where
  names := ["record"]
  isClosed := false
  write r := [("record", InfoRecord.codec.nullable.write r.record)]
  read? slot := do
    let record ← optional? InfoRecord.codec (slot "record")
    return ⟨record⟩

def InfoResponse.codec : Codec InfoResponse := InfoResponse.shape.codec

def ServerCommand.shape : Shape ServerCommand where
  names := ["command", "args", "root"]
  isClosed := false
  write c :=
    [("command", Codec.text.write c.command), ("args", Codec.text.list.write c.args),
      ("root", Codec.text.nullable.write c.root)]
  read? slot := do
    let command ← required? .text (slot "command")
    let args ← orDefault? Codec.text.list [] (slot "args")
    let root ← optional? .text (slot "root")
    return ⟨command, args, root⟩

def ServerCommand.codec : Codec ServerCommand := ServerCommand.shape.codec

end DocSync
