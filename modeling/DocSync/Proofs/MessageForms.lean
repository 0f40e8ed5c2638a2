import DocSync.Config
import DocSync.Proofs.CodecForms

/-!
The forms of the messages and of the settings. Each codec follows its form, and reads back what it
writes.
-/

namespace DocSync

open Slot

/-- The fields of a record, each with its form and the default it may be left out for. -/
abbrev Fields := List (String × Form × Option Json)

theorem DocumentId.follows : DocumentId.codec.Follows .scalar := Codec.follows_scalar _

@[simp] theorem DocumentId.read_write (id : DocumentId) :
    DocumentId.codec.read? (DocumentId.codec.write id) = some id := rfl

theorem Severity.follows : Severity.codec.Follows .scalar := Codec.follows_scalar _

@[simp] theorem Severity.read_write (s : Severity) :
    Severity.codec.read? (Severity.codec.write s) = some s := by
  cases s <;> rfl

theorem DisplayMode.follows : DisplayMode.codec.Follows .scalar := Codec.follows_scalar _

theorem DisplayMode.read_write (m : DisplayMode) :
    DisplayMode.codec.read? (DisplayMode.codec.write m) = some m := by
  cases m <;> rfl

theorem count_follows : Codec.count.Follows .scalar := Codec.follows_scalar _

theorem text_follows : Codec.text.Follows .scalar := Codec.follows_scalar _

/-- A place in a text, as both sides write it. -/
def placeFields : Fields := [("line", .scalar, none), ("column", .scalar, none)]

def EditorPosition.form : Form := .record false placeFields

theorem EditorPosition.shape_follows : shape.Follows placeFields where
  names := rfl
  nodup := by decide
  reads h := by
    have hline := required?_congr count_follows (h "line" _ _ (by simp [placeFields]))
    have hcolumn := required?_congr count_follows (h "column" _ _ (by simp [placeFields]))
    simp only [shape, hline, hcolumn]

theorem EditorPosition.follows : codec.Follows form := Shape.Follows.codec shape_follows

@[simp] theorem EditorPosition.read_write (p : EditorPosition) :
    codec.read? (codec.write p) = some p :=
  Shape.read_write (List.Sublist.refl _) (Shape.Follows.nodup shape_follows)
    (by simp [shape, required?, Keyed.lookup_cons_ite])

def ServerPosition.form : Form := .record false placeFields

theorem ServerPosition.shape_follows : shape.Follows placeFields where
  names := rfl
  nodup := by decide
  reads h := by
    have hline := required?_congr count_follows (h "line" _ _ (by simp [placeFields]))
    have hcolumn := required?_congr count_follows (h "column" _ _ (by simp [placeFields]))
    simp only [shape, hline, hcolumn]

theorem ServerPosition.follows : codec.Follows form := Shape.Follows.codec shape_follows

theorem ServerPosition.read_write (p : ServerPosition) :
    codec.read? (codec.write p) = some p :=
  Shape.read_write (List.Sublist.refl _) (Shape.Follows.nodup shape_follows)
    (by simp [shape, required?, Keyed.lookup_cons_ite])

def EditorRange.fields : Fields :=
  [("start", EditorPosition.form, none), ("end", EditorPosition.form, none)]

def EditorRange.form : Form := .record false fields

theorem EditorRange.shape_follows : shape.Follows fields where
  names := rfl
  nodup := by decide
  reads h := by
    have hstart := required?_congr EditorPosition.follows (h "start" _ _ (by simp [fields]))
    have hstop := required?_congr EditorPosition.follows (h "end" _ _ (by simp [fields]))
    simp only [shape, hstart, hstop]

theorem EditorRange.follows : codec.Follows form := Shape.Follows.codec shape_follows

@[simp] theorem EditorRange.read_write (r : EditorRange) :
    codec.read? (codec.write r) = some r :=
  Shape.read_write (List.Sublist.refl _) (Shape.Follows.nodup shape_follows)
    (by simp [shape, required?, Keyed.lookup_cons_ite])

def TextChange.fields : Fields :=
  [("range", EditorRange.form, none), ("range_length", .scalar, none), ("text", .scalar, none)]

def TextChange.form : Form := .record false fields

theorem TextChange.shape_follows : shape.Follows fields where
  names := rfl
  nodup := by decide
  reads h := by
    have hrange := required?_congr EditorRange.follows (h "range" _ _ (by simp [fields]))
    have hlength := required?_congr count_follows (h "range_length" _ _ (by simp [fields]))
    have htext := required?_congr text_follows (h "text" _ _ (by simp [fields]))
    simp only [shape, hrange, hlength, htext]

theorem TextChange.follows : codec.Follows form := Shape.Follows.codec shape_follows

@[simp] theorem TextChange.read_write (c : TextChange) : codec.read? (codec.write c) = some c :=
  Shape.read_write (List.Sublist.refl _) (Shape.Follows.nodup shape_follows)
    (by simp [shape, required?, Keyed.lookup_cons_ite])

def ContentChange.fields : Fields := [("changes", .list TextChange.form, none)]

def ContentChange.form : Form := .record false fields

theorem ContentChange.shape_follows : shape.Follows fields where
  names := rfl
  nodup := by decide
  reads h := by
    have hchanges := required?_congr TextChange.follows.list (h "changes" _ _ (by simp [fields]))
    simp only [shape, hchanges]

theorem ContentChange.follows : codec.Follows form := Shape.Follows.codec shape_follows

theorem ContentChange.read_write (c : ContentChange) : codec.read? (codec.write c) = some c :=
  Shape.read_write (List.Sublist.refl _) (Shape.Follows.nodup shape_follows)
    (by simp [shape, required?, Codec.list_read_write])

def ServerMessage.fields : Fields :=
  [("file_name", .scalar, none), ("pos_line", .scalar, none), ("pos_col", .scalar, none),
    ("end_pos_line", .nullable .scalar, some .null), ("end_pos_col", .nullable .scalar, some .null),
    ("severity", .scalar, none), ("text", .scalar, none), ("caption", .scalar, some (.string ""))]

def ServerMessage.form : Form := .record false fields

theorem ServerMessage.shape_follows : shape.Follows fields where
  names := rfl
  nodup := by decide
  reads h := by
    have hdocument := required?_congr DocumentId.follows (h "file_name" _ _ (by simp [fields]))
    have hline := required?_congr count_follows (h "pos_line" _ _ (by simp [fields]))
    have hcolumn := required?_congr count_follows (h "pos_col" _ _ (by simp [fields]))
    have hendLine := optional?_congr count_follows (h "end_pos_line" _ _ (by simp [fields]))
    have hendColumn := optional?_congr count_follows (h "end_pos_col" _ _ (by simp [fields]))
    have hseverity := required?_congr Severity.follows (h "severity" _ _ (by simp [fields]))
    have htext := required?_congr text_follows (h "text" _ _ (by simp [fields]))
    have hcaption := orDefault?_congr text_follows
      (h "caption" _ (some (.string "")) (by simp [fields])) rfl
    simp only [shape, hdocument, hline, hcolumn, hendLine, hendColumn, hseverity, htext, hcaption]

theorem ServerMessage.follows : codec.Follows form := Shape.Follows.codec shape_follows

theorem ServerMessage.keys (m : ServerMessage) :
    ((shape.write m).map Prod.fst).Sublist shape.names := by
  have hendLine := keys_present .count "end_pos_line" m.endLine
  have hendColumn := keys_present .count "end_pos_col" m.endColumn
  simp only [shape, List.map_append]
  exact (((List.Sublist.refl _).append hendLine).append hendColumn).append (List.Sublist.refl _)

theorem ServerMessage.read_write (m : ServerMessage) : codec.read? (codec.write m) = some m :=
  Shape.read_write (keys m) (Shape.Follows.nodup shape_follows)
    (by simp [shape, required?, optional?_written, orDefault?, lookup_present, List.lookup_append,
      Keyed.lookup_cons_ite])

def RawCompletion.fields : Fields :=
  [("text", .scalar, none), ("type", .nullable .scalar, some .null),
    ("doc", .nullable .scalar, some .null),
    ("tactic_params", .nullable (.list .scalar), some .null)]

def RawCompletion.form : Form := .record false fields

theorem RawCompletion.shape_follows : shape.Follows fields where
  names := rfl
  nodup := by decide
  reads h := by
    have htext := required?_congr text_follows (h "text" _ _ (by simp [fields]))
    have hsignature := optional?_congr text_follows (h "type" _ _ (by simp [fields]))
    have hdoc := optional?_congr text_follows (h "doc" _ _ (by simp [fields]))
    have hparams := optional?_congr text_follows.list (h "tactic_params" _ _ (by simp [fields]))
    simp only [shape, htext, hsignature, hdoc, hparams]

theorem RawCompletion.follows : codec.Follows form := Shape.Follows.codec shape_follows

theorem RawCompletion.keys (r : RawCompletion) :
    ((shape.write r).map Prod.fst).Sublist shape.names := by
  have hsignature := keys_present .text "type" r.signature
  have hdoc := keys_present .text "doc" r.doc
  have hparams := keys_present Codec.text.list "tactic_params" r.tacticParams
  simp only [shape, List.map_cons, List.map_append]
  exact ((hsignature.append hdoc).append hparams).cons_cons "text"

@[simp] theorem RawCompletion.read_write (r : RawCompletion) :
    codec.read? (codec.write r) = some r :=
  Shape.read_write (keys r) (Shape.Follows.nodup shape_follows)
    (by simp [shape, required?, optional?_written, lookup_present, List.lookup_append,
      Keyed.lookup_cons_ite])

def CompletionResult.fields : Fields :=
  [("completions", .list RawCompletion.form, some (.array [])),
    ("prefix", .scalar, some (.string ""))]

def CompletionResult.form : Form := .record false fields

theorem CompletionResult.shape_follows : shape.Follows fields where
  names := rfl
  nodup := by decide
  reads h := by
    have hcompletions := orDefault?_congr RawCompletion.follows.list
      (h "completions" _ (some (.array [])) (by simp [fields])) rfl
    have htyped := orDefault?_congr text_follows
      (h "prefix" _ (some (.string "")) (by simp [fields])) rfl
    simp only [shape, hcompletions, htyped]

theorem CompletionResult.follows : codec.Follows form := Shape.Follows.codec shape_follows

theorem CompletionResult.read_write (r : CompletionResult) :
    codec.read? (codec.write r) = some r :=
  Shape.read_write (List.Sublist.refl _) (Shape.Follows.nodup shape_follows)
    (by simp [shape, orDefault?, Codec.list_read_write, Keyed.lookup_cons_ite])

def InfoRecord.fields : Fields :=
  [("full-id", .nullable .scalar, some .null), ("text", .nullable .scalar, some .null),
    ("type", .nullable .scalar, some .null), ("doc", .nullable .scalar, some .null),
    ("state", .nullable .scalar, some .null),
    ("tactic_params", .nullable (.list .scalar), some .null)]

def InfoRecord.form : Form := .record false fields

theorem InfoRecord.shape_follows : shape.Follows fields where
  names := rfl
  nodup := by decide
  reads h := by
    have hfullId := optional?_congr text_follows (h "full-id" _ _ (by simp [fields]))
    have htext := optional?_congr text_follows (h "text" _ _ (by simp [fields]))
    have hsignature := optional?_congr text_follows (h "type" _ _ (by simp [fields]))
    have hdoc := optional?_congr text_follows (h "doc" _ _ (by simp [fields]))
    have hstate := optional?_congr text_follows (h "state" _ _ (by simp [fields]))
    have hparams := optional?_congr text_follows.list (h "tactic_params" _ _ (by simp [fields]))
    simp only [shape, hfullId, htext, hsignature, hdoc, hstate, hparams]

theorem InfoRecord.follows : codec.Follows form := Shape.Follows.codec shape_follows

theorem InfoRecord.keys (r : InfoRecord) :
    ((shape.write r).map Prod.fst).Sublist shape.names := by
  have hfullId := keys_present .text "full-id" r.fullId
  have htext := keys_present .text "text" r.text
  have hsignature := keys_present .text "type" r.signature
  have hdoc := keys_present .text "doc" r.doc
  have hstate := keys_present .text "state" r.state
  have hparams := keys_present Codec.text.list "tactic_params" r.tacticParams
  simp only [shape, List.map_append]
  exact ((((hfullId.append htext).append hsignature).append hdoc).append hstate).append hparams

@[simp] theorem InfoRecord.read_write (r : InfoRecord) : codec.read? (codec.write r) = some r :=
  Shape.read_write (keys r) (Shape.Follows.nodup shape_follows)
    (by simp [shape, optional?_written, lookup_present, List.lookup_append])

@[simp] theorem InfoRecord.write_ne_null (r : InfoRecord) : codec.write r ≠ .null :=
  Json.noConfusion

def InfoResponse.fields : Fields := [("record", .nullable InfoRecord.form, some .null)]

def InfoResponse.form : Form := .record false fields

theorem InfoResponse.shape_follows : shape.Follows fields where
  names := rfl
  nodup := by decide
  reads h := by
    have hrecord := optional?_congr InfoRecord.follows (h "record" _ _ (by simp [fields]))
    simp only [shape, hrecord]

theorem InfoResponse.follows : codec.Follows form := Shape.Follows.codec shape_follows

theorem InfoResponse.read_write (r : InfoResponse) : codec.read? (codec.write r) = some r :=
  Shape.read_write (List.Sublist.refl _) (Shape.Follows.nodup shape_follows)
    (by simp [shape, optional?, orDefault?, Codec.nullable_read_write])

def ServerCommand.fields : Fields :=
  [("command", .scalar, none), ("args", .list .scalar, some (.array [])),
    ("root", .nullable .scalar, some .null)]

def ServerCommand.form : Form := .record false fields

theorem ServerCommand.shape_follows : shape.Follows fields where
  names := rfl
  nodup := by decide
  reads h := by
    have hcommand := required?_congr text_follows (h "command" _ _ (by simp [fields]))
    have hargs := orDefault?_congr text_follows.list
      (h "args" _ (some (.array [])) (by simp [fields])) rfl
    have hroot := optional?_congr text_follows (h "root" _ _ (by simp [fields]))
    simp only [shape, hcommand, hargs, hroot]

theorem ServerCommand.follows : codec.Follows form := Shape.Follows.codec shape_follows

@[simp] theorem ServerCommand.read_write (c : ServerCommand) :
    codec.read? (codec.write c) = some c :=
  Shape.read_write (List.Sublist.refl _) (Shape.Follows.nodup shape_follows)
    (by simp [shape, required?, optional?, orDefault?, Codec.nullable_read_write,
      Keyed.lookup_cons_ite])

@[simp] theorem ServerCommand.write_ne_null (c : ServerCommand) : codec.write c ≠ .null :=
  Json.noConfusion

namespace Config

def fields : Fields :=
  [("sync_delay_ms", .scalar, some (.nat 1000)), ("completion_delay_ms", .scalar, some (.nat 1000)),
    ("abbreviation_triggers", .scalar, some (.string " ,")),
    ("translations", .nullable .scalar, some .null),
    ("server", .nullable ServerCommand.form, some .null)]

/-- Settings are the only closed record. -/
def form : Form := .record true fields

theorem delay_follows : delayCodec.Follows .scalar := Codec.follows_scalar _

theorem shape_follows : shape.Follows fields where
  names := rfl
  nodup := by decide
  reads h := by
    have hsync := orDefault?_congr delay_follows
      (h "sync_delay_ms" _ (some (.nat 1000)) (by simp [fields])) rfl
    have hcompletion := orDefault?_congr delay_follows
      (h "completion_delay_ms" _ (some (.nat 1000)) (by simp [fields])) rfl
    have htriggers := orDefault?_congr text_follows
      (h "abbreviation_triggers" _ (some (.string " ,")) (by simp [fields])) rfl
    have htable := optional?_congr text_follows (h "translations" _ _ (by simp [fields]))
    have hserver := optional?_congr ServerCommand.follows (h "server" _ _ (by simp [fields]))
    simp only [shape, default, hsync, hcompletion, htriggers, htable, hserver]

theorem follows : codec.Follows form := Shape.Follows.codec shape_follows

/-- Delays are 64-bit numbers. -/
def Fits (c : Config) : Prop := c.syncDelay < 2 ^ 64 ∧ c.completionDelay < 2 ^ 64

theorem read_write {c : Config} (hc : c.Fits) : codec.read? (codec.write c) = some c := by
  have hdelay {n : Nat} (hn : n < 2 ^ 64) : delayCodec.read? (delayCodec.write n) = some n :=
    Codec.natural_read_write (Nat.le_of_lt_succ hn)
  have hsync := orDefault?_written (hdelay hc.1) default.syncDelay
  have hcompletion := orDefault?_written (hdelay hc.2) default.completionDelay
  have htriggers := orDefault?_written (Codec.text_read_write c.triggers) default.triggers
  have htable : optional? .text (some (Codec.text.nullable.write c.table)) = some c.table :=
    optional?_nullable fun s _ => ⟨Codec.text_write_ne_null s, Codec.text_read_write s⟩
  have hserver : optional? ServerCommand.codec
      (some (ServerCommand.codec.nullable.write c.server)) = some c.server :=
    optional?_nullable fun r _ => ⟨ServerCommand.write_ne_null r, ServerCommand.read_write r⟩
  refine Shape.read_write (List.Sublist.refl _) (Shape.Follows.nodup shape_follows) ?_
  simp only [shape, Keyed.lookup_cons_ite, String.reduceEq, ↓reduceIte]
  rw [hsync, hcompletion, htriggers, htable, hserver]
  rfl

end Config

end DocSync
