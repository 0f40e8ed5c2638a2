import DocSync.Message

/-!
The messages that the goal panel lists.
-/

namespace DocSync

namespace ServerMessage

/-- The message covers a position. Its end column is included; without an end line it covers its
start line only. -/
def covers (m : ServerMessage) (cursor : ServerPosition) : Bool :=
  let endLine := m.endLine.filter fun l => decide (0 < l)
  let withinLines :=
    match endLine with
    | none => cursor.line == m.line
    | some last => decide (cursor.line ≤ last)
  decide (m.line ≤ cursor.line) && withinLines &&
    (cursor.line != m.line || decide (m.column ≤ cursor.column)) &&
    (endLine != some cursor.line || m.endColumn.any fun last => decide (cursor.column ≤ last))

/-- The messages of a document that the panel lists. Without a cursor, `onlyState` lists none. -/
def shownIn (mode : DisplayMode) (id : DocumentId) (cursor : Option ServerPosition)
    (m : ServerMessage) : Bool :=
  m.document == id &&
    match mode, cursor with
    | .allMessages, _ => true
    | .onlyState, some cursor => m.covers cursor
    | .onlyState, none => false

end ServerMessage

end DocSync
