import DocSync.Message

/-!
Diagnostics as markers of the visible slice.
-/

namespace DocSync

inductive MarkerSeverity where
  | info
  | warning
  | error
  deriving DecidableEq, Repr

namespace MarkerSeverity

def ofSeverity : Severity → MarkerSeverity
  | .information => info
  | .warning => warning
  | .error => error

end MarkerSeverity

structure Marker where
  severity : MarkerSeverity
  message : String
  caption : String
  range : EditorRange
  deriving DecidableEq, Repr

namespace Marker

/-- The span of a message in the visible slice: a point where it has no end. A span that only starts
above the slice is cut to the first cell, and a message that ends above it has none. -/
def range? (m : ServerMessage) (shift : LineShift) : Option EditorRange :=
  match m.stop? with
  | none => (shift.toEditor m.start).map EditorRange.point
  | some stop => (shift.toEditor stop).map fun stop => ⟨shift.toEditorClamped m.start, stop⟩

def ofMessage? (m : ServerMessage) (shift : LineShift) : Option Marker :=
  (range? m shift).map fun range =>
    ⟨MarkerSeverity.ofSeverity m.severity, m.text, m.caption, range⟩

end Marker

end DocSync
