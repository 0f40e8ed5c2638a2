import DocSync.Diagnostics.Marker
import DocSync.Keyed

/-!
The last snapshot of diagnostics and the marker list of every open document. A list is always
replaced as a whole, never merged.
-/

namespace DocSync

/-- The complete new marker list of a document. -/
structure MarkerUpdate where
  document : DocumentId
  markers : List Marker
  deriving DecidableEq, Repr

structure DiagnosticsStore where
  messages : List ServerMessage
  markers : List (DocumentId × List Marker)
  deriving DecidableEq, Repr

namespace DiagnosticsStore

def empty : DiagnosticsStore := ⟨[], []⟩

def messagesFor (s : DiagnosticsStore) (id : DocumentId) : List ServerMessage :=
  s.messages.filter fun m => m.document == id

/-- The markers of a document under a shift, from the last snapshot. -/
def place (s : DiagnosticsStore) (id : DocumentId) (shift : LineShift) : List Marker :=
  (s.messagesFor id).filterMap fun m => Marker.ofMessage? m shift

/-- Replaces the marker list of a document, and tells the new one. -/
def publish (s : DiagnosticsStore) (id : DocumentId) (shift : LineShift) :
    DiagnosticsStore × MarkerUpdate :=
  let markers := s.place id shift
  ({ s with markers := Keyed.put id markers s.markers }, ⟨id, markers⟩)

def publishEach (s : DiagnosticsStore) :
    List (DocumentId × LineShift) → DiagnosticsStore × List MarkerUpdate
  | [] => (s, [])
  | (id, shift) :: rest =>
    let (next, update) := s.publish id shift
    let (last, updates) := publishEach next rest
    (last, update :: updates)

/-- Stores a snapshot and publishes the given documents. -/
def replaceSnapshot (s : DiagnosticsStore) (messages : List ServerMessage)
    (shown : List (DocumentId × LineShift)) : DiagnosticsStore × List MarkerUpdate :=
  { s with messages := messages }.publishEach shown

def forget (s : DiagnosticsStore) (id : DocumentId) : DiagnosticsStore :=
  { s with markers := Keyed.remove id s.markers }

def markersOf (s : DiagnosticsStore) (id : DocumentId) : List Marker :=
  (s.markers.lookup id).getD []

def count (s : DiagnosticsStore) (id : DocumentId) (severity : MarkerSeverity) : Nat :=
  ((s.markersOf id).filter fun m => m.severity == severity).length

end DiagnosticsStore

end DocSync
