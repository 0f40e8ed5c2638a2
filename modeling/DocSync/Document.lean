import DocSync.Position
import DocSync.Text.Line

/-!
A synchronized document: the visible slice with the hidden text around it, and the edits that the
editor reports. An edit splices the slice between two cells; the hidden text never changes by it.
-/

namespace DocSync

/-- One edit: the replaced span, the number of characters the editor says it replaced, and the
inserted text. -/
structure TextChange where
  range : EditorRange
  rangeLength : Count
  text : String
  deriving DecidableEq, Repr

namespace TextChange

def isInsertion (c : TextChange) : Bool := c.rangeLength == 0 && c.range.isEmpty

end TextChange

/-- Edits reported together; each applies to the result of the one before. -/
structure ContentChange where
  changes : List TextChange
  deriving DecidableEq, Repr

namespace ContentChange

def single? (c : ContentChange) : Option TextChange :=
  match c.changes with
  | [edit] => some edit
  | _ => none

end ContentChange

inductive EditError where
  | outOfBounds (position : EditorPosition)
  | inverted (range : EditorRange)
  deriving DecidableEq, Repr

namespace EditError

def message : EditError → String
  | outOfBounds p => "position " ++ p.display ++ " is outside the document"
  | inverted r => "range " ++ r.start.display ++ ".." ++ r.stop.display ++ " is inverted"

end EditError

/-- The visible slice of a larger text and the hidden text before and after it. -/
structure Document where
  before : List Char
  visible : List Char
  after : List Char
  deriving DecidableEq, Repr

namespace Document

def standalone (visible : List Char) : Document := ⟨[], visible, []⟩

/-- The number of hidden lines above the slice. -/
def lineOffset (d : Document) : Count := Count.clamp (Text.breakCount d.before)

def shift (d : Document) : LineShift := ⟨d.lineOffset⟩

def fullText (d : Document) : List Char := d.before ++ d.visible ++ d.after

def lineCount (d : Document) : Nat := (Text.lines d.visible).length

/-- A visible line, counted from one, without its break. -/
def line? (d : Document) (line : Count) : Option (List Char) :=
  if line = 0 then none else Text.row? d.visible (line.toNat - 1)

def setVisible (d : Document) (text : List Char) : Document := { d with visible := text }

def setContext (d : Document) (before after : List Char) : Document :=
  { d with before := before, after := after }

/-- The index in the visible slice that a position addresses. -/
def index? (d : Document) (p : EditorPosition) : Option Nat :=
  if p.line = 0 ∨ p.column = 0 then none
  else Text.cellIndex? d.visible (p.line.toNat - 1) (p.column.toNat - 1)

/-- Applies one edit. The start is looked up before the end, and both before their order. -/
def apply (d : Document) (edit : TextChange) : Except EditError Document :=
  match d.index? edit.range.start with
  | none => .error (.outOfBounds edit.range.start)
  | some i =>
    match d.index? edit.range.stop with
    | none => .error (.outOfBounds edit.range.stop)
    | some j =>
      if j < i then .error (.inverted edit.range)
      else .ok { d with visible := d.visible.take i ++ edit.text.toList ++ d.visible.drop j }

/-- Applies edits in order, each to the result of the one before, and stops at the first that does
not fit. Gives the document as the edits before it left it. -/
def applyEach (d : Document) : List TextChange → Document × Option EditError
  | [] => (d, none)
  | edit :: rest =>
    match d.apply edit with
    | .ok next => applyEach next rest
    | .error e => (d, some e)

/-- Applies all edits in order, or none of them. -/
def applyAll (d : Document) (edits : List TextChange) : Except EditError Document :=
  match d.applyEach edits with
  | (next, none) => .ok next
  | (_, some e) => .error e

end Document

end DocSync
