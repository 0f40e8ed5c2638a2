import DocSync.Abbreviation.Table
import DocSync.Document

/-!
Abbreviations as edits of a document: typing a trigger right after an abbreviation replaces it and
keeps the trigger, and the expand command replaces the abbreviation that ends at the cursor.
-/

namespace DocSync

/-- An edit for the editor to make, and the cursor after it. -/
structure TextEdit where
  range : EditorRange
  text : String
  cursor : EditorPosition
  deriving DecidableEq, Repr

/-- A table and the characters that trigger an expansion when typed. -/
structure AbbreviationInput where
  table : AbbreviationTable
  triggers : List Char
  deriving DecidableEq, Repr

namespace AbbreviationInput

def find? (a : AbbreviationInput) (line : List Char) (cursor : EditorPosition) :
    Option AbbreviationMatch :=
  if cursor.column = 0 then none else a.table.find? line (cursor.column.toNat - 1)

/-- The edit that puts a replacement between the backslash and a position, with the cursor a number
of columns after the replacement. -/
def replace (m : AbbreviationMatch) (stop : EditorPosition) (behind : Count) : TextEdit :=
  let start : EditorPosition := ⟨stop.line, (Count.clamp m.start).plus 1⟩
  ⟨⟨start, stop⟩, m.replacement,
    ⟨stop.line, (start.column.plus (Count.clamp m.replacementLength)).plus behind⟩⟩

/-- The character that a change inserts, if inserting one character is all it does. -/
def typed? (change : ContentChange) : Option (EditorPosition × Char) :=
  match change.single? with
  | none => none
  | some edit =>
    if edit.isInsertion then
      match edit.text.toList with
      | [c] => some (edit.range.start, c)
      | _ => none
    else none

/-- The expansion that a change triggers. The line is the one the change landed on, after it. -/
def onChange? (a : AbbreviationInput) (change : ContentChange) (line : List Char) :
    Option TextEdit :=
  match typed? change with
  | none => none
  | some (position, c) =>
    if a.triggers.contains c then (a.find? line position).map fun m => replace m position 1
    else none

def canExpand (a : AbbreviationInput) (line : List Char) (cursor : EditorPosition) : Bool :=
  (a.find? line cursor).isSome

def expand? (a : AbbreviationInput) (line : List Char) (cursor : EditorPosition) :
    Option TextEdit :=
  (a.find? line cursor).map fun m => replace m cursor 0

end AbbreviationInput

end DocSync
