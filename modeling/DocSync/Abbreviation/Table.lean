import DocSync.Json.Codec

/-!
Backslash abbreviations and their replacements. An abbreviation ends at the cursor and starts at the
nearest backslash before it; the characters between them must be a key of the table.
-/

namespace DocSync

structure AbbreviationTable where
  entries : List (String × String)
  deriving DecidableEq, Repr

/-- An abbreviation found on a line: the column of its backslash, the column after its last
character, both from zero, its key and its replacement. -/
structure AbbreviationMatch where
  start : Nat
  stop : Nat
  key : String
  replacement : String
  deriving DecidableEq, Repr

namespace AbbreviationMatch

def replacementLength (m : AbbreviationMatch) : Nat := m.replacement.toList.length

end AbbreviationMatch

/-- A line after its abbreviation was replaced, with the cursor right after the replacement. -/
structure Expansion where
  line : List Char
  cursor : Nat
  deriving DecidableEq, Repr

namespace AbbreviationTable

/-- The table of the given pairs; of the pairs with one key the last counts. -/
def ofPairs (pairs : List (String × String)) : AbbreviationTable := ⟨Keyed.keepLast pairs⟩

/-- The keys and texts of an object that holds texts only. -/
def ofFields? : List (String × Json) → Option (List (String × String))
  | [] => some []
  | (k, .string v) :: rest => (ofFields? rest).map ((k, v) :: ·)
  | _ => none

/-- The table that a JSON text spells: an object of texts. -/
def ofJson? (text : List Char) : Option AbbreviationTable :=
  match Json.read? text with
  | some (.object fields) => (ofFields? fields).map ofPairs
  | _ => none

def get? (t : AbbreviationTable) (key : String) : Option String := t.entries.lookup key

def size (t : AbbreviationTable) : Nat := t.entries.length

/-- The column of the last backslash of a text, with the characters after it. -/
def lastSlash? (text : List Char) : Option (Nat × List Char) :=
  let key := (text.reverse.takeWhile (· ≠ '\\')).reverse
  if key.length < text.length then some (text.length - key.length - 1, key) else none

def find? (t : AbbreviationTable) (line : List Char) (cursor : Nat) : Option AbbreviationMatch :=
  if cursor ≤ line.length then
    match lastSlash? (line.take cursor) with
    | none => none
    | some (start, key) =>
      (t.get? (String.ofList key)).map fun r => ⟨start, cursor, String.ofList key, r⟩
  else none

def expand? (t : AbbreviationTable) (line : List Char) (cursor : Nat) : Option Expansion :=
  (t.find? line cursor).map fun m =>
    ⟨line.take m.start ++ m.replacement.toList ++ line.drop m.stop,
      m.start + m.replacementLength⟩

end AbbreviationTable

end DocSync
