/-!
Lines of a text. A line feed, a carriage return, and a carriage return followed by a line feed each
end a line; no other character does. `lines` keeps the break that ended each line, so nothing of the
text is lost.
-/

namespace DocSync.Text

/-- What a line holds and the break that ends it. Only the last line of a text has no break. -/
structure Line where
  content : List Char
  ending : List Char
  deriving DecidableEq, Repr

namespace Line

def chars (l : Line) : List Char := l.content ++ l.ending

/-- The number of characters, the break included. -/
def length (l : Line) : Nat := l.content.length + l.ending.length

end Line

def consFirst (c : Char) : List Line → List Line
  | [] => [⟨[c], []⟩]
  | l :: ls => ⟨c :: l.content, l.ending⟩ :: ls

/-- The lines of a text, at least one. -/
def lines : List Char → List Line
  | [] => [⟨[], []⟩]
  | '\r' :: '\n' :: rest => ⟨[], ['\r', '\n']⟩ :: lines rest
  | c :: rest =>
    if c = '\n' ∨ c = '\r' then ⟨[], [c]⟩ :: lines rest else consFirst c (lines rest)

def breakCount : List Char → Nat
  | [] => 0
  | '\r' :: '\n' :: rest => breakCount rest + 1
  | c :: rest => if c = '\n' ∨ c = '\r' then breakCount rest + 1 else breakCount rest

/-- The content of the line with the given number, which counts from zero. -/
def row? (text : List Char) (row : Nat) : Option (List Char) :=
  (lines text)[row]?.map Line.content

def rowStart (text : List Char) (row : Nat) : Nat :=
  ((lines text).take row).foldr (fun l n => l.length + n) 0

/-- The index of a cell given by its row and column, both from zero. A cell is valid up to and
including the end of its line's content; the inside of a break is no cell. -/
def cellIndex? (text : List Char) (row column : Nat) : Option Nat :=
  match row? text row with
  | none => none
  | some content => if column ≤ content.length then some (rowStart text row + column) else none

end DocSync.Text
