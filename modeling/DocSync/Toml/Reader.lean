import DocSync.Toml.Scalar

/-!
Reading TOML text. Arrays and inline tables may spread over lines and end in a comma. A document is
a sequence of lines, each of which is blank, adds an entry to the table of the last header, or is a
header; a mark of byte order in front of it is passed over.
-/

namespace DocSync.Toml

/-- A key with dots: the names of the tables on the way, and the name of the entry. -/
structure Path where
  tables : List String
  name : String
  deriving DecidableEq, Repr

def Path.under (table : String) (p : Path) : Path := ⟨table :: p.tables, p.name⟩

def isBare (c : Char) : Bool := c.isAlphanum || c = '_' || c = '-'

def asText (read : List Char × List Char) : String × List Char := (String.ofList read.1, read.2)

/-- Reads one name of a key: in quotes of either kind, or bare. -/
def name? : List Char → Option (String × List Char)
  | '"' :: rest => (basic? rest).map asText
  | cs =>
    if cs.head? = some '\x27' then (literal? cs.tail).map asText
    else
      let bare := cs.takeWhile isBare
      if bare.isEmpty then none else some (String.ofList bare, cs.dropWhile isBare)

/-- Reads a key, with blanks around its dots and behind it. -/
def path? : Nat → List Char → Option (Path × List Char)
  | 0, _ => none
  | fuel + 1, cs =>
    match name? cs with
    | none => none
    | some (name, rest) =>
      match skipSpace rest with
      | '.' :: rest =>
        (path? fuel (skipSpace rest)).map fun (p, rest) => (p.under name, rest)
      | rest => some (⟨[], name⟩, rest)

/-- Reads a key, the sign of equality behind it and the blanks behind that. -/
def entryPath? (fuel : Nat) (cs : List Char) : Option (Path × List Char) :=
  match path? fuel cs with
  | some (p, '=' :: rest) => some (p, skipSpace rest)
  | _ => none

/-- Reads a string whose quotes are still to come. -/
def quoted? : List Char → Option (String × List Char)
  | '"' :: '"' :: '"' :: rest => (longBasic? .text (skipBreak rest)).map asText
  | '"' :: rest => (basic? rest).map asText
  | '\x27' :: '\x27' :: '\x27' :: rest => (longLiteral? (skipBreak rest)).map asText
  | '\x27' :: rest => (literal? rest).map asText
  | _ => none

mutual

def value? : Nat → List Char → Option (Toml × List Char)
  | 0, _ => none
  | _, [] => none
  | fuel + 1, c :: rest =>
    if c = '[' then items? fuel [] rest
    else if c = '{' then fields? fuel [] rest
    else if c = '"' ∨ c = '\x27' then (quoted? (c :: rest)).map fun (s, rest) => (.string s, rest)
    else scalar? (c :: rest)

/-- Reads the items of an array up to its end. What is read stands in reverse order. -/
def items? : Nat → List Toml → List Char → Option (Toml × List Char)
  | 0, _, _ => none
  | fuel + 1, done, cs => do
    match ← skipFiller? false cs with
    | ']' :: rest => return (.array done.reverse, rest)
    | cs =>
      let (v, rest) ← value? fuel cs
      match ← skipFiller? false rest with
      | ']' :: rest => return (.array (v :: done).reverse, rest)
      | ',' :: rest => items? fuel (v :: done) rest
      | _ => none

/-- Reads the entries of an inline table up to its end. -/
def fields? : Nat → Entries → List Char → Option (Toml × List Char)
  | 0, _, _ => none
  | fuel + 1, done, cs => do
    match ← skipFiller? false cs with
    | '\x7d' :: rest => return (.table .inline done, rest)
    | cs =>
      let (p, rest) ← entryPath? fuel cs
      let (v, rest) ← value? fuel rest
      let done ← assign p.tables p.name v .inline done
      match ← skipFiller? false rest with
      | '\x7d' :: rest => return (.table .inline done, rest)
      | ',' :: rest => fields? fuel done rest
      | _ => none

end

/-- The entries that are read so far, and the header under which the next ones go. -/
structure Draft where
  entries : Entries
  header : List String
  deriving Repr

namespace Draft

def empty : Draft := ⟨[], []⟩

def line? (fuel : Nat) (d : Draft) : List Char → Option (Draft × List Char)
  | '[' :: '[' :: rest => do
    let (p, rest) ← path? fuel (skipSpace rest)
    match rest with
    | ']' :: ']' :: rest =>
      let entries ← startItem p.tables p.name d.entries
      return (⟨entries, p.tables ++ [p.name]⟩, ← endLine? false rest)
    | _ => none
  | '[' :: rest => do
    let (p, rest) ← path? fuel (skipSpace rest)
    match rest with
    | ']' :: rest =>
      let entries ← startTable p.tables p.name d.entries
      return (⟨entries, p.tables ++ [p.name]⟩, ← endLine? false rest)
    | _ => none
  | cs => do
    let (p, rest) ← entryPath? fuel cs
    let (v, rest) ← value? fuel rest
    let entries ← assignUnder d.header p.tables p.name v d.entries
    return ({ d with entries }, ← endLine? false rest)

def lines? : Nat → Draft → List Char → Option Draft
  | 0, _, _ => none
  | fuel + 1, d, cs =>
    match skipFiller? false cs with
    | none => none
    | some [] => some d
    | some cs =>
      match line? fuel d cs with
      | some (d, rest) => lines? fuel d rest
      | none => none

end Draft

/-- The entries of a document. A value takes up at most two units of fuel per character. -/
def parse? (text : List Char) : Option Entries :=
  let text := if text.head? = some '\ufeff' then text.tail else text
  (Draft.lines? (2 * text.length + 2) .empty text).map Draft.entries

end DocSync.Toml
