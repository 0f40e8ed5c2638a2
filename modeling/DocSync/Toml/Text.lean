import DocSync.Json.Token

/-!
Blanks, comments and strings of TOML. A break is a line feed, with or without a carriage return
before it. Neither comments nor strings may hold controls other than the tab; strings in triple
quotes may hold breaks, each of which stands for one line feed.
-/

namespace DocSync.Toml

def isSpace (c : Char) : Bool := c = ' ' || c = '\t'

/-- A character that may stand plainly in comments and strings. -/
def isPlain (c : Char) : Bool := c = '\t' || (32 ≤ c.toNat && c.toNat != 127)

def skipSpace (cs : List Char) : List Char := cs.dropWhile isSpace

/-- The text after a break at its start, or the same text. -/
def skipBreak : List Char → List Char
  | '\n' :: rest => rest
  | '\r' :: '\n' :: rest => rest
  | rest => rest

/-- The text after the blanks, breaks and comments at its start. The flag says that a comment has
begun. -/
def skipFiller? (inComment : Bool) : List Char → Option (List Char)
  | [] => some []
  | '\n' :: rest => skipFiller? false rest
  | '\r' :: '\n' :: rest => skipFiller? false rest
  | c :: rest =>
    if inComment then if isPlain c then skipFiller? true rest else none
    else if isSpace c then skipFiller? false rest
    else if c = '#' then skipFiller? true rest
    else some (c :: rest)

/-- The text after the end of a line, before which blanks and a comment may stand. -/
def endLine? (inComment : Bool) : List Char → Option (List Char)
  | [] => some []
  | '\n' :: rest => some rest
  | '\r' :: '\n' :: rest => some rest
  | c :: rest =>
    if inComment then if isPlain c then endLine? true rest else none
    else if isSpace c then endLine? false rest
    else if c = '#' then endLine? true rest
    else none

/-- The character that a backslash before the given one stands for. -/
def escaped? : Char → Option Char
  | '"' => some '"'
  | '\\' => some '\\'
  | 'b' => some '\x08'
  | 't' => some '\t'
  | 'n' => some '\n'
  | 'f' => some '\x0c'
  | 'r' => some '\r'
  | 'e' => some '\x1b'
  | _ => none

def ofHex? : List Char → Option Nat
  | [] => some 0
  | digits => digits.foldl
      (fun n c => do return (← n) * 16 + (← Json.hexValue? c)) (some 0)

/-- The character that hexadecimal digits name, which is no surrogate. -/
def named? (digits : List Char) : Option Char :=
  (ofHex? digits).bind fun n => if n.isValidChar then some (Char.ofNat n) else none

def push? (c : Option Char) (read : Option (List Char × List Char)) :
    Option (List Char × List Char) :=
  match c, read with
  | some c, some (text, rest) => some (c :: text, rest)
  | _, _ => none

/-- Reads a string in double quotes whose opening quote is past. -/
def basic? : List Char → Option (List Char × List Char)
  | [] => none
  | '"' :: rest => some ([], rest)
  | '\\' :: 'x' :: a :: b :: rest => push? (named? [a, b]) (basic? rest)
  | '\\' :: 'u' :: a :: b :: c :: d :: rest => push? (named? [a, b, c, d]) (basic? rest)
  | '\\' :: 'U' :: a :: b :: c :: d :: e :: f :: g :: h :: rest =>
    push? (named? [a, b, c, d, e, f, g, h]) (basic? rest)
  | '\\' :: c :: rest => push? (escaped? c) (basic? rest)
  | c :: rest => if isPlain c then push? (some c) (basic? rest) else none

/-- Where the reading of a string in triple double quotes stands: in its text, behind a backslash
that only blanks may part from a break, or behind such a break, where blanks and breaks are passed
over. -/
inductive Folding where
  | text
  | backslash
  | gap
  deriving DecidableEq, Repr

/-- Reads a string in triple double quotes whose opening quotes are past. Up to two more quotes may
stand before the closing ones. -/
def longBasic? (place : Folding) : List Char → Option (List Char × List Char)
  | [] => none
  | '\n' :: rest =>
    if place = .text then push? (some '\n') (longBasic? .text rest) else longBasic? .gap rest
  | '\r' :: '\n' :: rest =>
    if place = .text then push? (some '\n') (longBasic? .text rest) else longBasic? .gap rest
  | '"' :: '"' :: '"' :: '"' :: '"' :: rest =>
    if place = .backslash then none else some (['"', '"'], rest)
  | '"' :: '"' :: '"' :: '"' :: rest => if place = .backslash then none else some (['"'], rest)
  | '"' :: '"' :: '"' :: rest => if place = .backslash then none else some ([], rest)
  | '\\' :: 'x' :: a :: b :: rest =>
    if place = .backslash then none else push? (named? [a, b]) (longBasic? .text rest)
  | '\\' :: 'u' :: a :: b :: c :: d :: rest =>
    if place = .backslash then none else push? (named? [a, b, c, d]) (longBasic? .text rest)
  | '\\' :: 'U' :: a :: b :: c :: d :: e :: f :: g :: h :: rest =>
    if place = .backslash then none
    else push? (named? [a, b, c, d, e, f, g, h]) (longBasic? .text rest)
  | '\\' :: c :: rest =>
    if place = .backslash then none
    else if c = '\n' then longBasic? .gap rest
    else if isSpace c || c = '\r' then longBasic? .backslash (c :: rest)
    else push? (escaped? c) (longBasic? .text rest)
  | c :: rest =>
    if place = .text then if isPlain c then push? (some c) (longBasic? .text rest) else none
    else if isSpace c then longBasic? place rest
    else if place = .gap ∧ isPlain c then push? (some c) (longBasic? .text rest)
    else none

/-- Reads a string in single quotes whose opening quote is past. -/
def literal? : List Char → Option (List Char × List Char)
  | [] => none
  | c :: rest =>
    if c = '\x27' then some ([], rest)
    else if isPlain c then push? (some c) (literal? rest)
    else none

/-- Reads a string in triple single quotes whose opening quotes are past. Up to two more quotes may
stand before the closing ones. -/
def longLiteral? : List Char → Option (List Char × List Char)
  | [] => none
  | '\n' :: rest => push? (some '\n') (longLiteral? rest)
  | '\r' :: '\n' :: rest => push? (some '\n') (longLiteral? rest)
  | '\x27' :: '\x27' :: '\x27' :: '\x27' :: '\x27' :: rest => some (['\x27', '\x27'], rest)
  | '\x27' :: '\x27' :: '\x27' :: '\x27' :: rest => some (['\x27'], rest)
  | '\x27' :: '\x27' :: '\x27' :: rest => some ([], rest)
  | c :: rest => if isPlain c then push? (some c) (longLiteral? rest) else none

end DocSync.Toml
