import DocSync.Json.Basic

/-!
Writing JSON without blanks. Quotes, backslashes and the controls below the space are escaped, so a
written value never holds a line break.
-/

namespace DocSync.Json

/-- The lower-case hexadecimal digit of a number below sixteen. -/
def hexDigit (n : Nat) : Char := if n < 10 then Char.ofNat (48 + n) else Char.ofNat (87 + n)

def escape (c : Char) : List Char :=
  if c = '"' then ['\\', '"']
  else if c = '\\' then ['\\', '\\']
  else if c = '\n' then ['\\', 'n']
  else if c = '\r' then ['\\', 'r']
  else if c = '\t' then ['\\', 't']
  else if c = '\x08' then ['\\', 'b']
  else if c = '\x0c' then ['\\', 'f']
  else if c.toNat < 32 then
    ['\\', 'u', '0', '0', hexDigit (c.toNat / 16), hexDigit (c.toNat % 16)]
  else [c]

def writeText (s : String) : List Char := '"' :: (s.toList.flatMap escape ++ ['"'])

def decimal (n : Nat) : List Char := Nat.toDigits 10 n

def writeNumeral : Numeral → List Char
  | .integer negative n => (if negative then ['-'] else []) ++ decimal n
  | .decimal negative m s =>
    (if negative then ['-'] else []) ++ decimal m ++
      (if s < 0 then ['e', '-'] else ['e']) ++ decimal s.natAbs

mutual

def write : Json → List Char
  | null => ['n', 'u', 'l', 'l']
  | bool true => ['t', 'r', 'u', 'e']
  | bool false => ['f', 'a', 'l', 's', 'e']
  | number n => writeNumeral n
  | string s => writeText s
  | unpaired => ['"', '\\', 'u', 'd', '8', '0', '0', '"']
  | array [] => ['[', ']']
  | array (j :: rest) => '[' :: (write j ++ writeItems rest)
  | object [] => ['{', '}']
  | object ((k, j) :: rest) => '{' :: (writeText k ++ ':' :: (write j ++ writeFields rest))

/-- The items after the first, with the end of the array. -/
def writeItems : List Json → List Char
  | [] => [']']
  | j :: rest => ',' :: (write j ++ writeItems rest)

/-- The fields after the first, with the end of the object. -/
def writeFields : List (String × Json) → List Char
  | [] => ['}']
  | (k, j) :: rest => ',' :: (writeText k ++ ':' :: (write j ++ writeFields rest))

end

def render (j : Json) : String := String.ofList (write j)

end DocSync.Json
