import DocSync.Toml.Basic
import DocSync.Toml.Text

/-!
Truth values, moments and numbers of TOML. Each is a single word, but that a blank may part the date
of a moment from its time. An underscore may stand between two digits of a number. Integers lie
within 128 bits, and a float other than the infinities rounds to a finite double.
-/

namespace DocSync.Toml

def sign : List Char → Bool × List Char
  | '-' :: rest => (true, rest)
  | '+' :: rest => (false, rest)
  | rest => (false, rest)

/-- The digits of a number without the underscores between them. -/
def grouped? (isDigit : Char → Bool) : List Char → Option (List Char)
  | [] => none
  | [c] => if isDigit c then some [c] else none
  | c :: '_' :: rest => if isDigit c then (grouped? isDigit rest).map (c :: ·) else none
  | c :: rest => if isDigit c then (grouped? isDigit rest).map (c :: ·) else none

/-- The digits before a point, of which the first is no zero unless it is the only one. -/
def whole? (cs : List Char) : Option (List Char) :=
  match grouped? Char.isDigit cs with
  | some ('0' :: _ :: _) => none
  | digits => digits

def isDigitOf (base : Nat) (c : Char) : Bool :=
  match Json.hexValue? c with
  | some n => n < base
  | none => false

def inBase? (base : Nat) (cs : List Char) : Option Int :=
  (grouped? (isDigitOf base) cs).map fun digits =>
    (digits.foldl (fun n c => n * base + (Json.hexValue? c).getD 0) 0 : Nat)

def anyInteger? : List Char → Option Int
  | '0' :: 'x' :: rest => inBase? 16 rest
  | '0' :: 'o' :: rest => inBase? 8 rest
  | '0' :: 'b' :: rest => inBase? 2 rest
  | cs =>
    let (negative, cs) := sign cs
    (whole? cs).map fun digits =>
      let n : Int := Json.ofDigits digits
      if negative then -n else n

def integer? (cs : List Char) : Option Int :=
  (anyInteger? cs).filter fun n => -Int.pow 2 127 ≤ n && n < Int.pow 2 128

def isExponentMark (c : Char) : Bool := c = 'e' || c = 'E'

/-- The digits after a point, none where there is no point. -/
def fraction? : List Char → Option (List Char)
  | [] => some []
  | _ :: rest => grouped? Char.isDigit rest

/-- The number after the mark of an exponent, zero where there is no mark. -/
def exponent? : List Char → Option Int
  | [] => some 0
  | _ :: rest =>
    let (negative, digits) := sign rest
    (grouped? Char.isDigit digits).map fun digits =>
      let n : Int := Json.ofDigits digits
      if negative then -n else n

/-- The number that is written with a point, an exponent or both. -/
def decimal? (negative : Bool) (cs : List Char) : Option Numeral :=
  let front := cs.takeWhile (!isExponentMark ·)
  let scale := cs.dropWhile (!isExponentMark ·)
  let point := front.dropWhile (· != '.')
  if point.isEmpty && scale.isEmpty then none
  else
    match whole? (front.takeWhile (· != '.')), fraction? point, exponent? scale with
    | some whole, some digits, some e =>
      some (.decimal negative (Json.ofDigits (whole ++ digits)) (e - digits.length))
    | _, _, _ => none

def isFloat (cs : List Char) : Bool :=
  let (negative, cs) := sign cs
  cs == ['i', 'n', 'f'] || cs == ['n', 'a', 'n'] ||
    match decimal? negative cs with
    | some n => n.fitsDouble
    | none => false

def isWithin (low high : Nat) (a b : Char) : Bool :=
  let n := Json.ofDigits [a, b]
  a.isDigit && b.isDigit && low ≤ n && n ≤ high

def isLeap (year : Nat) : Bool := year % 4 = 0 && (year % 100 != 0 || year % 400 = 0)

def daysIn (year month : Nat) : Nat :=
  match month with
  | 2 => if isLeap year then 29 else 28
  | 4 | 6 | 9 | 11 => 30
  | _ => 31

def afterDate? : List Char → Option (List Char)
  | a :: b :: c :: d :: '-' :: m :: n :: '-' :: x :: y :: rest =>
    let days := daysIn (Json.ofDigits [a, b, c, d]) (Json.ofDigits [m, n])
    if [a, b, c, d].all Char.isDigit && isWithin 1 12 m n && isWithin 1 days x y then some rest
    else none
  | _ => none

/-- The text after the seconds of a time, which may be left out. -/
def afterSeconds? : List Char → Option (List Char)
  | ':' :: a :: b :: '.' :: c :: rest =>
    if isWithin 0 60 a b && c.isDigit then some (rest.dropWhile Char.isDigit) else none
  | ':' :: a :: b :: rest => if isWithin 0 60 a b then some rest else none
  | rest => some rest

def afterTime? : List Char → Option (List Char)
  | a :: b :: ':' :: c :: d :: rest =>
    if isWithin 0 23 a b && isWithin 0 59 c d then afterSeconds? rest else none
  | _ => none

/-- The distance of a clock from universal time, or nothing. -/
def isOffset : List Char → Bool
  | [] => true
  | [c] => c = 'Z' || c = 'z'
  | [s, a, b, ':', c, d] => (s = '+' || s = '-') && isWithin 0 23 a b && isWithin 0 59 c d
  | _ => false

/-- A date, a time, or a date and a time with an offset or without. -/
def isMoment (cs : List Char) : Bool :=
  match afterDate? cs with
  | some [] => true
  | some (c :: time) =>
    (c = 'T' || c = 't' || c = ' ') &&
      match afterTime? time with
      | some rest => isOffset rest
      | none => false
  | none =>
    match afterTime? cs with
    | some [] => true
    | _ => false

def ofWord? (cs : List Char) : Option Toml :=
  if cs = ['t', 'r', 'u', 'e'] then some (.bool true)
  else if cs = ['f', 'a', 'l', 's', 'e'] then some (.bool false)
  else if isMoment cs then some (.moment (String.ofList cs))
  else
    match integer? cs with
    | some n => some (.integer n)
    | none => if isFloat cs then some (.float (String.ofList cs)) else none

def isWordChar (c : Char) : Bool :=
  c.isAlphanum || c = '+' || c = '-' || c = '.' || c = '_' || c = ':'

/-- The word at the start of a text, and the text after it. A date and the word behind one space go
together where that word starts with a digit. -/
def word (cs : List Char) : List Char × List Char :=
  let front := cs.takeWhile isWordChar
  let rest := cs.dropWhile isWordChar
  match afterDate? front, rest with
  | some [], ' ' :: c :: more =>
    if c.isDigit then
      (front ++ ' ' :: c :: more.takeWhile isWordChar, more.dropWhile isWordChar)
    else (front, rest)
  | _, _ => (front, rest)

def scalar? (cs : List Char) : Option (Toml × List Char) :=
  let (w, rest) := word cs
  (ofWord? w).map fun v => (v, rest)

end DocSync.Toml
