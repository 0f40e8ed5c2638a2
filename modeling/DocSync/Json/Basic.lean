import DocSync.Keyed

/-!
JSON values as they are spelled. A number keeps whether it was written as an integer, an object
keeps every field in order, and a string whose escapes name half of a surrogate pair is kept as
`unpaired`, since it stands for no text; so is an object with such a key. `settle?` turns a spelling
into the value it denotes: `unpaired` and numbers too large for a double denote none, and of the
fields with one key the last counts.
-/

namespace DocSync

/-- A JSON number: an integer, or `mantissa * 10 ^ scale` where a fraction or exponent is written.
-/
inductive Numeral where
  | integer (negative : Bool) (magnitude : Nat)
  | decimal (negative : Bool) (mantissa : Nat) (scale : Int)
  deriving DecidableEq, Repr

namespace Numeral

/-- The natural number that is written, if it is one. Minus zero is not. -/
def natural? : Numeral → Option Nat
  | integer false n => some n
  | _ => none

/-- The integer that is written, if it is one. Minus zero is not. -/
def integer? : Numeral → Option Int
  | integer false n => some n
  | integer true 0 => none
  | integer true (n + 1) => some (-(n + 1 : Nat))
  | decimal _ _ _ => none

/-- The least natural number that rounds to no finite double. -/
def doubleLimit : Nat := Nat.pow 2 1024 - Nat.pow 2 970

/-- The number rounds to a finite double. The number of digits decides before any large power is
taken. -/
def fitsDouble : Numeral → Bool
  | integer _ n => n < doubleLimit
  | decimal _ m s =>
    let size : Int := (Nat.toDigits 10 m).length + s
    if m = 0 then true
    else if size < 300 then true
    else if size > 400 then false
    else if 0 ≤ s then m * Nat.pow 10 s.toNat < doubleLimit
    else m < doubleLimit * Nat.pow 10 (-s).toNat

end Numeral

inductive Json where
  | null
  | bool (value : Bool)
  | number (value : Numeral)
  | string (text : String)
  | unpaired
  | array (items : List Json)
  | object (fields : List (String × Json))
  deriving Repr, Inhabited

namespace Json

def nat (n : Nat) : Json := number (.integer false n)

def int (i : Int) : Json := number (.integer (i < 0) i.natAbs)

/-- The first field with the given key. -/
def field? (key : String) : Json → Option Json
  | object fields => fields.lookup key
  | _ => none

def text? : Json → Option String
  | string s => some s
  | _ => none

def natural? : Json → Option Nat
  | number n => n.natural?
  | _ => none

def integer? : Json → Option Int
  | number n => n.integer?
  | _ => none

def bool? : Json → Option Bool
  | bool b => some b
  | _ => none

def items? : Json → Option (List Json)
  | array items => some items
  | _ => none

mutual

/-- The value that a spelling denotes. -/
def settle? : Json → Option Json
  | null => some null
  | bool b => some (bool b)
  | number n => if n.fitsDouble then some (number n) else none
  | string s => some (string s)
  | unpaired => none
  | array items => (settleItems? items).map array
  | object fields => (settleFields? fields).map fun fs => object (Keyed.keepLast fs)

def settleItems? : List Json → Option (List Json)
  | [] => some []
  | j :: rest =>
    match settle? j, settleItems? rest with
    | some v, some vs => some (v :: vs)
    | _, _ => none

def settleFields? : List (String × Json) → Option (List (String × Json))
  | [] => some []
  | (k, j) :: rest =>
    match settle? j, settleFields? rest with
    | some v, some vs => some ((k, v) :: vs)
    | _, _ => none

end

mutual

/-- How many arrays and objects lie in one another. -/
def depth : Json → Nat
  | array items => depthItems items + 1
  | object fields => depthFields fields + 1
  | _ => 0

def depthItems : List Json → Nat
  | [] => 0
  | j :: rest => max (depth j) (depthItems rest)

def depthFields : List (String × Json) → Nat
  | [] => 0
  | (_, j) :: rest => max (depth j) (depthFields rest)

end

end Json

end DocSync
