/-!
Lists of entries under keys. Where keys may repeat, the last entry of a key counts; `put` and
`remove` keep keys from repeating.
-/

namespace DocSync.Keyed

variable {κ α : Type}

/-- What the entries weigh together. -/
def total (weight : κ × α → Nat) (entries : List (κ × α)) : Nat :=
  entries.foldr (fun e n => weight e + n) 0

variable [BEq κ]

/-- Keeps, of the entries with one key, the last. -/
def keepLast : List (κ × α) → List (κ × α)
  | [] => []
  | (k, a) :: rest =>
    if rest.any (fun e => e.1 == k) then keepLast rest else (k, a) :: keepLast rest

/-- Replaces the entry of a key, or adds one at the end. -/
def put (k : κ) (a : α) : List (κ × α) → List (κ × α)
  | [] => [(k, a)]
  | (l, b) :: rest => if l == k then (k, a) :: rest else (l, b) :: put k a rest

def remove (k : κ) (entries : List (κ × α)) : List (κ × α) :=
  entries.filter fun e => !(e.1 == k)

end DocSync.Keyed
