import DocSync.Count
import DocSync.Json.Reader

/-!
Typed values as JSON. A `Codec` writes a value and reads it back; a `Shape` describes a record by
the names of its fields. A record is written as an object. It is read from an object, whose other
fields are passed over unless the shape is closed and whose own fields must not repeat, or from an
array of its fields in order, which may break off where the remaining fields can be left out.
-/

namespace DocSync

/-- How values of a type are written as JSON and read back. -/
structure Codec (α : Type) where
  write : α → Json
  read? : Json → Option α

namespace Codec

variable {α β : Type}

def text : Codec String where
  write := .string
  read? := Json.text?

def natural (limit : Nat) : Codec Nat where
  write := .nat
  read? j := j.natural?.bind fun n => if n ≤ limit then some n else none

def count : Codec Count where
  write c := .nat c.toNat
  read? j := ((natural 4294967295).read? j).map UInt32.ofNat

def readEach? (c : Codec α) : List Json → Option (List α)
  | [] => some []
  | j :: rest =>
    match c.read? j, readEach? c rest with
    | some a, some as => some (a :: as)
    | _, _ => none

def list (c : Codec α) : Codec (List α) where
  write as := .array (as.map c.write)
  read?
    | .array items => c.readEach? items
    | _ => none

/-- A value that may be absent, which `null` says. -/
def nullable (c : Codec α) : Codec (Option α) where
  write
    | none => .null
    | some a => c.write a
  read?
    | .null => some none
    | j => (c.read? j).map some

def via (c : Codec α) (wrap : α → β) (unwrap : β → α) : Codec β where
  write b := c.write (unwrap b)
  read? j := (c.read? j).map wrap

/-- One of several names, written as a string. It is read from the string or from an object with the
name as its only key and `null` as its value. -/
def choice [DecidableEq α] (names : List (String × α)) : Codec α where
  write a := .string (((names.find? fun n => n.2 = a).map Prod.fst).getD "")
  read?
    | .string s => names.lookup s
    | .object [(s, .null)] => names.lookup s
    | _ => none

end Codec

/-- The fields of a record in order, and how they are written and read. -/
structure Shape (α : Type) where
  names : List String
  isClosed : Bool
  write : α → List (String × Json)
  read? : (String → Option Json) → Option α

namespace Shape

variable {α : Type}

def distinct (names : List String) (fields : List (String × Json)) : Bool :=
  names.all fun n => (fields.filter fun f => f.1 == n).length ≤ 1

def onlyKnown (names : List String) (fields : List (String × Json)) : Bool :=
  fields.all fun f => names.contains f.1

def codec (s : Shape α) : Codec α where
  write a := .object (s.write a)
  read?
    | .object fields =>
      if distinct s.names fields && (!s.isClosed || onlyKnown s.names fields) then
        s.read? fun n => fields.lookup n
      else none
    | .array items =>
      if items.length ≤ s.names.length then s.read? fun n => (s.names.zip items).lookup n
      else none
    | _ => none

end Shape

namespace Slot

variable {α : Type}

def required? (c : Codec α) (slot : Option Json) : Option α := slot.bind c.read?

/-- A field that may be left out and then has a default. -/
def orDefault? (c : Codec α) (default : α) (slot : Option Json) : Option α :=
  match slot with
  | none => some default
  | some j => c.read? j

/-- A field that may be left out or `null`. -/
def optional? (c : Codec α) (slot : Option Json) : Option (Option α) :=
  orDefault? c.nullable none slot

/-- The field with a value, or no field. -/
def present (c : Codec α) (name : String) : Option α → List (String × Json)
  | none => []
  | some a => [(name, c.write a)]

end Slot

end DocSync
