import DocSync.Json.Basic

/-!
TOML values and the rules by which tables grow. A table comes into being under a header, as the
parent of one, through a dotted key, or inline. A header may complete a table that so far was only a
parent; a dotted key may add to tables of dotted keys only; an inline table never grows.
-/

namespace DocSync

inductive TableForm where
  | parent
  | dotted
  | header
  | inline
  deriving DecidableEq, Repr

inductive Toml where
  | string (text : String)
  | integer (value : Int)
  | float (spelling : String)
  | bool (value : Bool)
  | moment (spelling : String)
  | array (items : List Toml)
  /-- The tables of headers in double brackets. -/
  | tables (items : List Toml)
  | table (form : TableForm) (entries : List (String × Toml))
  deriving Repr, Inhabited

namespace Toml

abbrev Entries := List (String × Toml)

/-- Replaces the value of a key, or adds one, where the change allows it. -/
def alter (key : String) (change : Option Toml → Option Toml) : Entries → Option Entries
  | [] => (change none).map fun v => [(key, v)]
  | (k, v) :: rest =>
    if k = key then (change (some v)).map fun v => (k, v) :: rest
    else (alter key change rest).map ((k, v) :: ·)

/-- Changes the entries at the end of a path. Missing tables on the way are made, and of the tables
of double brackets the last is entered. -/
def descend (isDotted : Bool) (act : TableForm → Entries → Option Entries) :
    List String → TableForm → Entries → Option Entries
  | [], form, entries => act form entries
  | key :: rest, _, entries =>
    alter key
      (fun
        | none =>
          let form := if isDotted then TableForm.dotted else .parent
          (descend isDotted act rest form []).map (table form)
        | some (table form inner) =>
          if form = .inline ∨ isDotted ∧ form = .header then none
          else (descend isDotted act rest form inner).map (table form)
        | some (tables items) =>
          match items.getLast? with
          | some (table form inner) =>
            (descend isDotted act rest form inner).map fun inner =>
              tables (items.dropLast ++ [table form inner])
          | _ => none
        | some _ => none)
      entries

/-- Adds an entry under a dotted key, given by its path and its last part. -/
def assign (path : List String) (key : String) (value : Toml) :
    TableForm → Entries → Option Entries :=
  descend true
    (fun form entries =>
      if (form == .dotted) == path.isEmpty then none
      else
        alter key
          (fun
            | none => some value
            | some _ => none)
          entries)
    path

def startTable (path : List String) (key : String) (entries : Entries) : Option Entries :=
  descend false
    (fun _ entries =>
      alter key
        (fun
          | none => some (table .header [])
          | some (table .parent inner) => some (table .header inner)
          | some _ => none)
        entries)
    path .header entries

/-- Starts one more table of a header in double brackets. -/
def startItem (path : List String) (key : String) (entries : Entries) : Option Entries :=
  descend false
    (fun _ entries =>
      alter key
        (fun
          | none => some (tables [table .header []])
          | some (tables items) => some (tables (items ++ [table .header []]))
          | some _ => none)
        entries)
    path .header entries

/-- Adds an entry to the table of the current header. -/
def assignUnder (header path : List String) (key : String) (value : Toml) (entries : Entries) :
    Option Entries :=
  descend false (assign path key value) header .header entries

mutual

/-- The JSON value that stands for a value among settings. No setting is a float or a moment; these
become an object without fields, which no setting is either. -/
def toJson : Toml → Json
  | string s => .string s
  | integer i => .int i
  | float _ => .object []
  | bool b => .bool b
  | moment _ => .object []
  | array items => .array (toJsonItems items)
  | tables items => .array (toJsonItems items)
  | table _ entries => .object (toJsonFields entries)

def toJsonItems : List Toml → List Json
  | [] => []
  | v :: rest => toJson v :: toJsonItems rest

def toJsonFields : List (String × Toml) → List (String × Json)
  | [] => []
  | (k, v) :: rest => (k, toJson v) :: toJsonFields rest

end

end Toml

end DocSync
