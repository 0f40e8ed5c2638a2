import DocSync.Json.Token

/-!
Reading JSON text. The tokens drive a machine whose stack holds the arrays and objects that are
still open, innermost first; a text is read when the machine ends right after one value with nothing
open.
-/

namespace DocSync.Json

/-- A field that was read. It has no key where half of a surrogate pair stands in it. -/
abbrev Field := Option String × Json

/-- The object with the given fields, which stands for nothing unless every field has a key. -/
def ofFields (fields : List Field) : Json :=
  match fields.mapM fun f => f.1.map fun key => (key, f.2) with
  | some fs => .object fs
  | none => .unpaired

/-- An open array, or an open object with the key whose value is being read. What is complete stands
in reverse order. -/
inductive Frame where
  | items (done : List Json)
  | fields (done : List Field) (key : Option String)
  deriving Repr

inductive Reading where
  | value (stack : List Frame)
  /-- The first item of an array, or its end. -/
  | firstItem (stack : List Frame)
  /-- A key; where nothing is complete yet and none was promised by a comma, also the end. -/
  | key (done : List Field) (first : Bool) (stack : List Frame)
  | colon (done : List Field) (key : Option String) (stack : List Frame)
  /-- Whatever may follow a complete value. -/
  | after (value : Json) (stack : List Frame)
  deriving Repr

namespace Reading

def start? (stack : List Frame) : Token → Option Reading
  | .scalar v => some (after v stack)
  | .text s => some (after (.string s) stack)
  | .unpairedText => some (after .unpaired stack)
  | .openBracket => some (firstItem stack)
  | .openBrace => some (key [] true stack)
  | _ => none

def step? : Reading → Token → Option Reading
  | value stack, t => start? stack t
  | firstItem stack, .closeBracket => some (after (.array []) stack)
  | firstItem stack, t => start? (.items [] :: stack) t
  | key _ true stack, .closeBrace => some (after (.object []) stack)
  | key done _ stack, .text k => some (colon done (some k) stack)
  | key done _ stack, .unpairedText => some (colon done none stack)
  | colon done k stack, .colon => some (value (.fields done k :: stack))
  | after v (.items done :: stack), .comma => some (value (.items (v :: done) :: stack))
  | after v (.items done :: stack), .closeBracket =>
    some (after (.array (v :: done).reverse) stack)
  | after v (.fields done k :: stack), .comma => some (key ((k, v) :: done) false stack)
  | after v (.fields done k :: stack), .closeBrace =>
    some (after (ofFields ((k, v) :: done).reverse) stack)
  | _, _ => none

def run? : Reading → List Token → Option Reading
  | r, [] => some r
  | r, t :: ts =>
    match r.step? t with
    | some next => run? next ts
    | none => none

def result? : Reading → Option Json
  | after v [] => some v
  | _ => none

end Reading

/-- The spelling that a text holds, if it is JSON. -/
def read? (text : List Char) : Option Json := do
  let tokens ← tokens? text
  let last ← (Reading.value []).run? tokens
  last.result?

/-- How many arrays and objects may be open at once in a text that is read as a value. A reader that
looks for known fields passes over the others however deep they are, and does without. -/
def nestingLimit : Nat := 127

/-- The value that a text denotes, if it is JSON, is not nested too deep and denotes one. -/
def parse? (text : List Char) : Option Json :=
  (read? text).bind fun j => if j.depth ≤ nestingLimit then settle? j else none

end DocSync.Json
