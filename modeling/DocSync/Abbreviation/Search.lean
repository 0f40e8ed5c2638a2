import DocSync.Abbreviation.Table

/-!
The search for an abbreviation in a text that is kept as bytes. A character takes one to four bytes
and starts at an offset; the place of the cursor and of the backslash are told by offset, and the
key is cut out between two of them. A cut inside of a character is none.
-/

namespace DocSync

namespace Text

/-- The number of bytes that a text takes. -/
def byteSize (text : List Char) : Nat := text.foldr (fun c n => c.utf8Size + n) 0

/-- The offsets at which the characters start, and the one at which the text ends. -/
def offsets : List Char → List Nat
  | [] => [0]
  | c :: rest => 0 :: (offsets rest).map (c.utf8Size + ·)

/-- The texts on both sides of an offset. -/
def cut? : List Char → Nat → Option (List Char × List Char)
  | text, 0 => some ([], text)
  | [], _ + 1 => none
  | c :: rest, n + 1 =>
    if c.utf8Size ≤ n + 1 then (cut? rest (n + 1 - c.utf8Size)).map fun (l, r) => (c :: l, r)
    else none

/-- The offset at which a character starts for the last time. -/
def lastOffset? (c : Char) : List Char → Option Nat
  | [] => none
  | d :: rest =>
    match lastOffset? c rest with
    | some n => some (d.utf8Size + n)
    | none => if d = c then some 0 else none

end Text

namespace AbbreviationTable

open Text

/-- Looks by offset for the abbreviation that ends at a cursor, or gives nothing when a cut is
none. -/
def search? (t : AbbreviationTable) (line : List Char) (cursor : Nat) :
    Option (Option AbbreviationMatch) :=
  match (offsets line)[cursor]? with
  | none => some none
  | some stop =>
    (cut? line stop).bind fun (left, _) =>
      match lastOffset? '\\' left with
      | none => some none
      | some slash =>
        (cut? left (slash + 1)).map fun (_, key) =>
          (t.get? (String.ofList key)).map fun r =>
            ⟨((offsets line).takeWhile (· < slash)).length, cursor, String.ofList key, r⟩

end AbbreviationTable

end DocSync
