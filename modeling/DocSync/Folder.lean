import DocSync.Json.Basic

/-!
Files by their absolute paths. A path is a text whose slashes part names; it is joined and cut as
text and looked up name by name, where nothing and one dot stay in place and two dots go up. Every
name but the last must lead through a folder, and a folder is whatever lies above a file.
-/

namespace DocSync

namespace FilePath

def isAbsolute (path : List Char) : Bool := path.head? == some '/'

def names : List Char → List (List Char)
  | [] => [[]]
  | c :: rest =>
    if c = '/' then [] :: names rest
    else
      match names rest with
      | [] => [[c]]
      | name :: more => (c :: name) :: more

def ofNames : List (List Char) → List Char
  | [] => []
  | [name] => name
  | name :: rest => name ++ '/' :: ofNames rest

def isIdle (name : List Char) : Bool := name == [] || name == ['.']

/-- The path of the folder that holds the file of a path, without idle names at its end. -/
def folder (path : List Char) : List Char :=
  ofNames ((names path).dropLast.reverse.dropWhile isIdle).reverse

/-- The path that is reached from a folder: one slash stands between the two, and an absolute path
stands alone. -/
def join (folder path : List Char) : List Char :=
  if isAbsolute path then path else folder ++ '/' :: path

end FilePath

/-- The names that lead to each file, and its bytes. -/
structure Folder where
  files : List (List (List Char) × List UInt8)
  deriving Repr

namespace Folder

open FilePath

def ofPaths (files : List (List Char × List UInt8)) : Folder :=
  ⟨files.map fun (path, bytes) => ((names path).filter (!isIdle ·), bytes)⟩

/-- Some file lies below a place. -/
def isAbove (d : Folder) (place : List (List Char)) : Bool :=
  d.files.any fun f => place.isPrefixOf f.1 && place.length < f.1.length

/-- The place that names lead to from another one. -/
def walk? (d : Folder) : List (List Char) → List (List Char) → Option (List (List Char))
  | place, [] => some place
  | place, name :: rest =>
    if d.isAbove place then
      if isIdle name then d.walk? place rest
      else if name = ['.', '.'] then d.walk? place.dropLast rest
      else d.walk? (place ++ [name]) rest
    else none

def bytes? (d : Folder) (path : List Char) : Option (List UInt8) :=
  (d.walk? [] (names path)).bind fun place => d.files.lookup place

/-- The text of the file with an absolute path, if its bytes are text. -/
def text? (d : Folder) (path : List Char) : Option (List Char) := do
  let bytes ← d.bytes? path
  let text ← String.fromUTF8? ⟨bytes.toArray⟩
  return text.toList

end Folder

end DocSync
