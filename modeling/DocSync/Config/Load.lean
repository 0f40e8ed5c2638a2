import DocSync.Config
import DocSync.Failure
import DocSync.Folder
import DocSync.Toml.Reader

/-!
Settings from TOML text and from files. A path of the abbreviation table that is not absolute counts
from the folder of the file that names it.
-/

namespace DocSync

variable [Wording]

def AbbreviationTable.load (d : Folder) (path : List Char) : Except Failure AbbreviationTable :=
  match d.text? path with
  | none => .error (.unavailableTable (Wording.file path))
  | some text =>
    match ofJson? text with
    | none => .error (.invalidTable (Wording.text "AbbreviationTable" text))
    | some table => .ok table

namespace Config

/-- Drops the items of an array for the server that stand behind those of its fields. -/
def trim : String × Toml → String × Toml
  | ("server", .array items) =>
    ("server", .array (items.take ServerCommand.shape.names.length))
  | entry => entry

def ofToml? (text : List Char) : Option Config :=
  (Toml.parse? text).bind fun entries =>
    codec.read? (.object (Toml.toJsonFields (entries.map trim)))

/-- The same settings with the path of the table counted from a folder. -/
def within (folder : List Char) (c : Config) : Config :=
  { c with table := c.table.map fun t => String.ofList (FilePath.join folder t.toList) }

def load (d : Folder) (path : List Char) : Except Failure Config :=
  match d.text? path with
  | none => .error (.unavailable (Wording.file path))
  | some text =>
    match ofToml? text with
    | none => .error (.invalidConfig (Wording.text "Config" text))
    | some c => .ok (c.within (FilePath.folder path))

/-- The configured abbreviation table, which is the built-in one unless a file is named. -/
def abbreviations (d : Folder) (c : Config) : Except Failure AbbreviationTable :=
  match c.table with
  | none => .ok .builtin
  | some path => AbbreviationTable.load d path.toList

end Config

end DocSync
