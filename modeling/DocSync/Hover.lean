import DocSync.Message

/-!
What a hover shows for a record: its name with parameters or type, its documentation, and the goals.
-/

namespace DocSync

/-- A block of a hover: code of a language, or Markdown. -/
inductive HoverBlock where
  | code (language value : String)
  | markdown (text : String)
  deriving DecidableEq, Repr

structure HoverInfo where
  contents : List HoverBlock
  range : Option EditorRange
  deriving DecidableEq, Repr

namespace HoverInfo

def empty : HoverInfo := ⟨[], none⟩

def isEmpty (h : HoverInfo) : Bool := h.contents.isEmpty

/-- Parameters that are there and not none. -/
def params? (r : InfoRecord) : Option (List String) :=
  match r.tacticParams with
  | some (p :: ps) => some (p :: ps)
  | _ => none

/-- The block of the name. Parameters go before the type. -/
def nameBlock (r : InfoRecord) (name : String) : HoverBlock :=
  match params? r, r.signature with
  | some params, _ => .code "text" (name ++ " " ++ " ".intercalate params)
  | none, some signature => .code "lean" (name ++ " : " ++ signature)
  | none, none => .code "lean" name

/-- The blocks of a record, each only where it has something to show. -/
def ofRecord (r : InfoRecord) (cursor : EditorPosition) : HoverInfo where
  contents :=
    (r.name?.map (nameBlock r)).toList ++
    ((nonempty? r.doc).map HoverBlock.markdown).toList ++
    ((nonempty? r.state).map (HoverBlock.code "lean")).toList
  range := some (EditorRange.point cursor)

end HoverInfo

end DocSync
