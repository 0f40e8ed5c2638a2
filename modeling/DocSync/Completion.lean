import DocSync.Message

/-!
Completion items: each candidate with the span that accepting it replaces, the typed characters
right before the cursor.
-/

namespace DocSync

structure CompletionItem where
  label : String
  detail : Option String
  documentation : Option String
  range : EditorRange
  deriving DecidableEq, Repr

namespace CompletionItem

/-- The span of a number of characters up to a cursor, no further than the start of its line. -/
def typedRange (cursor : EditorPosition) (length : Nat) : EditorRange :=
  ⟨⟨cursor.line, max (cursor.column.minus (Count.clamp length)) 1⟩, cursor⟩

/-- The parameters of a tactic, or the type where it has none. -/
def detail? (raw : RawCompletion) : Option String :=
  match raw.tacticParams with
  | some (p :: ps) => some (" ".intercalate (p :: ps))
  | _ => raw.signature

def ofRaw (raw : RawCompletion) (cursor : EditorPosition) (typedLength : Nat) : CompletionItem :=
  ⟨raw.text, detail? raw, raw.doc, typedRange cursor typedLength⟩

def ofResult (result : CompletionResult) (cursor : EditorPosition) : List CompletionItem :=
  result.completions.map fun raw => ofRaw raw cursor result.typed.toList.length

end CompletionItem

inductive CompletionOutcome where
  | items (items : List CompletionItem)
  | cancelled
  deriving DecidableEq, Repr

end DocSync
