import DocSync.Completion
import DocSync.Proofs.EditedLines
import Mathlib.Data.List.Forall2

/-!
What accepting a completion does. There is one item for each candidate, and its span ends at the
cursor and takes in as many columns as characters were typed, but none before the line. Where the
typed characters stand before the cursor, the label takes their place and nothing else changes.
-/

namespace DocSync

/-- A span of some columns of a line that ends at a cursor. -/
structure EditorRange.Reaches (range : EditorRange) (cursor : EditorPosition) (columns : Nat) :
    Prop where
  line : range.start.line = cursor.line
  stop : range.stop = cursor
  ordered : range.start ≤ range.stop
  width : range.start.column.toNat + columns = cursor.column.toNat

namespace Document

/-- The cursor is at a valid position, and the text stands right before it on its line. -/
def TypedAt (d : Document) (cursor : EditorPosition) (typed : List Char) : Prop :=
  ∃ line, d.line? cursor.line = some line ∧ d.HasPosition cursor ∧
    typed <:+ line.take (cursor.column.toNat - 1)

/-- What was typed right before the cursor becomes another text, and nothing else changes. -/
structure Retypes (d : Document) (cursor : EditorPosition) (typed text : List Char)
    (d' : Document) : Prop where
  spliced : ∃ left right, d.visible = left ++ typed ++ right ∧
    d.index? cursor = some (left ++ typed).length ∧ d'.visible = left ++ text ++ right
  hidden : d'.before = d.before ∧ d'.after = d.after

end Document

namespace CompletionItem

variable {d : Document} {cursor : EditorPosition} {typed : List Char} {item : CompletionItem}
  {result : CompletionResult} {raw : RawCompletion}

/-- The edit that accepts an item, with a number of characters that the editor says it replaces. -/
def change (item : CompletionItem) (length : Count) : TextChange := ⟨item.range, length, item.label⟩

/-- An item inserts the text of its candidate and shows what the server knows of it. -/
structure Presents (raw : RawCompletion) (item : CompletionItem) : Prop where
  label : item.label = raw.text
  documentation : item.documentation = raw.doc
  signature : (raw.tacticParams = none ∨ raw.tacticParams = some []) → item.detail = raw.signature
  tactic : ∀ p ps, raw.tacticParams = some (p :: ps) →
    item.detail = some (" ".intercalate (p :: ps))

theorem presents_ofRaw (raw : RawCompletion) (cursor : EditorPosition) (n : Nat) :
    Presents raw (ofRaw raw cursor n) where
  label := rfl
  documentation := rfl
  signature h := by
    rcases h with h | h
    · simp only [ofRaw, detail?, h]
    · simp only [ofRaw, detail?, h]
  tactic p ps h := by simp only [ofRaw, detail?, h]

theorem presents_ofResult (result : CompletionResult) (cursor : EditorPosition) :
    List.Forall₂ Presents result.completions (ofResult result cursor) := by
  rw [ofResult, List.forall₂_map_right_iff, List.forall₂_same]
  intro raw _
  exact presents_ofRaw raw cursor _

theorem range_of_mem (h : item ∈ ofResult result cursor) :
    item.range = typedRange cursor result.typed.toList.length := by
  obtain ⟨raw, _, rfl⟩ := List.mem_map.mp h
  rfl

theorem typedRange_width (h : 1 ≤ cursor.column.toNat) (n : Nat) :
    (typedRange cursor n).start.column.toNat + min n (cursor.column.toNat - 1) =
      cursor.column.toNat := by
  have hlast := UInt32.toNat_lt cursor.column
  have hstart : (typedRange cursor n).start.column.toNat =
      max (cursor.column.toNat - min n 4294967295) 1 := by
    rw [typedRange, UInt32.toNat_max, Count.toNat_minus, Count.toNat_clamp, UInt32.toNat_one]
  omega

theorem typedRange_reaches (h : 1 ≤ cursor.column.toNat) (n : Nat) :
    (typedRange cursor n).Reaches cursor (min n (cursor.column.toNat - 1)) where
  line := rfl
  stop := rfl
  ordered := by
    have hwidth := typedRange_width h n
    rw [EditorPosition.le_iff]
    refine .inr ⟨rfl, ?_⟩
    change _ ≤ cursor.column.toNat
    omega
  width := typedRange_width h n

theorem exists_typed {line : List Char} {u : Nat} (h : typed <:+ line.take u)
    (hu : u ≤ line.length) :
    ∃ front, line.take front.length = front ∧ line.take u = front ++ typed ∧
      front.length + typed.length = u := by
  obtain ⟨front, hfront⟩ := h
  have hlength : front.length + typed.length = u := by
    rw [← List.length_append, hfront, List.length_take_of_le hu]
  refine ⟨front, ?_, hfront.symm, hlength⟩
  calc line.take front.length = (line.take u).take front.length := by
        rw [List.take_take, Nat.min_eq_left (by omega)]
    _ = front := by rw [← hfront, List.take_left]

/-- The span starts where the typed characters do, so the label is put in their place. -/
theorem retypes (h : d.TypedAt cursor typed) (item : CompletionItem)
    (hrange : item.range = typedRange cursor typed.length) :
    ∃ d', (∀ n, d.apply (item.change n) = .ok d') ∧
      d.Retypes cursor typed item.label.toList d' := by
  obtain ⟨line, hline, ⟨_, hline', hpos, hle⟩, hsuffix⟩ := h
  obtain rfl := Option.some.inj (hline.symm.trans hline')
  obtain ⟨u, hcolumn⟩ := Nat.exists_eq_add_of_le' hpos
  obtain ⟨above, below, hat⟩ := Document.exists_lineAt hline
  have hu : u ≤ line.length := by omega
  rw [hcolumn, Nat.add_sub_cancel] at hsuffix
  obtain ⟨front, hfront, htake, hlength⟩ := exists_typed hsuffix hu
  have hstart : item.range.start.line = cursor.line ∧
      item.range.start.column.toNat = front.length + 1 := by
    have hreach := typedRange_reaches hpos typed.length
    rw [← hrange] at hreach
    have hwidth := hreach.width
    refine ⟨hreach.line, ?_⟩
    omega
  have hstop : item.range.stop = cursor := by rw [hrange, typedRange]
  have happly (n : Count) : d.apply (item.change n) = .ok (d.setVisible
      (above ++ (front ++ item.label.toList ++ line.drop u ++ below))) := by
    rw [hat.apply_eq (item.change n) hstart ⟨congrArg _ hstop, hstop ▸ hcolumn⟩ (by omega) hu,
      hfront]
    rfl
  refine ⟨_, happly, ⟨above ++ front, line.drop u ++ below, ?_, ?_, ?_⟩, rfl, rfl⟩
  · calc d.visible = above ++ (line ++ below) := hat.row.text_eq
      _ = above ++ (line.take u ++ line.drop u ++ below) := by rw [List.take_append_drop]
      _ = above ++ front ++ typed ++ (line.drop u ++ below) := by
        rw [htake]
        simp only [List.append_assoc]
  · rw [hat.index?_eq rfl hcolumn hu, List.length_append, List.length_append]
    congr 1
    omega
  · simp only [Document.setVisible, List.append_assoc]

/-- There is an item for each candidate, in their order; each span ends at the cursor and has a
column for each typed character as far as the line goes; and accepting an item puts its label in the
place of the typed characters. -/
theorem accepted_items_replace (d : Document) (cursor : EditorPosition)
    (result : CompletionResult) :
    List.Forall₂ Presents result.completions (ofResult result cursor) ∧
      (1 ≤ cursor.column.toNat → ∀ item ∈ ofResult result cursor, item.range.Reaches cursor
        (min result.typed.toList.length (cursor.column.toNat - 1))) ∧
      (d.TypedAt cursor result.typed.toList → ∀ item ∈ ofResult result cursor, ∃ d',
        (∀ n, d.apply (item.change n) = .ok d') ∧
          d.Retypes cursor result.typed.toList item.label.toList d') := by
  refine ⟨presents_ofResult result cursor, ?_, ?_⟩
  · intro hpos item hitem
    rw [range_of_mem hitem]
    exact typedRange_reaches hpos _
  · intro htyped item hitem
    exact retypes htyped item (range_of_mem hitem)

/-- A candidate for a name of which three characters are typed. -/
def typedName : CompletionResult := ⟨[⟨"nat.succ", some "ℕ → ℕ", none, none⟩], "nat"⟩

def typedLine : List Char := ['→', 'n', 'a', 't', ')']

/-- The name stands behind an arrow, in a line below a pair. -/
def typedDocument : Document := ⟨['h'], 'x' :: '\r' :: '\n' :: typedLine, []⟩

theorem typed_name_replaced : typedDocument.TypedAt ⟨2, 5⟩ typedName.typed.toList ∧
    ∃ item d', ofResult typedName ⟨2, 5⟩ = [item] ∧ item.range.Reaches ⟨2, 5⟩ 3 ∧
      typedDocument.apply (item.change 3) = .ok d' ∧
      typedDocument.Retypes ⟨2, 5⟩ ['n', 'a', 't'] "nat.succ".toList d' := by
  have hline : typedDocument.line? 2 = some typedLine := by decide
  have htyped : typedDocument.TypedAt ⟨2, 5⟩ typedName.typed.toList :=
    ⟨_, hline, ⟨_, hline, by decide, by decide⟩, ['→'], by decide⟩
  obtain ⟨_, hreaches, haccepted⟩ := accepted_items_replace typedDocument ⟨2, 5⟩ typedName
  obtain ⟨d', happly, hretypes⟩ := haccepted htyped _ List.mem_cons_self
  exact ⟨htyped, _, d', rfl, hreaches (by decide) _ List.mem_cons_self, happly 3, hretypes⟩

end CompletionItem

end DocSync
