import DocSync.Abbreviation.Input
import DocSync.Proofs.AbbreviationSearch
import DocSync.Proofs.EditedLines

/-!
All ways to expand an abbreviation make the same document of it. The affordance, the command and the
trigger see the same abbreviation; the edit of the command makes the line what the table makes of
it; and typing a trigger, then taking its edit, is taking the edit of the command, then typing the
trigger. The exception is an abbreviation with an empty replacement that is all there is between a
carriage return and a line feed: with it the line is gone, and what is typed then lands below.
-/

namespace DocSync

open Text

/-- The insertion of one character. -/
def TextChange.typed (p : EditorPosition) (c : Char) : TextChange :=
  ⟨EditorRange.point p, 0, String.singleton c⟩

/-- The edit as the editor reports it, with a number of characters that it says it replaced. -/
def TextEdit.change (e : TextEdit) (length : Count) : TextChange := ⟨e.range, length, e.text⟩

/-- No replacement breaks a line or is too long to be counted. -/
def AbbreviationTable.FitsLines (t : AbbreviationTable) : Prop :=
  ∀ key r, t.get? key = some r → r.toList.length < 2 ^ 31 ∧ ∀ c ∈ r.toList, isBreak c = false

namespace Document

/-- An edit removes all there is between a carriage return and a line feed. -/
def Fuses (d : Document) (e : TextEdit) : Prop :=
  e.text = "" ∧ ∃ i j, d.index? e.range.start = some i ∧ d.index? e.range.stop = some j ∧
    InsidePair (d.visible.take i ++ d.visible.drop j) i

/-- A position is valid and right behind a text that starts at the given index. -/
def EndsAt (d : Document) (i : Nat) (text : List Char) (p : EditorPosition) : Prop :=
  text <+: d.visible.drop i ∧ d.index? p = some (i + text.length)

/-- What the edit of the expand command makes of a document. -/
structure Expands (d : Document) (p : EditorPosition) (e : TextEdit) (x : Expansion)
    (d' : Document) : Prop where
  applied : ∀ n, d.apply (e.change n) = .ok d'
  cursor : e.cursor.line = p.line ∧ e.cursor.column.toNat = x.cursor + 1
  turned : ¬d.Fuses e → d.TurnsLine p.line x.line d'
  behind : ¬d.Fuses e → ∃ i, d.index? e.range.start = some i ∧ d'.EndsAt i e.text.toList e.cursor
  lost : d.Fuses e → d.LosesLine p.line d'
  onward : d.Fuses e → ∃ i, d.index? e.range.start = some i ∧ d'.index? e.cursor = some (i + 1)

/-- What the edit of a typed trigger makes of the document that has the trigger, beside the edit of
the command on the document that has not. -/
structure Triggers (d : Document) (e : TextEdit) (c : Char) (typed : Document) (e' : TextEdit)
    (d' : Document) : Prop where
  applied : ∀ n, typed.apply (e'.change n) = .ok d'
  behind : ∃ i, typed.index? e'.range.start = some i ∧
    d'.EndsAt i (e'.text.toList ++ [c]) e'.cursor
  commutes : ¬d.Fuses e → ∃ u, (∀ n, d.apply (e.change n) = .ok u) ∧
    u.apply (.typed e.cursor c) = .ok d'

end Document

/-- A line with a character typed at a column, which counts from zero. -/
def typeAt (line : List Char) (column : Nat) (c : Char) : List Char :=
  line.take column ++ [c] ++ line.drop column

namespace Document.LineAt

variable {d : Document} {l : Count} {p : EditorPosition} {above line below : List Char} {n : Nat}
  {c : Char}

theorem apply_typed (h : d.LineAt l above line below) (hp : p.line = l)
    (hcolumn : p.column.toNat = n + 1) (hn : n ≤ line.length) :
    d.apply (.typed p c) = .ok (d.setVisible (above ++ (typeAt line n c ++ below))) := by
  have happly := Document.LineAt.apply_eq (.typed p c) h ⟨hp, hcolumn⟩ ⟨hp, hcolumn⟩
    (Nat.le_refl n) hn
  rw [happly, typeAt, TextChange.typed, String.toList_singleton]

theorem type (h : d.LineAt l above line below) (n : Nat) (hc : isBreak c = false) :
    (d.setVisible (above ++ (typeAt line n c ++ below))).LineAt l above (typeAt line n c)
      below := by
  have hleft := unbroken_of_subset h.row.unbroken (List.take_subset n line)
  have hright := unbroken_of_subset h.row.unbroken (List.drop_subset n line)
  have htyped : breakCount [c] = 0 := by rw [breakCount_other hc, breakCount_nil]
  have hunbroken : breakCount (typeAt line n c) = 0 :=
    unbroken_append (unbroken_append hleft htyped) hright
  have hne : typeAt line n c ≠ [] := by simp [typeAt]
  exact h.place hunbroken (meet_of_content hne hunbroken above below)

end Document.LineAt

namespace AbbreviationTable

variable {t : AbbreviationTable} {line : List Char} {cursor : Nat} {m : AbbreviationMatch}

theorem find?_sound (h : t.find? line cursor = some m) :
    m.start < m.stop ∧ m.stop = cursor ∧ cursor ≤ line.length ∧
      t.get? m.key = some m.replacement := by
  have hends := find?_eq_some.mp h
  exact ⟨hends.starts.trans_eq hends.stop.symm, hends.stop, hends.within, hends.replacement⟩

theorem fitsLines_single {key r : String} (ht : t.entries = [(key, r)])
    (hlength : r.toList.length < 2 ^ 31) (hr : breakCount r.toList = 0) : t.FitsLines := by
  intro key' r' hget
  rw [get?, ht, List.lookup_cons] at hget
  split at hget
  · obtain rfl := Option.some.inj hget
    exact ⟨hlength, breakCount_eq_zero.mp hr⟩
  · cases hget

theorem find?_typeAt (h : cursor ≤ line.length) (c : Char) :
    t.find? (typeAt line cursor c) cursor = t.find? line cursor := by
  have hlength : (line.take cursor).length = cursor := List.length_take_of_le h
  have hle : cursor ≤ (typeAt line cursor c).length := by
    simp only [typeAt, List.length_append]
    omega
  have htake : (typeAt line cursor c).take cursor = line.take cursor := by
    rw [typeAt, List.append_assoc, List.take_left' hlength]
  rw [find?, find?, if_pos h, if_pos hle, htake]

end AbbreviationTable

namespace AbbreviationInput

variable {a : AbbreviationInput} {d : Document} {p : EditorPosition} {m : AbbreviationMatch}
  {line above below : List Char} {behind : Count} {c : Char} {n u : Nat}

theorem find?_eq (hp : p.column.toNat = u + 1) : a.find? line p = a.table.find? line u := by
  rw [find?, if_neg, hp, Nat.add_sub_cancel]
  intro hzero
  rw [hzero] at hp
  cases hp

theorem expand?_eq (hp : p.column.toNat = u + 1) :
    a.expand? line p = (a.table.find? line u).map fun m => replace m p 0 := by
  rw [expand?, find?_eq hp]

theorem canExpand_iff : a.canExpand line p = true ↔ ∃ e, a.expand? line p = some e := by
  rw [canExpand, expand?, ← Option.isSome_iff_exists, Option.isSome_map]

theorem exists_expand?_iff (hp : p.column.toNat = u + 1) :
    (∃ e, a.expand? line p = some e) ↔ ∃ x, a.table.expand? line u = some x := by
  rw [expand?_eq hp, AbbreviationTable.expand?, ← Option.isSome_iff_exists,
    ← Option.isSome_iff_exists, Option.isSome_map, Option.isSome_map]

theorem onChange?_typed (hc : a.triggers.contains c = true) :
    a.onChange? ⟨[.typed p c]⟩ line = (a.find? line p).map fun m => replace m p 1 := by
  have htyped : typed? ⟨[.typed p c]⟩ = some (p, c) := by
    simp [typed?, ContentChange.single?, TextChange.typed, TextChange.isInsertion,
      EditorRange.isEmpty, EditorRange.point]
  rw [onChange?, htyped]
  exact if_pos hc

theorem onChange?_typeAt (hp : p.column.toNat = u + 1) (hu : u ≤ line.length)
    (hc : c ∈ a.triggers) :
    a.onChange? ⟨[.typed p c]⟩ (typeAt line u c) =
      (a.table.find? line u).map fun m => replace m p 1 := by
  rw [onChange?_typed (List.contains_iff_mem.mpr hc), find?_eq hp,
    AbbreviationTable.find?_typeAt hu]

theorem exists_onChange?_iff (hp : p.column.toNat = u + 1) (hu : u ≤ line.length)
    (hc : c ∈ a.triggers) :
    (∃ e, a.onChange? ⟨[.typed p c]⟩ (typeAt line u c) = some e) ↔
      ∃ e, a.expand? line p = some e := by
  rw [onChange?_typeAt hp hu hc, expand?_eq hp, ← Option.isSome_iff_exists,
    ← Option.isSome_iff_exists, Option.isSome_map, Option.isSome_map]

theorem replace_line (m : AbbreviationMatch) (p : EditorPosition) (behind : Count) :
    (replace m p behind).range.start.line = p.line ∧ (replace m p behind).cursor.line = p.line := by
  simp only [replace, and_self]

theorem replace_start (p : EditorPosition) (behind : Count) (hm : m.start + 1 < 2 ^ 31) :
    (replace m p behind).range.start.column.toNat = m.start + 1 := by
  have hone : UInt32.toNat 1 = 1 := rfl
  simp only [replace, Count.toNat_plus, Count.toNat_clamp, hone]
  omega

theorem replace_cursor (p : EditorPosition) (hm : m.start + 1 < 2 ^ 31)
    (hr : m.replacementLength < 2 ^ 31) (hb : behind.toNat = n) (hn : n ≤ 1) :
    (replace m p behind).cursor.column.toNat = m.start + m.replacementLength + n + 1 := by
  have hstart := replace_start p behind hm
  simp only [replace] at hstart
  simp only [replace, Count.toNat_plus, Count.toNat_clamp] at hstart ⊢
  omega

/-- The line with the replacement and what was typed behind it. -/
def rewritten (m : AbbreviationMatch) (line typed : List Char) : List Char :=
  line.take m.start ++ m.replacement.toList ++ typed ++ line.drop m.stop

theorem rewritten_nil (m : AbbreviationMatch) (line : List Char) :
    rewritten m line [] = line.take m.start ++ m.replacement.toList ++ line.drop m.stop := by
  rw [rewritten, List.append_nil]

/-- An abbreviation that ends at a position of a line, with a replacement for a line. -/
structure Ready (d : Document) (p : EditorPosition) (m : AbbreviationMatch)
    (above line below : List Char) : Prop where
  lineAt : d.LineAt p.line above line below
  column : p.column.toNat = m.stop + 1
  starts : m.start < m.stop
  stops : m.stop ≤ line.length
  start_short : m.start + 1 < 2 ^ 31
  replacement_short : m.replacementLength < 2 ^ 31
  unbroken : breakCount m.replacement.toList = 0

namespace Ready

theorem unbroken_rewritten (h : Ready d p m above line below) {typed : List Char}
    (ht : breakCount typed = 0) : breakCount (rewritten m line typed) = 0 := by
  have hline := h.lineAt.row.unbroken
  have hleft := unbroken_of_subset hline (List.take_subset m.start line)
  have hright := unbroken_of_subset hline (List.drop_subset m.stop line)
  exact unbroken_append (unbroken_append (unbroken_append hleft h.unbroken) ht) hright

theorem apply_eq (h : Ready d p m above line below) (behind length : Count) :
    d.apply ((replace m p behind).change length) =
      .ok (d.setVisible (above ++ (rewritten m line [] ++ below))) := by
  have happly := Document.LineAt.apply_eq ((replace m p behind).change length) h.lineAt
    ⟨(replace_line m p behind).1, replace_start p behind h.start_short⟩ ⟨rfl, h.column⟩
    (Nat.le_of_lt h.starts) h.stops
  rw [happly, rewritten_nil]
  rfl

theorem start_le (h : Ready d p m above line below) : m.start ≤ line.length :=
  Nat.le_of_lt (Nat.lt_of_lt_of_le h.starts h.stops)

theorem index?_start (h : Ready d p m above line below) :
    d.index? (replace m p behind).range.start = some (above.length + m.start) :=
  h.lineAt.index?_eq (replace_line m p behind).1 (replace_start p behind h.start_short) h.start_le

theorem cursor_column (h : Ready d p m above line below) :
    (replace m p 0).cursor.column.toNat = m.start + m.replacementLength + 1 :=
  replace_cursor p h.start_short h.replacement_short rfl (Nat.zero_le 1)

theorem fuses_iff (h : Ready d p m above line below) :
    d.Fuses (replace m p behind) ↔ m.replacement = "" ∧
      ¬Meet (above ++ line.take m.start) (line.drop m.stop ++ below) := by
  have hle := h.start_le
  have hstop : d.index? (replace m p behind).range.stop = some (above.length + m.stop) :=
    h.lineAt.index?_eq rfl h.column h.stops
  have hlength : (above ++ line.take m.start).length = above.length + m.start := by
    rw [List.length_append, List.length_take_of_le hle]
  rw [meet_iff, not_not, hlength]
  constructor
  · rintro ⟨htext, i, j, hi, hj, hpair⟩
    obtain rfl := Option.some.inj (h.index?_start.symm.trans hi)
    obtain rfl := Option.some.inj (hstop.symm.trans hj)
    rw [h.lineAt.take_eq hle, h.lineAt.drop_eq h.stops] at hpair
    exact ⟨htext, hpair⟩
  · rintro ⟨htext, hpair⟩
    refine ⟨htext, _, _, h.index?_start, hstop, ?_⟩
    rwa [h.lineAt.take_eq hle, h.lineAt.drop_eq h.stops]

theorem meet_rewritten (h : Ready d p m above line below)
    (hf : ¬d.Fuses (replace m p behind)) : Meet above (rewritten m line [] ++ below) := by
  have hunbroken : breakCount (rewritten m line []) = 0 := h.unbroken_rewritten rfl
  by_cases hempty : m.replacement = ""
  · have hcut : Meet (above ++ line.take m.start) (line.drop m.stop ++ below) := by
      by_contra hm
      exact hf (h.fuses_iff.mpr ⟨hempty, hm⟩)
    simpa [rewritten, hempty] using hcut.append_right (h.lineAt.row.meet_take m.start)
  · apply meet_of_content _ hunbroken
    intro hnil
    simp only [rewritten, List.append_eq_nil_iff] at hnil
    exact hempty (String.toList_eq_nil_iff.mp hnil.1.1.2)

theorem line_rewritten (h : Ready d p m above line below) (hf : ¬d.Fuses (replace m p behind)) :
    (d.setVisible (above ++ (rewritten m line [] ++ below))).LineAt p.line above
      (rewritten m line []) below :=
  h.lineAt.place (h.unbroken_rewritten rfl) (h.meet_rewritten hf)

theorem endsAt {typed : List Char} (behind : Count) (h : Ready d p m above line below)
    (h' : (d.setVisible (above ++ (rewritten m line typed ++ below))).LineAt p.line above
      (rewritten m line typed) below) (hb : behind.toNat = typed.length) (hone : typed.length ≤ 1) :
    (d.setVisible (above ++ (rewritten m line typed ++ below))).EndsAt (above.length + m.start)
      (m.replacement.toList ++ typed) (replace m p behind).cursor := by
  have hle := h.start_le
  have hcursor := replace_cursor p h.start_short h.replacement_short hb hone
  have hlength : (rewritten m line typed).length =
      m.start + m.replacementLength + typed.length + (line.drop m.stop).length := by
    simp only [rewritten, List.length_append, List.length_take_of_le hle,
      AbbreviationMatch.replacementLength]
  constructor
  · rw [h'.drop_eq (by omega), rewritten, List.append_assoc, List.append_assoc,
      List.drop_left' (List.length_take_of_le hle)]
    exact ⟨line.drop m.stop ++ below, by simp only [List.append_assoc]⟩
  · rw [h'.index?_eq (replace_line m p behind).2 hcursor (by omega)]
    simp only [List.length_append, AbbreviationMatch.replacementLength, Option.some.injEq]
    omega

theorem empty_of_fuses (h : Ready d p m above line below) (hf : d.Fuses (replace m p behind)) :
    m.start = 0 ∧ rewritten m line [] = [] ∧ ¬Meet above below := by
  obtain ⟨hempty, hpair⟩ := h.fuses_iff.mp hf
  have hline := h.lineAt.row.unbroken
  have hleft : line.take m.start = [] := by
    by_contra hne
    have hunbroken := unbroken_of_subset hline (List.take_subset m.start line)
    exact hpair (meet_after_content hne hunbroken above _)
  have hright : line.drop m.stop = [] := by
    by_contra hne
    have hunbroken := unbroken_of_subset hline (List.drop_subset m.stop line)
    exact hpair (meet_of_content hne hunbroken _ below)
  refine ⟨?_, ?_, ?_⟩
  · rw [← List.length_take_of_le h.start_le, hleft, List.length_nil]
  · rw [rewritten_nil, hleft, hright, hempty]
    rfl
  · rwa [hleft, hright, List.append_nil, List.nil_append] at hpair

theorem losesLine (h : Ready d p m above line below) (hf : d.Fuses (replace m p behind)) :
    d.LosesLine p.line (d.setVisible (above ++ (rewritten m line [] ++ below))) := by
  obtain ⟨-, hempty, hpair⟩ := h.empty_of_fuses hf
  rw [hempty, List.nil_append]
  exact h.lineAt.losesLine hpair

theorem index?_fused (h : Ready d p m above line below) (hf : d.Fuses (replace m p 0)) :
    (d.setVisible (above ++ (rewritten m line [] ++ below))).index? (replace m p 0).cursor =
      some (above.length + m.start + 1) := by
  obtain ⟨hstart, hempty, hpair⟩ := h.empty_of_fuses hf
  have hcolumn : (replace m p 0).cursor.column.toNat = 1 := by
    rw [h.cursor_column, hstart, AbbreviationMatch.replacementLength, (h.fuses_iff.mp hf).1]
    rfl
  rw [hempty, List.nil_append, hstart]
  exact h.lineAt.index?_lost hpair (replace_line m p 0).2 hcolumn

theorem expands (h : Ready d p m above line below) :
    d.Expands p (replace m p 0)
      ⟨line.take m.start ++ m.replacement.toList ++ line.drop m.stop,
        m.start + m.replacementLength⟩
      (d.setVisible (above ++ (rewritten m line [] ++ below))) where
  applied n := h.apply_eq 0 n
  cursor := ⟨(replace_line m p 0).2, h.cursor_column⟩
  turned hf := rewritten_nil m line ▸ h.lineAt.turnsLine (h.line_rewritten hf)
  behind hf := by
    have hends := endsAt 0 h (h.line_rewritten hf) rfl (Nat.zero_le 1)
    rw [List.append_nil] at hends
    exact ⟨_, h.index?_start, hends⟩
  lost hf := h.losesLine hf
  onward hf := ⟨_, h.index?_start, h.index?_fused hf⟩

theorem rewritten_typeAt (h : Ready d p m above line below) (c : Char) :
    rewritten m (typeAt line m.stop c) [] = rewritten m line [c] := by
  have hlength : (line.take m.stop).length = m.stop := List.length_take_of_le h.stops
  have hleft : (typeAt line m.stop c).take m.start = line.take m.start := by
    rw [typeAt, List.append_assoc, List.take_append_of_le_length (by have := h.starts; omega),
      List.take_take, Nat.min_eq_left (Nat.le_of_lt h.starts)]
  have hright : (typeAt line m.stop c).drop m.stop = c :: line.drop m.stop := by
    rw [typeAt, List.append_assoc, List.drop_left' hlength, List.singleton_append]
  rw [rewritten_nil, hleft, hright, rewritten, List.append_assoc _ [c], List.singleton_append]

theorem typeAt_rewritten (h : Ready d p m above line below) (c : Char) :
    typeAt (rewritten m line []) (m.start + m.replacementLength) c = rewritten m line [c] := by
  have hlength : (line.take m.start ++ m.replacement.toList).length =
      m.start + m.replacementLength := by
    rw [List.length_append, List.length_take_of_le h.start_le, AbbreviationMatch.replacementLength]
  rw [typeAt, rewritten_nil, List.take_left' hlength, List.drop_left' hlength, rewritten]

theorem type (h : Ready d p m above line below) (hc : isBreak c = false) :
    Ready (d.setVisible (above ++ (typeAt line m.stop c ++ below))) p m above
      (typeAt line m.stop c) below where
  lineAt := h.lineAt.type m.stop hc
  column := h.column
  starts := h.starts
  stops := by
    have hstops := h.stops
    simp only [typeAt, List.length_append, List.length_take, List.length_drop,
      List.length_singleton]
    omega
  start_short := h.start_short
  replacement_short := h.replacement_short
  unbroken := h.unbroken

theorem line_typed (h : Ready d p m above line below) (hc : isBreak c = false) :
    (d.setVisible (above ++ (rewritten m line [c] ++ below))).LineAt p.line above
      (rewritten m line [c]) below := by
  have htyped : breakCount [c] = 0 := by rw [breakCount_other hc, breakCount_nil]
  have hne : rewritten m line [c] ≠ [] := by simp [rewritten]
  have hunbroken := h.unbroken_rewritten htyped
  exact h.lineAt.place hunbroken (meet_of_content hne hunbroken above below)

theorem apply_typed (h : Ready d p m above line below) (hf : ¬d.Fuses (replace m p 0)) (c : Char) :
    (d.setVisible (above ++ (rewritten m line [] ++ below))).apply
        (.typed (replace m p 0).cursor c) =
      .ok (d.setVisible (above ++ (rewritten m line [c] ++ below))) := by
  have hlength : m.start + m.replacementLength ≤ (rewritten m line []).length := by
    have hle := h.start_le
    rw [rewritten_nil, List.length_append, List.length_append, List.length_take_of_le hle,
      AbbreviationMatch.replacementLength]
    omega
  have htyped := (h.line_rewritten hf).apply_typed (c := c) (replace_line m p 0).2
    h.cursor_column hlength
  rw [h.typeAt_rewritten] at htyped
  exact htyped

theorem triggers (h : Ready d p m above line below) (hc : isBreak c = false) :
    d.Triggers (replace m p 0) c (d.setVisible (above ++ (typeAt line m.stop c ++ below)))
      (replace m p 1) (d.setVisible (above ++ (rewritten m line [c] ++ below))) where
  applied n := by
    rw [(h.type hc).apply_eq, h.rewritten_typeAt]
    rfl
  behind := ⟨_, (h.type hc).index?_start, endsAt 1 h (h.line_typed hc) rfl (Nat.le_refl 1)⟩
  commutes hf := ⟨_, h.apply_eq 0, h.apply_typed hf c⟩

end Ready

theorem ready_of_find? (hat : d.LineAt p.line above line below) (hcolumn : p.column.toNat = u + 1)
    (hlength : line.length < 2 ^ 31) (htable : a.table.FitsLines)
    (hm : a.table.find? line u = some m) : Ready d p m above line below ∧ m.stop = u := by
  obtain ⟨hstart, rfl, hstop, hget⟩ := AbbreviationTable.find?_sound hm
  obtain ⟨hshort, hplain⟩ := htable _ _ hget
  exact ⟨⟨hat, hcolumn, hstart, hstop, by omega, hshort, breakCount_eq_zero.mpr hplain⟩, rfl⟩

/-- The affordance, the command and the table agree on whether there is an abbreviation, the command
makes of the line what the table does, and a trigger can be typed before or after the expansion;
but for what becomes of the line where the edit fuses a pair. -/
theorem abbreviations_agree (a : AbbreviationInput) (d : Document) (p : EditorPosition)
    (line : List Char) (hline : d.line? p.line = some line) (hp : d.HasPosition p)
    (hlength : line.length < 2 ^ 31) (htable : a.table.FitsLines) :
    (a.canExpand line p = true ↔ ∃ e, a.expand? line p = some e) ∧
      ((∃ e, a.expand? line p = some e) ↔
        ∃ x, a.table.expand? line (p.column.toNat - 1) = some x) ∧
      (∀ e x, a.expand? line p = some e → a.table.expand? line (p.column.toNat - 1) = some x →
        ∃ d', d.Expands p e x d') ∧
      ∀ c ∈ a.triggers, isBreak c = false → ∃ typed line',
        d.apply (.typed p c) = .ok typed ∧ typed.line? p.line = some line' ∧
          ((∃ e', a.onChange? ⟨[.typed p c]⟩ line' = some e') ↔ ∃ e, a.expand? line p = some e) ∧
          ∀ e e', a.expand? line p = some e → a.onChange? ⟨[.typed p c]⟩ line' = some e' →
            ∃ d', d.Triggers e c typed e' d' := by
  obtain ⟨above, below, hat⟩ := Document.exists_lineAt hline
  obtain ⟨_, hline', hpos, hle⟩ := hp
  obtain rfl := Option.some.inj (hline.symm.trans hline')
  obtain ⟨u, hcolumn⟩ := Nat.exists_eq_add_of_le' hpos
  have hu : u ≤ line.length := by omega
  rw [hcolumn, Nat.add_sub_cancel]
  refine ⟨canExpand_iff, exists_expand?_iff hcolumn, ?_, ?_⟩
  · intro e x he hx
    rw [expand?_eq hcolumn] at he
    obtain ⟨m, hm, rfl⟩ := Option.map_eq_some_iff.mp he
    rw [AbbreviationTable.expand?, hm] at hx
    obtain rfl := Option.some.inj hx
    obtain ⟨hready, _⟩ := ready_of_find? hat hcolumn hlength htable hm
    exact ⟨_, hready.expands⟩
  · intro c hc hbreak
    have htyped := hat.type u hbreak
    refine ⟨_, typeAt line u c, hat.apply_typed rfl hcolumn hu, (hat.turnsLine htyped).turned,
      exists_onChange?_iff hcolumn hu hc, ?_⟩
    intro e e' he he'
    rw [expand?_eq hcolumn] at he
    obtain ⟨m, hm, rfl⟩ := Option.map_eq_some_iff.mp he
    rw [onChange?_typeAt hcolumn hu hc, hm] at he'
    obtain rfl := Option.some.inj he'
    obtain ⟨hready, rfl⟩ := ready_of_find? hat hcolumn hlength htable hm
    exact ⟨_, hready.triggers hbreak⟩

def arrowInput : AbbreviationInput := ⟨.ofPairs [("to", "→")], [' ', ',']⟩

def arrowLine : List Char := ['p', '\\', 't', 'o', 'q']

/-- The line stands below a carriage return. -/
def arrowDocument : Document := ⟨[], 'h' :: '\r' :: arrowLine ++ ['\n'], []⟩

def arrowEdit : TextEdit := ⟨⟨⟨2, 2⟩, ⟨2, 5⟩⟩, "→", ⟨2, 3⟩⟩

theorem arrow_expanded : arrowDocument.line? 2 = some arrowLine ∧
    arrowDocument.HasPosition ⟨2, 5⟩ ∧ arrowLine.length < 2 ^ 31 ∧ arrowInput.table.FitsLines ∧
    (∃ d', arrowDocument.apply (arrowEdit.change 3) = .ok d' ∧
      arrowDocument.TurnsLine 2 ['p', '→', 'q'] d') ∧
    ∃ typed d', arrowDocument.apply (.typed ⟨2, 5⟩ ',') = .ok typed ∧
      arrowDocument.Triggers arrowEdit ',' typed ⟨arrowEdit.range, "→", ⟨2, 4⟩⟩ d' := by
  have hline : arrowDocument.line? 2 = some arrowLine := by decide
  have hp : arrowDocument.HasPosition ⟨2, 5⟩ := ⟨_, hline, by decide, by decide⟩
  have htable : arrowInput.table.FitsLines :=
    AbbreviationTable.fitsLines_single (show _ = [("to", "→")] by decide) (by decide) (by decide)
  have he : arrowInput.expand? arrowLine ⟨2, 5⟩ = some arrowEdit := by decide
  have hx : arrowInput.table.expand? arrowLine 4 = some ⟨['p', '→', 'q'], 2⟩ := by decide
  obtain ⟨_, _, hexpands, htriggers⟩ :=
    abbreviations_agree arrowInput arrowDocument ⟨2, 5⟩ arrowLine hline hp (by decide) htable
  refine ⟨hline, hp, by decide, htable, ?_, ?_⟩
  · obtain ⟨d', hd'⟩ := hexpands _ _ he hx
    refine ⟨d', hd'.applied 3, hd'.turned ?_⟩
    rintro ⟨hempty, _⟩
    exact absurd hempty (by decide)
  · obtain ⟨typed, line', htyped, hline', _, htrigger⟩ := htriggers ',' (by decide) (by decide)
    have happly : arrowDocument.apply (.typed ⟨2, 5⟩ ',') =
      .ok ⟨[], ['h', '\r', 'p', '\\', 't', 'o', ',', 'q', '\n'], []⟩ := rfl
    obtain rfl := Except.ok.inj (happly.symm.trans htyped)
    obtain rfl := Option.some.inj
      ((by decide : _ = some ['p', '\\', 't', 'o', ',', 'q']).symm.trans hline')
    have he' : arrowInput.onChange? ⟨[.typed ⟨2, 5⟩ ',']⟩ ['p', '\\', 't', 'o', ',', 'q'] =
      some ⟨arrowEdit.range, "→", ⟨2, 4⟩⟩ := by decide
    obtain ⟨d', hd'⟩ := htrigger _ _ he he'
    exact ⟨_, d', happly, hd'⟩

/-- An abbreviation that is replaced by nothing. -/
def bareInput : AbbreviationInput := ⟨.ofPairs [("x", "")], [' ']⟩

/-- The abbreviation is all there is between a carriage return and a line feed. -/
def bareDocument : Document := ⟨[], ['a', '\r', '\\', 'x', '\n', 'b'], []⟩

def bareEdit : TextEdit := ⟨⟨⟨2, 1⟩, ⟨2, 3⟩⟩, "", ⟨2, 1⟩⟩

/-- The expand command removes the line instead of leaving it empty, and a trigger typed after it
lands on the line below. -/
theorem bare_line_lost : bareDocument.line? 2 = some ['\\', 'x'] ∧
    bareDocument.HasPosition ⟨2, 3⟩ ∧ bareInput.table.FitsLines ∧
    bareInput.expand? ['\\', 'x'] ⟨2, 3⟩ = some bareEdit ∧
    bareInput.table.expand? ['\\', 'x'] 2 = some ⟨[], 0⟩ ∧
    (∃ d', bareDocument.apply (bareEdit.change 2) = .ok d' ∧ d'.line? 2 = some ['b'] ∧
      ¬bareDocument.TurnsLine 2 [] d') ∧
    ∃ typed e' d₁ d₂ d', bareDocument.apply (.typed ⟨2, 3⟩ ' ') = .ok typed ∧
      bareInput.onChange? ⟨[.typed ⟨2, 3⟩ ' ']⟩ ['\\', 'x', ' '] = some e' ∧
      typed.apply (e'.change 2) = .ok d₁ ∧ bareDocument.apply (bareEdit.change 2) = .ok d' ∧
      d'.apply (.typed bareEdit.cursor ' ') = .ok d₂ ∧ d₁ ≠ d₂ := by
  have hline : bareDocument.line? 2 = some ['\\', 'x'] := by decide
  have htable : bareInput.table.FitsLines :=
    AbbreviationTable.fitsLines_single (show _ = [("x", "")] by decide) (by decide) (by decide)
  refine ⟨hline, ⟨_, hline, by decide, by decide⟩, htable, by decide, by decide, ?_, ?_⟩
  · refine ⟨_, rfl, by decide, ?_⟩
    intro hturns
    exact absurd hturns.turned (by decide)
  · exact ⟨_, ⟨bareEdit.range, "", ⟨2, 2⟩⟩, _, _, _, rfl, by decide, rfl, rfl, rfl, by decide⟩

end AbbreviationInput

end DocSync
