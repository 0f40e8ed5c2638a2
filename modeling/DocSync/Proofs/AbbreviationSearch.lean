import DocSync.Abbreviation.Search
import Mathlib.Data.List.TakeWhile

/-!
What the search for an abbreviation finds. A line is read at its last backslash before the cursor:
the search by column and the search by offset both find the key behind it, no cut is made inside of
a character, and what is found is told by the characters of the line alone.
-/

namespace DocSync

namespace Text

variable {c : Char} {text left right front key : List Char}

theorem byteSize_cons (c : Char) (text : List Char) :
    byteSize (c :: text) = c.utf8Size + byteSize text := rfl

theorem byteSize_concat (text : List Char) (c : Char) :
    byteSize (text ++ [c]) = byteSize text + c.utf8Size := by
  induction text with
  | nil => exact (Nat.zero_add _).symm
  | cons d text ih => rw [List.cons_append, byteSize_cons, ih, byteSize_cons, Nat.add_assoc]

theorem cut?_append (left right : List Char) :
    cut? (left ++ right) (byteSize left) = some (left, right) := by
  induction left with
  | nil => cases right <;> rfl
  | cons c left ih =>
    have hpos := c.utf8Size_pos
    obtain ⟨n, hn⟩ : ∃ n, byteSize (c :: left) = n + 1 :=
      Nat.exists_eq_add_of_le' (by rw [byteSize_cons]; omega)
    have hrest : n + 1 - c.utf8Size = byteSize left := by
      rw [← hn, byteSize_cons, Nat.add_sub_cancel_left]
    have hle : c.utf8Size ≤ n + 1 := by
      rw [← hn, byteSize_cons]
      exact Nat.le_add_right _ _
    rw [hn, List.cons_append, cut?, if_pos hle, hrest, ih]
    rfl

theorem length_offsets (text : List Char) : (offsets text).length = text.length + 1 := by
  induction text with
  | nil => rfl
  | cons c text ih => rw [offsets, List.length_cons, List.length_map, ih, List.length_cons]

theorem offsets_append (left right : List Char) :
    (offsets (left ++ right))[left.length]? = some (byteSize left) := by
  induction left with
  | nil => cases right <;> rfl
  | cons c left ih =>
    rw [List.cons_append, offsets, List.length_cons, List.getElem?_cons_succ, List.getElem?_map,
      ih]
    rfl

theorem length_offsets_before (left right : List Char) :
    ((offsets (left ++ right)).takeWhile (· < byteSize left)).length = left.length := by
  induction left with
  | nil => cases right <;> rfl
  | cons c left ih =>
    have hpos := c.utf8Size_pos
    have hfirst : decide (0 < byteSize (c :: left)) = true := by
      apply decide_eq_true
      rw [byteSize_cons]
      omega
    have hshift : (fun n => decide (n < byteSize (c :: left))) ∘ (c.utf8Size + ·) =
        fun n => decide (n < byteSize left) := by
      funext n
      simp only [Function.comp_apply, byteSize_cons, Nat.add_lt_add_iff_left]
    rw [List.cons_append, offsets, List.takeWhile_cons, if_pos hfirst, List.takeWhile_map, hshift,
      List.length_cons, List.length_map, ih, List.length_cons]

theorem lastOffset?_of_notMem (h : c ∉ text) : lastOffset? c text = none := by
  induction text with
  | nil => rfl
  | cons d text ih =>
    obtain ⟨hd, htext⟩ := not_or.mp (mt List.mem_cons.mpr h)
    rw [lastOffset?, ih htext]
    exact if_neg (Ne.symm hd)

theorem lastOffset?_split (h : c ∉ key) :
    lastOffset? c (front ++ c :: key) = some (byteSize front) := by
  induction front with
  | nil =>
    rw [List.nil_append, lastOffset?, lastOffset?_of_notMem h]
    exact if_pos rfl
  | cons d front ih =>
    rw [List.cons_append, lastOffset?, ih]
    rfl

theorem exists_last_split (h : c ∈ text) : ∃ front key, text = front ++ c :: key ∧ c ∉ key := by
  obtain ⟨back, ahead, hsplit, hback⟩ := List.eq_append_cons_of_mem (List.mem_reverse.mpr h)
  refine ⟨ahead.reverse, back.reverse, ?_, ?_⟩
  · rw [← List.reverse_reverse text, hsplit]
    simp
  · rwa [List.mem_reverse]

end Text

namespace AbbreviationTable

open Text

variable {t : AbbreviationTable} {line left right front key : List Char} {cursor : Nat}
  {m : AbbreviationMatch}

/-- An abbreviation ends at a cursor of a line: from the last backslash before the cursor up to it
stand the characters of a key of the table. -/
structure Ends (t : AbbreviationTable) (text : List Char) (cursor : Nat)
    (m : AbbreviationMatch) : Prop where
  within : cursor ≤ text.length
  starts : m.start < cursor
  slash : text[m.start]? = some '\\'
  nearest : ∀ k, m.start < k → k < cursor → text[k]? ≠ some '\\'
  stop : m.stop = cursor
  key : m.key.toList = (text.take cursor).drop (m.start + 1)
  replacement : t.get? m.key = some m.replacement

/-- The line with the replacement in the place of the abbreviation, and the cursor right behind
it. -/
structure Expands (line : List Char) (cursor : Nat) (m : AbbreviationMatch) (x : Expansion) :
    Prop where
  rewritten : x.line = line.take m.start ++ m.replacement.toList ++ line.drop cursor
  behind : x.cursor = m.start + m.replacement.toList.length
  before : x.line.take m.start = line.take m.start
  after : x.line.drop x.cursor = line.drop cursor

/-- What a table finds at a cursor of a line, and what it makes of it. -/
structure Matches (t : AbbreviationTable) (line : List Char) (cursor : Nat) : Prop where
  found : ∀ m, t.find? line cursor = some m ↔ t.Ends line cursor m
  /-- The search by offset cuts at characters only and finds the same. -/
  searched : t.search? line cursor = some (t.find? line cursor)
  expanded : ∀ m, t.Ends line cursor m →
    ∃ x, t.expand? line cursor = some x ∧ Expands line cursor m x
  unexpanded : t.find? line cursor = none → t.expand? line cursor = none
  /-- A key with a backslash is not found. -/
  plain : ∀ key, '\\' ∈ key.toList → ∀ m, t.find? line cursor = some m → m.key ≠ key

theorem exists_reading (line : List Char) (cursor : Nat) :
    line.length < cursor ∨
      (∃ left right, line = left ++ right ∧ left.length = cursor ∧ '\\' ∉ left) ∨
      ∃ front key right, line = front ++ '\\' :: key ++ right ∧
        (front ++ '\\' :: key).length = cursor ∧ '\\' ∉ key := by
  by_cases hbehind : line.length < cursor
  · exact .inl hbehind
  · right
    have hline : line = line.take cursor ++ line.drop cursor := (List.take_append_drop _ _).symm
    have hlength : (line.take cursor).length = cursor := List.length_take_of_le (by omega)
    by_cases hslash : '\\' ∈ line.take cursor
    · obtain ⟨front, key, hsplit, hkey⟩ := exists_last_split hslash
      rw [hsplit] at hline hlength
      exact .inr ⟨front, key, _, hline, hlength, hkey⟩
    · exact .inl ⟨_, _, hline, hlength, hslash⟩

theorem lastSlash?_of_notMem (h : '\\' ∉ left) : lastSlash? left = none := by
  have hall : left.reverse.takeWhile (· ≠ '\\') = left.reverse := by
    rw [List.takeWhile_eq_self_iff]
    intro c hc
    apply decide_eq_true
    rintro rfl
    exact h (List.mem_reverse.mp hc)
  rw [lastSlash?, hall]
  exact if_neg (by simp)

theorem lastSlash?_split (h : '\\' ∉ key) :
    lastSlash? (front ++ '\\' :: key) = some (front.length, key) := by
  have hkey : ((front ++ '\\' :: key).reverse.takeWhile (· ≠ '\\')).reverse = key := by
    have hall : ∀ c ∈ key.reverse, decide (c ≠ '\\') = true := by
      intro c hc
      apply decide_eq_true
      rintro rfl
      exact h (List.mem_reverse.mp hc)
    rw [List.reverse_append, List.reverse_cons, List.append_assoc,
      List.takeWhile_append_of_pos hall]
    simp
  have hlength : (front ++ '\\' :: key).length = front.length + 1 + key.length := by
    simp only [List.length_append, List.length_cons]
    omega
  rw [lastSlash?, hkey, hlength, if_pos (by omega)]
  congr 2
  omega

theorem find?_behind (h : line.length < cursor) : t.find? line cursor = none := by
  rw [find?, if_neg (Nat.not_le_of_lt h)]

theorem search?_behind (h : line.length < cursor) : t.search? line cursor = some none := by
  have hnone : (offsets line)[cursor]? = none := by
    apply List.getElem?_eq_none
    rw [length_offsets]
    omega
  rw [search?, hnone]

theorem find?_plain (h : '\\' ∉ left) : t.find? (left ++ right) left.length = none := by
  rw [find?, if_pos (by simp), List.take_left, lastSlash?_of_notMem h]

theorem search?_plain (h : '\\' ∉ left) :
    t.search? (left ++ right) left.length = some none := by
  rw [search?, offsets_append]
  simp only [cut?_append, Option.bind_some, lastOffset?_of_notMem h]

theorem find?_split (h : '\\' ∉ key) (hcursor : (front ++ '\\' :: key).length = cursor) :
    t.find? (front ++ '\\' :: key ++ right) cursor = (t.get? (String.ofList key)).map fun r =>
      ⟨front.length, cursor, String.ofList key, r⟩ := by
  subst hcursor
  rw [find?, if_pos (by simp), List.take_left, lastSlash?_split h]

theorem search?_split (h : '\\' ∉ key) (hcursor : (front ++ '\\' :: key).length = cursor) :
    t.search? (front ++ '\\' :: key ++ right) cursor =
      some ((t.get? (String.ofList key)).map fun r =>
        ⟨front.length, cursor, String.ofList key, r⟩) := by
  subst hcursor
  -- The backslash takes one byte, so the key starts right after its offset.
  have hslash : byteSize front + 1 = byteSize (front ++ ['\\']) := by
    rw [byteSize_concat]
    rfl
  have hkey : cut? (front ++ '\\' :: key) (byteSize front + 1) = some (front ++ ['\\'], key) := by
    rw [hslash, ← cut?_append, List.append_assoc, List.singleton_append]
  have hstart : ((offsets (front ++ '\\' :: key ++ right)).takeWhile
      (· < byteSize front)).length = front.length := by
    rw [List.append_assoc, length_offsets_before]
  rw [search?, offsets_append]
  simp only [cut?_append, Option.bind_some, lastOffset?_split h, hkey, Option.map_some, hstart]

theorem search?_eq (t : AbbreviationTable) (line : List Char) (cursor : Nat) :
    t.search? line cursor = some (t.find? line cursor) := by
  obtain hbehind | ⟨left, right, rfl, rfl, hplain⟩ | ⟨front, key, right, rfl, hcursor, hkey⟩ :=
    exists_reading line cursor
  · rw [search?_behind hbehind, find?_behind hbehind]
  · rw [search?_plain hplain, find?_plain hplain]
  · rw [search?_split hkey hcursor, find?_split hkey hcursor]

theorem Ends.key_plain (h : t.Ends line cursor m) : '\\' ∉ m.key.toList := by
  intro hmem
  obtain ⟨i, hi⟩ := List.mem_iff_getElem?.mp hmem
  rw [h.key, List.getElem?_drop] at hi
  have hlt : m.start + 1 + i < cursor := by
    by_contra hge
    rw [List.getElem?_eq_none] at hi
    · cases hi
    · rw [List.length_take]
      omega
  rw [List.getElem?_take_of_lt hlt] at hi
  exact h.nearest _ (by omega) hlt hi

theorem Ends.split (h : t.Ends line cursor m) :
    line.take cursor = line.take m.start ++ '\\' :: m.key.toList := by
  have hstarts := h.starts
  have hslash : (line.take cursor)[m.start]? = some '\\' := by
    rw [List.getElem?_take_of_lt hstarts, h.slash]
  obtain ⟨hlt, hget⟩ := List.getElem?_eq_some_iff.mp hslash
  calc line.take cursor
      = (line.take cursor).take m.start ++ (line.take cursor).drop m.start :=
        (List.take_append_drop _ _).symm
    _ = line.take m.start ++ '\\' :: m.key.toList := by
        rw [List.drop_eq_getElem_cons hlt, hget, List.take_take, Nat.min_eq_left (by omega), h.key]

theorem ends_of_split {r : String} (h : '\\' ∉ key)
    (hcursor : (front ++ '\\' :: key).length = cursor) (hr : t.get? (String.ofList key) = some r) :
    t.Ends (front ++ '\\' :: key ++ right) cursor ⟨front.length, cursor, String.ofList key, r⟩ where
  within := by
    rw [← hcursor]
    exact (List.prefix_append _ right).length_le
  starts := by
    rw [← hcursor, List.length_append, List.length_cons]
    dsimp only
    omega
  slash := by simp
  nearest := by
    intro k hk hlt hslash
    dsimp only at hk
    rw [← hcursor] at hlt
    rw [List.getElem?_append_left hlt, List.getElem?_append_right (by omega)] at hslash
    obtain ⟨i, hi⟩ : ∃ i, k - front.length = i + 1 := Nat.exists_eq_add_of_le' (by omega)
    rw [hi, List.getElem?_cons_succ] at hslash
    exact h (List.mem_of_getElem? hslash)
  stop := rfl
  key := by
    have hdrop : (front ++ '\\' :: key).drop (front.length + 1) = key := by simp
    rw [← hcursor, List.take_left, String.toList_ofList, hdrop]
  replacement := hr

theorem find?_eq_some : t.find? line cursor = some m ↔ t.Ends line cursor m := by
  constructor
  · intro h
    obtain hbehind | ⟨left, right, rfl, rfl, hplain⟩ | ⟨front, key, right, rfl, hcursor, hkey⟩ :=
      exists_reading line cursor
    · rw [find?_behind hbehind] at h
      cases h
    · rw [find?_plain hplain] at h
      cases h
    · rw [find?_split hkey hcursor] at h
      obtain ⟨r, hr, rfl⟩ := Option.map_eq_some_iff.mp h
      exact ends_of_split hkey hcursor hr
  · intro h
    have hstarts := h.starts
    have hwithin := h.within
    have hcursor : (line.take m.start ++ '\\' :: m.key.toList).length = cursor := by
      rw [← h.split, List.length_take_of_le hwithin]
    have hfront : (line.take m.start).length = m.start := List.length_take_of_le (by omega)
    calc t.find? line cursor
        = t.find? (line.take m.start ++ '\\' :: m.key.toList ++ line.drop cursor) cursor := by
          rw [← h.split, List.take_append_drop]
      _ = some m := by
          rw [find?_split h.key_plain hcursor, hfront, String.ofList_toList, h.replacement,
            Option.map_some, ← h.stop]

theorem Ends.expands (h : t.Ends line cursor m) :
    ∃ x, t.expand? line cursor = some x ∧ Expands line cursor m x := by
  have hstarts := h.starts
  have hwithin := h.within
  have hfront : (line.take m.start).length = m.start := List.length_take_of_le (by omega)
  have hreplaced : (line.take m.start ++ m.replacement.toList).length =
      m.start + m.replacement.toList.length := by
    rw [List.length_append, hfront]
  have hexpand : t.expand? line cursor =
      some ⟨line.take m.start ++ m.replacement.toList ++ line.drop cursor,
        m.start + m.replacement.toList.length⟩ := by
    rw [expand?, find?_eq_some.mpr h, Option.map_some, h.stop, AbbreviationMatch.replacementLength]
  refine ⟨_, hexpand, rfl, rfl, ?_, ?_⟩
  · rw [List.append_assoc, List.take_left' hfront]
  · exact List.drop_left' hreplaced

/-- A match is the key of the table that stands between the nearest backslash before the cursor and
the cursor, whatever characters the line has; an expansion puts the replacement in its place and
leaves what is on both sides. -/
theorem matches_key_at_cursor (t : AbbreviationTable) (line : List Char) (cursor : Nat) :
    t.Matches line cursor where
  found m := find?_eq_some
  searched := search?_eq t line cursor
  expanded m h := h.expands
  unexpanded h := by rw [expand?, h, Option.map_none]
  plain key hkey m h := by
    rintro rfl
    exact (find?_eq_some.mp h).key_plain hkey

/-- An abbreviation behind another one that the table does not know, with characters of two and
three bytes before it. -/
def slashedLine : List Char := ['α', '→', '\\', 'z', '\\', 't', 'o', 'β']

def slashedTable : AbbreviationTable := ⟨[("z\\to", "x"), ("to", "↦")]⟩

theorem nearest_slash_counts :
    slashedTable.Ends slashedLine 7 ⟨4, 7, "to", "↦"⟩ ∧
      (∃ x, slashedTable.expand? slashedLine 7 = some x ∧
        Expands slashedLine 7 ⟨4, 7, "to", "↦"⟩ x) ∧
      slashedTable.search? slashedLine 7 = some (some ⟨4, 7, "to", "↦"⟩) := by
  have hmatches := matches_key_at_cursor slashedTable slashedLine 7
  have hfind : slashedTable.find? slashedLine 7 = some ⟨4, 7, "to", "↦"⟩ := by decide
  have hends := (hmatches.found _).mp hfind
  exact ⟨hends, hmatches.expanded _ hends, hfind ▸ hmatches.searched⟩

end AbbreviationTable

end DocSync
