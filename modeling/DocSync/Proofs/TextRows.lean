import DocSync.Proofs.TextCells
import Mathlib.Data.List.Basic

/-!
The rows of a text, its lines without their breaks. Where one text follows another, only the last
row of the first and the first row of the second take part: they become one row, or, where they
stand at the two halves of one break, no row at all. All other rows stay what they were.
-/

namespace DocSync.Text

variable {c : Char} {text rest xs ys above content below : List Char} {row column i k : Nat}

def rows (text : List Char) : List (List Char) := (lines text).map Line.content

def firstRow (text : List Char) : List Char := (rows text).headD []

def lastRow (text : List Char) : List Char := (rows text).getLastD []

theorem row?_eq (text : List Char) (row : Nat) : row? text row = (rows text)[row]? := by
  rw [row?, rows, List.getElem?_map]

theorem rows_pair (rest : List Char) : rows ('\r' :: '\n' :: rest) = [] :: rows rest := rfl

theorem rows_single (hc : isBreak c = true) (hm : Meet [c] rest) :
    rows (c :: rest) = [] :: rows rest := by
  rw [rows, lines_single hc hm, List.map_cons, rows]

theorem rows_other (hc : isBreak c = false) :
    rows (c :: rest) = (rows rest).modifyHead (c :: ·) := by
  obtain ⟨l, ls, hl⟩ := lines_eq_cons rest
  rw [rows, rows, lines_other hc, hl, consFirst, List.map_cons, List.map_cons,
    List.modifyHead_cons]

theorem rows_ne_nil (text : List Char) : rows text ≠ [] := by
  obtain ⟨l, ls, hl⟩ := lines_eq_cons text
  rw [rows, hl, List.map_cons]
  exact List.cons_ne_nil _ _

theorem length_rows (text : List Char) : (rows text).length = breakCount text + 1 := by
  induction text using break_induction with
  | nil => rfl
  | pair rest ih => rw [rows_pair, List.length_cons, ih, breakCount_pair]
  | single c rest hc hm ih =>
    rw [rows_single hc hm, List.length_cons, ih, breakCount_single hc hm]
  | other c rest hc ih => rw [rows_other hc, List.length_modifyHead, ih, breakCount_other hc]

theorem rows_eq_cons (text : List Char) : rows text = firstRow text :: (rows text).tail := by
  obtain ⟨r, rs, hr⟩ := List.exists_cons_of_ne_nil (rows_ne_nil text)
  rw [firstRow, hr, List.headD_cons, List.tail_cons]

theorem rows_eq_concat (text : List Char) :
    rows text = (rows text).dropLast ++ [lastRow text] := by
  have hlast : lastRow text = (rows text).getLast (rows_ne_nil text) := by
    rw [lastRow, List.getLastD_eq_getLast?, List.getLast?_eq_some_getLast (rows_ne_nil text),
      Option.getD_some]
  rw [hlast, List.dropLast_append_getLast]

theorem rows_of_unbroken (h : breakCount text = 0) : rows text = [text] := by
  induction text using break_induction with
  | nil => rfl
  | pair rest ih => exact absurd h (Nat.succ_ne_zero _)
  | single c rest hc hm ih =>
    rw [breakCount_single hc hm] at h
    exact absurd h (Nat.succ_ne_zero _)
  | other c rest hc ih =>
    rw [breakCount_other hc] at h
    rw [rows_other hc, ih h, List.modifyHead_cons]

theorem rows_cons_upper {r : List Char} (h : rows text = r :: rows rest) :
    (rows text).dropLast = r :: (rows rest).dropLast ∧ lastRow text = lastRow rest := by
  have hconcat : rows text = (r :: (rows rest).dropLast) ++ [lastRow rest] := by
    rw [h, List.cons_append, ← rows_eq_concat]
  constructor
  · rw [hconcat, List.dropLast_concat]
  · rw [lastRow, hconcat, List.getLastD_concat]

theorem rows_other_upper (hc : isBreak c = false) (h : breakCount rest ≠ 0) :
    (rows (c :: rest)).dropLast = (rows rest).dropLast.modifyHead (c :: ·) ∧
      (rows rest).dropLast ≠ [] ∧ lastRow (c :: rest) = lastRow rest := by
  have hupper : (rows rest).dropLast ≠ [] := by
    intro hnil
    apply h
    have hlength := length_rows rest
    rw [rows_eq_concat, hnil, List.nil_append, List.length_singleton] at hlength
    omega
  obtain ⟨r, rs, hr⟩ := List.exists_cons_of_ne_nil hupper
  have hconcat : rows (c :: rest) = ((c :: r) :: rs) ++ [lastRow rest] := by
    rw [rows_other hc, rows_eq_concat, hr, List.cons_append, List.modifyHead_cons,
      List.cons_append]
  refine ⟨?_, hupper, ?_⟩
  · rw [hconcat, List.dropLast_concat, hr, List.modifyHead_cons]
  · rw [lastRow, hconcat, List.getLastD_concat]

theorem lastRow_of_unbroken (h : breakCount text = 0) : lastRow text = text := by
  rw [lastRow, rows_of_unbroken h]
  rfl

theorem length_lastRow (text : List Char) : (lastRow text).length = lastColumn text := by
  induction text using break_induction with
  | nil => rfl
  | pair rest ih => rw [(rows_cons_upper (rows_pair rest)).2, ih, lastColumn_pair]
  | single c rest hc hm ih =>
    rw [(rows_cons_upper (rows_single hc hm)).2, ih, lastColumn_single hc]
  | other c rest hc ih =>
    by_cases h : breakCount rest = 0
    · have hall : breakCount (c :: rest) = 0 := by rw [breakCount_other hc, h]
      rw [lastRow_of_unbroken hall, lastColumn_of_unbroken hall]
    · rw [(rows_other_upper hc h).2.2, ih, lastColumn_of_broken h]

/-- The last row of the first text goes on with the first row of the second. -/
theorem rows_append (hm : Meet xs ys) :
    rows (xs ++ ys) = (rows xs).dropLast ++ (lastRow xs ++ firstRow ys) :: (rows ys).tail := by
  induction xs using break_induction with
  | nil => exact rows_eq_cons ys
  | pair rest ih =>
    have hrest : Meet rest ys := Meet.of_append_left (show Meet (['\r', '\n'] ++ rest) ys from hm)
    obtain ⟨hupper, hlast⟩ := rows_cons_upper (rows_pair rest)
    rw [hupper, hlast, List.cons_append, List.cons_append, rows_pair, ih hrest, List.cons_append]
  | single c rest hc hcut ih =>
    have hm : Meet ([c] ++ rest) ys := hm
    obtain ⟨hupper, hlast⟩ := rows_cons_upper (rows_single hc hcut)
    rw [hupper, hlast, List.cons_append, rows_single hc (hm.append_right hcut),
      ih hm.of_append_left, List.cons_append]
  | other c rest hc ih =>
    have hrest : Meet rest ys := Meet.of_append_left (show Meet ([c] ++ rest) ys from hm)
    rw [List.cons_append, rows_other hc, ih hrest]
    -- The character stands in the last row of the first text only if that text has one row.
    by_cases h : breakCount rest = 0
    · have hall : breakCount (c :: rest) = 0 := by rw [breakCount_other hc, h]
      rw [lastRow_of_unbroken h, lastRow_of_unbroken hall, rows_of_unbroken h,
        rows_of_unbroken hall]
      rfl
    · obtain ⟨hupper, hne, hlast⟩ := rows_other_upper hc h
      obtain ⟨r, rs, hr⟩ := List.exists_cons_of_ne_nil hne
      rw [hupper, hlast, hr, List.modifyHead_cons, List.cons_append, List.modifyHead_cons,
        List.cons_append]

theorem rows_append_pair (xs ys : List Char) :
    rows (xs ++ '\r' :: '\n' :: ys) = rows xs ++ rows ys := by
  have hm : Meet xs ('\r' :: '\n' :: ys) := by
    rintro ⟨_, hlf⟩
    cases hlf
  calc rows (xs ++ '\r' :: '\n' :: ys)
      = (rows xs).dropLast ++ (lastRow xs ++ []) :: rows ys := rows_append hm
    _ = (rows xs).dropLast ++ [lastRow xs] ++ rows ys := by
      rw [List.append_nil, List.append_assoc, List.singleton_append]
    _ = rows xs ++ rows ys := by rw [← rows_eq_concat]

/-- The rows on both sides of a cut through a pair are empty, and none is left of them once the
texts are put together. -/
theorem rows_append_split (hm : ¬Meet xs ys) :
    rows (xs ++ ys) = (rows xs).dropLast ++ (rows ys).tail ∧ breakCount xs ≠ 0 := by
  obtain ⟨hcr, hlf⟩ := not_not.mp hm
  obtain ⟨front, rfl⟩ := List.getLast?_eq_some_iff.mp hcr
  obtain ⟨back, rfl⟩ := List.head?_eq_some_iff.mp hlf
  have hcut : Meet front ['\r'] := by
    rintro ⟨_, hlf⟩
    cases hlf
  have hfront : (rows (front ++ ['\r'])).dropLast = rows front :=
    calc (rows (front ++ ['\r'])).dropLast
        = ((rows front).dropLast ++ (lastRow front ++ []) :: [[]]).dropLast := by
          rw [rows_append hcut]
          rfl
      _ = (rows front).dropLast ++ [lastRow front] := by
          rw [List.append_nil, List.append_cons, List.dropLast_concat]
      _ = rows front := (rows_eq_concat front).symm
  have hback : rows ('\n' :: back) = [] :: rows back :=
    rows_single rfl (meet_of_last (by decide) _)
  constructor
  · rw [List.append_assoc, List.singleton_append, rows_append_pair, hfront, hback, List.tail_cons]
  · intro hzero
    exact absurd (breakCount_eq_zero.mp hzero '\r' (by simp)) (by decide)

theorem length_upper (text : List Char) : (rows text).dropLast.length = breakCount text := by
  rw [List.length_dropLast, length_rows, Nat.add_sub_cancel]

theorem length_lower (text : List Char) : (rows text).tail.length = breakCount text := by
  rw [List.length_tail, length_rows, Nat.add_sub_cancel]

theorem rows_above (xs ys : List Char) : (rows xs).dropLast <+: rows (xs ++ ys) := by
  by_cases hm : Meet xs ys
  · rw [rows_append hm]
    exact List.prefix_append _ _
  · rw [(rows_append_split hm).1]
    exact List.prefix_append _ _

theorem rows_below (xs ys : List Char) : (rows ys).tail <:+ (rows (xs ++ ys)).tail := by
  by_cases hm : Meet xs ys
  · rw [rows_append hm]
    cases (rows xs).dropLast with
    | nil => exact List.suffix_refl _
    | cons r rs =>
      rw [List.cons_append, List.tail_cons, List.append_cons]
      exact List.suffix_append _ _
  · obtain ⟨hrows, hbroken⟩ := rows_append_split hm
    have hupper : (rows xs).dropLast ≠ [] := by
      intro hnil
      apply hbroken
      rw [← length_upper, hnil, List.length_nil]
    rw [hrows, List.tail_append_of_ne_nil hupper]
    exact List.suffix_append _ _

theorem breakCount_seam (xs ys : List Char) :
    breakCount xs + breakCount ys ≤ breakCount (xs ++ ys) + 1 := by
  by_cases hm : Meet xs ys
  · rw [breakCount_append hm]
    omega
  · have hlength : (rows (xs ++ ys)).length = breakCount xs + breakCount ys := by
      rw [(rows_append_split hm).1, List.length_append, length_upper, length_lower]
    rw [length_rows] at hlength
    omega

theorem breakCount_le_append (xs ys : List Char) : breakCount ys ≤ breakCount (xs ++ ys) := by
  have hlength := (rows_below xs ys).length_le
  rwa [length_lower, length_lower] at hlength

theorem row?_above (hi : i < breakCount xs) (ys zs : List Char) :
    row? (xs ++ ys) i = row? (xs ++ zs) i := by
  have hupper (ts : List Char) : row? (xs ++ ts) i = (rows xs).dropLast[i]? := by
    obtain ⟨more, hmore⟩ := rows_above xs ts
    rw [row?_eq, ← hmore, List.getElem?_append_left (by rw [length_upper]; exact hi)]
  rw [hupper, hupper]

/-- A row below the first one of a text, counted from the end, does not depend on what precedes the
text. -/
theorem row?_below (hk : k < breakCount xs) (ys zs : List Char) :
    row? (ys ++ xs) (breakCount (ys ++ xs) - k) = row? (zs ++ xs) (breakCount (zs ++ xs) - k) := by
  have hlower (ts : List Char) : row? (ts ++ xs) (breakCount (ts ++ xs) - k) =
      (rows xs).tail[breakCount xs - 1 - k]? := by
    obtain ⟨more, hmore⟩ := (rows_below ts xs).trans (List.tail_suffix _)
    have hlength := length_rows (ts ++ xs)
    rw [← hmore, List.length_append, length_lower] at hlength
    rw [row?_eq, ← hmore, List.getElem?_append_right (by omega)]
    congr 1
    omega
  rw [hlower, hlower]

/-- A row of a text with the text above it, which ends where the row starts, and the text below it,
which is empty or starts with the break that ends the row. -/
structure RowAt (text : List Char) (row : Nat) (above content below : List Char) : Prop where
  text_eq : text = above ++ (content ++ below)
  count : breakCount above = row
  start : lastColumn above = 0
  unbroken : breakCount content = 0
  stop : firstRow below = []
  cut : Meet above (content ++ below)

theorem meet_of_unbroken (h : breakCount xs = 0) (ys : List Char) : Meet xs ys := by
  apply meet_of_last
  intro hcr
  exact absurd (breakCount_eq_zero.mp h '\r' (List.mem_of_getLast? hcr)) (by decide)

theorem meet_of_content (hne : content ≠ []) (h : breakCount content = 0) (xs ys : List Char) :
    Meet xs (content ++ ys) := by
  rintro ⟨_, hlf⟩
  rw [List.head?_append_of_ne_nil _ hne] at hlf
  exact absurd (breakCount_eq_zero.mp h '\n' (List.mem_of_head? hlf)) (by decide)

theorem meet_after_content (hne : content ≠ []) (h : breakCount content = 0) (xs ys : List Char) :
    Meet (xs ++ content) ys := by
  apply meet_of_last
  rw [List.getLast?_append_of_ne_nil _ hne]
  intro hcr
  exact absurd (breakCount_eq_zero.mp h '\r' (List.mem_of_getLast? hcr)) (by decide)

theorem unbroken_append (hx : breakCount xs = 0) (hy : breakCount ys = 0) :
    breakCount (xs ++ ys) = 0 := by
  rw [breakCount_append (meet_of_unbroken hx ys), hx, hy]

theorem unbroken_of_subset (hy : breakCount ys = 0) (hsub : xs ⊆ ys) : breakCount xs = 0 := by
  rw [breakCount_eq_zero]
  intro c hc
  exact breakCount_eq_zero.mp hy c (hsub hc)

theorem lastRow_of_start (h : lastColumn text = 0) : lastRow text = [] := by
  rw [← List.length_eq_zero_iff, length_lastRow, h]

theorem exists_rowAt (h : row? text row = some content) :
    ∃ above below, RowAt text row above content below := by
  rw [row?_eq] at h
  induction text using break_induction generalizing row content with
  | nil =>
    cases row with
    | zero =>
      obtain rfl := Option.some.inj h
      exact ⟨[], [], rfl, rfl, rfl, rfl, rfl, meet_nil _⟩
    | succ row => cases h
  | pair rest ih =>
    cases row with
    | zero =>
      obtain rfl := Option.some.inj h
      exact ⟨[], _, rfl, rfl, rfl, rfl, rfl, meet_nil _⟩
    | succ row =>
      obtain ⟨above, below, hrow⟩ := ih h
      have hcut : Meet ['\r', '\n'] (above ++ (content ++ below)) :=
        meet_of_last (by decide) _
      exact ⟨'\r' :: '\n' :: above, below, by rw [hrow.text_eq]; rfl,
        by rw [breakCount_pair, hrow.count], by rw [lastColumn_pair, hrow.start], hrow.unbroken,
        hrow.stop, hcut.append_left hrow.cut⟩
  | single c rest hc hm ih =>
    rw [rows_single hc hm] at h
    cases row with
    | zero =>
      obtain rfl := Option.some.inj h
      exact ⟨[], c :: rest, rfl, rfl, rfl, rfl, by rw [firstRow, rows_single hc hm]; rfl,
        meet_nil _⟩
    | succ row =>
      obtain ⟨above, below, hrow⟩ := ih h
      rw [hrow.text_eq] at hm
      exact ⟨c :: above, below, by rw [hrow.text_eq]; rfl,
        by rw [breakCount_single hc hm.of_append_right, hrow.count],
        by rw [lastColumn_single hc, hrow.start], hrow.unbroken, hrow.stop,
        hm.append_left hrow.cut⟩
  | other c rest hc ih =>
    have hm (ys : List Char) : Meet [c] ys := meet_of_unbroken (by rw [breakCount_other hc]; rfl) ys
    rw [rows_other hc, List.getElem?_modifyHead] at h
    cases row with
    | zero =>
      rw [if_pos rfl] at h
      obtain ⟨r, hr, rfl⟩ := Option.map_eq_some_iff.mp h
      obtain ⟨above, below, hrow⟩ := ih hr
      -- Nothing stands above the first row.
      have habove : above = [] := by
        rw [← lastRow_of_unbroken hrow.count, lastRow_of_start hrow.start]
      subst habove
      exact ⟨[], below, by rw [hrow.text_eq]; rfl, rfl, rfl,
        by rw [breakCount_other hc, hrow.unbroken], hrow.stop, meet_nil _⟩
    | succ row =>
      obtain ⟨above, below, hrow⟩ := ih h
      have hbroken : breakCount above ≠ 0 := by
        rw [hrow.count]
        exact Nat.succ_ne_zero row
      exact ⟨c :: above, below, by rw [hrow.text_eq]; rfl,
        by rw [breakCount_other hc, hrow.count], by rw [lastColumn_of_broken hbroken, hrow.start],
        hrow.unbroken, hrow.stop, (hm _).append_left hrow.cut⟩

namespace RowAt

variable {text' content' : List Char}

theorem rows_eq (h : RowAt text row above content below) :
    rows text = (rows above).dropLast ++ content :: (rows below).tail := by
  have hbelow : rows (content ++ below) = content :: (rows below).tail := by
    rw [rows_append (meet_of_unbroken h.unbroken below), rows_of_unbroken h.unbroken,
      lastRow_of_unbroken h.unbroken, h.stop, List.append_nil]
    rfl
  rw [h.text_eq, rows_append h.cut, lastRow_of_start h.start, firstRow, hbelow, List.headD_cons,
    List.tail_cons, List.nil_append]

theorem length_above (h : RowAt text row above content below) :
    (rows above).dropLast.length = row := by
  rw [length_upper, h.count]

theorem row?_self (h : RowAt text row above content below) : row? text row = some content := by
  rw [row?_eq, h.rows_eq, List.getElem?_append_right (Nat.le_of_eq h.length_above), h.length_above,
    Nat.sub_self, List.getElem?_cons_zero]

theorem row?_other (h : RowAt text row above content below)
    (h' : RowAt text' row above content' below) {i : Nat} (hi : i ≠ row) :
    row? text' i = row? text i := by
  rw [row?_eq, row?_eq, h.rows_eq, h'.rows_eq]
  by_cases hlt : i < row
  · rw [List.getElem?_append_left (by rw [h.length_above]; exact hlt),
      List.getElem?_append_left (by rw [h.length_above]; exact hlt)]
  · have hle : (rows above).dropLast.length ≤ i := by
      rw [h.length_above]
      omega
    obtain ⟨k, hk⟩ := Nat.exists_eq_succ_of_ne_zero
      (show i - (rows above).dropLast.length ≠ 0 by rw [h.length_above]; omega)
    rw [List.getElem?_append_right hle, List.getElem?_append_right hle, hk,
      List.getElem?_cons_succ, List.getElem?_cons_succ]

theorem length_rows_eq (h : RowAt text row above content below)
    (h' : RowAt text' row above content' below) : (rows text').length = (rows text).length := by
  rw [h.rows_eq, h'.rows_eq]
  simp only [List.length_append, List.length_cons]

theorem cellIndex?_eq (h : RowAt text row above content below) (hcolumn : column ≤ content.length) :
    cellIndex? text row column = some (above.length + column) := by
  obtain ⟨left, right, rfl, rfl⟩ : ∃ left right, content = left ++ right ∧ left.length = column :=
    ⟨content.take column, content.drop column, (List.take_append_drop _ _).symm,
      List.length_take_of_le hcolumn⟩
  have hleft : breakCount left = 0 :=
    unbroken_of_subset h.unbroken (List.subset_append_left left right)
  have hcut : Meet above (left ++ (right ++ below)) := by
    rw [← List.append_assoc]
    exact h.cut
  refine cellIndex?_eq_some.mpr ⟨above ++ left, right ++ below, ?_,
    hcut.append_left (meet_of_unbroken hleft _), List.length_append, ?_, ?_⟩
  · rw [h.text_eq, List.append_assoc, List.append_assoc]
  · rw [breakCount_append hcut.of_append_right, hleft, h.count, Nat.add_zero]
  · rw [lastColumn_append h.start, lastColumn_of_unbroken hleft]

theorem meet_take (h : RowAt text row above content below) (column : Nat) :
    Meet above (content.take column) := by
  have hcut := h.cut
  rw [← List.take_append_drop column content, List.append_assoc] at hcut
  exact hcut.of_append_right

theorem replace (h : RowAt text row above content below) (hcontent : breakCount content' = 0)
    (hcut : Meet above (content' ++ below)) :
    RowAt (above ++ (content' ++ below)) row above content' below :=
  ⟨rfl, h.count, h.start, hcontent, h.stop, hcut⟩

theorem row?_erased (h : RowAt text row above content below) (hm : ¬Meet above below) (i : Nat) :
    row? (above ++ below) i = row? text (if i < row then i else i + 1) := by
  have hrows : rows (above ++ below) = (rows text).eraseIdx row := by
    rw [h.rows_eq, (rows_append_split hm).1, ← h.length_above,
      List.eraseIdx_append_of_length_le (Nat.le_refl _), Nat.sub_self, List.eraseIdx_cons_zero]
  rw [row?_eq, row?_eq, hrows, List.getElem?_eraseIdx]
  split <;> rfl

theorem breakCount_erased (h : RowAt text row above content below) (hm : ¬Meet above below) :
    breakCount (above ++ below) + 1 = breakCount text := by
  have hlength := congrArg List.length h.rows_eq
  have hlength' := congrArg List.length (rows_append_split hm).1
  simp only [List.length_append, List.length_cons, length_rows, length_upper, length_lower]
    at hlength hlength'
  omega

theorem cellIndex?_erased (h : RowAt text row above content below) (hm : ¬Meet above below) :
    cellIndex? (above ++ below) row 0 = some (above.length + 1) := by
  obtain ⟨hcr, hlf⟩ := not_not.mp hm
  obtain ⟨back, rfl⟩ := List.head?_eq_some_iff.mp hlf
  have hsplit : ¬Meet above ['\n'] := not_not.mpr ⟨hcr, rfl⟩
  have hcount : breakCount (above ++ ['\n']) = breakCount above := by
    have hlength := congrArg List.length (rows_append_split hsplit).1
    rw [length_rows, List.length_append, length_upper, length_lower] at hlength
    exact Nat.succ.inj hlength
  have hlast : (above ++ ['\n']).getLast? ≠ some '\r' := by
    rw [List.getLast?_concat]
    decide
  refine cellIndex?_eq_some.mpr ⟨above ++ ['\n'], back, ?_, meet_of_last hlast back, ?_, ?_, ?_⟩
  · rw [List.append_assoc, List.singleton_append]
  · rw [List.length_append, List.length_singleton]
  · rw [hcount, h.count]
  · rw [lastColumn_append h.start]
    rfl

end RowAt

end DocSync.Text
