import DocSync.Text.Line
import Mathlib.Data.List.TakeWhile

/-!
Where the cells of a text are. A cell is a place where the text can be cut without cutting a break
in two: its row is the number of breaks before the cut, and its column is the number of characters
between the last of them and the cut.
-/

namespace DocSync.Text

variable {c : Char} {text rest pre post xs ys : List Char} {row column i : Nat}

def isBreak (c : Char) : Bool := c == '\n' || c == '\r'

theorem isBreak_iff : isBreak c = true ↔ c = '\n' ∨ c = '\r' := by
  simp [isBreak]

/-- No break is cut in two where the texts meet. -/
def Meet (xs ys : List Char) : Prop := ¬(xs.getLast? = some '\r' ∧ ys.head? = some '\n')

/-- The number of characters after the last break. -/
def lastColumn (text : List Char) : Nat := (text.reverse.takeWhile fun c => !isBreak c).length

theorem meet_nil (ys : List Char) : Meet [] ys := by
  rintro ⟨h, _⟩
  cases h

theorem meet_end (xs : List Char) : Meet xs [] := by
  rintro ⟨_, h⟩
  cases h

theorem meet_of_last (h : xs.getLast? ≠ some '\r') (ys : List Char) : Meet xs ys :=
  fun hm => h hm.1

theorem Meet.of_append_left (h : Meet (xs ++ pre) post) : Meet pre post := by
  by_cases hp : pre = []
  · rw [hp]
    exact meet_nil post
  · rwa [Meet, List.getLast?_append, List.getLast?_eq_some_getLast hp, Option.some_or,
      ← List.getLast?_eq_some_getLast hp] at h

theorem Meet.of_append_right (h : Meet xs (pre ++ post)) : Meet xs pre := by
  by_cases hp : pre = []
  · rw [hp]
    exact meet_end xs
  · rwa [Meet, List.head?_append, List.head?_eq_some_head hp, Option.some_or,
      ← List.head?_eq_some_head hp] at h

theorem Meet.append_left (h : Meet xs (pre ++ post)) (hp : Meet pre post) :
    Meet (xs ++ pre) post := by
  by_cases hnil : pre = []
  · subst hnil
    rwa [List.append_nil]
  · rwa [Meet, List.getLast?_append, List.getLast?_eq_some_getLast hnil, Option.some_or,
      ← List.getLast?_eq_some_getLast hnil]

theorem Meet.append_right (h : Meet (xs ++ pre) post) (hp : Meet xs pre) :
    Meet xs (pre ++ post) := by
  by_cases hnil : pre = []
  · subst hnil
    rwa [List.append_nil] at h
  · rwa [Meet, List.head?_append, List.head?_eq_some_head hnil, Option.some_or,
      ← List.head?_eq_some_head hnil]

theorem break_induction {motive : List Char → Prop} (text : List Char) (nil : motive [])
    (pair : ∀ rest, motive rest → motive ('\r' :: '\n' :: rest))
    (single : ∀ c rest, isBreak c = true → Meet [c] rest → motive rest → motive (c :: rest))
    (other : ∀ c rest, isBreak c = false → motive rest → motive (c :: rest)) : motive text := by
  induction text using lines.induct with
  | case1 => exact nil
  | case2 rest ih => exact pair rest ih
  | case3 c rest hpair hc ih =>
    refine single c rest (isBreak_iff.mpr hc) ?_ ih
    rintro ⟨hcr, hlf⟩
    obtain ⟨tail, rfl⟩ := List.head?_eq_some_iff.mp hlf
    exact hpair tail (Option.some.inj hcr) rfl
  | case4 c rest hpair hc ih =>
    refine other c rest ?_ ih
    rw [← Bool.not_eq_true, isBreak_iff]
    exact hc

theorem lines_pair (rest : List Char) :
    lines ('\r' :: '\n' :: rest) = ⟨[], ['\r', '\n']⟩ :: lines rest := rfl

theorem lines_single (hc : isBreak c = true) (hm : Meet [c] rest) :
    lines (c :: rest) = ⟨[], [c]⟩ :: lines rest := by
  rw [lines, if_pos (isBreak_iff.mp hc)]
  rintro tail rfl rfl
  exact hm ⟨rfl, rfl⟩

theorem lines_other (hc : isBreak c = false) : lines (c :: rest) = consFirst c (lines rest) := by
  have hnot : ¬(c = '\n' ∨ c = '\r') := by
    rw [← isBreak_iff, hc]
    exact Bool.false_ne_true
  rw [lines, if_neg hnot]
  rintro tail rfl
  exact absurd (Or.inr rfl) hnot

theorem breakCount_nil : breakCount [] = 0 := rfl

theorem breakCount_pair (rest : List Char) :
    breakCount ('\r' :: '\n' :: rest) = breakCount rest + 1 := rfl

theorem breakCount_single (hc : isBreak c = true) (hm : Meet [c] rest) :
    breakCount (c :: rest) = breakCount rest + 1 := by
  rw [breakCount, if_pos (isBreak_iff.mp hc)]
  rintro tail rfl rfl
  exact hm ⟨rfl, rfl⟩

theorem breakCount_other (hc : isBreak c = false) : breakCount (c :: rest) = breakCount rest := by
  have hnot : ¬(c = '\n' ∨ c = '\r') := by
    rw [← isBreak_iff, hc]
    exact Bool.false_ne_true
  rw [breakCount, if_neg hnot]
  rintro tail rfl
  exact absurd (Or.inr rfl) hnot

theorem breakCount_append (hm : Meet xs ys) :
    breakCount (xs ++ ys) = breakCount xs + breakCount ys := by
  induction xs using break_induction with
  | nil => rw [breakCount_nil, List.nil_append, Nat.zero_add]
  | pair rest ih =>
    have hrest : Meet rest ys := Meet.of_append_left (show Meet (['\r', '\n'] ++ rest) ys from hm)
    simp only [List.cons_append, breakCount_pair, ih hrest]
    omega
  | single c rest hc hcut ih =>
    have hm : Meet ([c] ++ rest) ys := hm
    rw [List.cons_append, breakCount_single hc (hm.append_right hcut), breakCount_single hc hcut,
      ih hm.of_append_left]
    omega
  | other c rest hc ih =>
    have hm : Meet ([c] ++ rest) ys := hm
    rw [List.cons_append, breakCount_other hc, breakCount_other hc, ih hm.of_append_left]

theorem breakCount_le (text : List Char) : breakCount text ≤ text.length := by
  induction text using break_induction with
  | nil => exact Nat.le_refl 0
  | pair rest ih =>
    simp only [breakCount_pair, List.length_cons]
    omega
  | single c rest hc hcut ih =>
    simp only [breakCount_single hc hcut, List.length_cons]
    omega
  | other c rest hc ih =>
    simp only [breakCount_other hc, List.length_cons]
    omega

theorem breakCount_eq_zero : breakCount text = 0 ↔ ∀ c ∈ text, isBreak c = false := by
  induction text using break_induction with
  | nil => simp [breakCount_nil]
  | pair rest ih => simp [breakCount_pair, isBreak]
  | single c rest hc hcut ih => simp [breakCount_single hc hcut, hc]
  | other c rest hc ih => simp [breakCount_other hc, hc, ih]

theorem lastColumn_le (text : List Char) : lastColumn text ≤ text.length := by
  have h := (List.takeWhile_sublist fun c => !isBreak c : List.Sublist _ text.reverse).length_le
  rwa [List.length_reverse] at h

theorem lastColumn_eq_zero :
    lastColumn text = 0 ↔ ∀ c, text.getLast? = some c → isBreak c = true := by
  rcases List.eq_nil_or_concat text with rfl | ⟨front, c, rfl⟩
  · simp [lastColumn]
  · cases hc : isBreak c with
    | true => simp [lastColumn, hc]
    | false => simp [lastColumn, hc]

theorem lastColumn_append (hx : lastColumn xs = 0) (ys : List Char) :
    lastColumn (xs ++ ys) = lastColumn ys := by
  have hnil : (xs.reverse.takeWhile fun c => !isBreak c) = [] := List.length_eq_zero_iff.mp hx
  rw [lastColumn, lastColumn, List.reverse_append, List.takeWhile_append, hnil, List.append_nil]
  split
  · next h => rw [h]
  · rfl

theorem lastColumn_pair (rest : List Char) :
    lastColumn ('\r' :: '\n' :: rest) = lastColumn rest := by
  have hstart : lastColumn ['\r', '\n'] = 0 := by decide
  exact lastColumn_append hstart rest

theorem lastColumn_single (hc : isBreak c = true) : lastColumn (c :: rest) = lastColumn rest := by
  have hstart : lastColumn [c] = 0 := by simp [lastColumn, hc]
  exact lastColumn_append hstart rest

theorem lastColumn_of_unbroken (h : breakCount text = 0) : lastColumn text = text.length := by
  have hall : ∀ c ∈ text.reverse, (!isBreak c) = true := by
    intro c hc
    rw [breakCount_eq_zero.mp h c (List.mem_reverse.mp hc)]
    rfl
  rw [lastColumn, List.takeWhile_eq_self_iff.mpr hall, List.length_reverse]

theorem lastColumn_of_broken (h : breakCount text ≠ 0) (c : Char) :
    lastColumn (c :: text) = lastColumn text := by
  have hsome : (text.reverse.takeWhile fun c => !isBreak c).length ≠ text.reverse.length := by
    intro hlength
    apply h
    rw [breakCount_eq_zero]
    intro c hc
    have hself := (List.takeWhile_sublist fun c => !isBreak c).eq_of_length hlength
    have hother := List.takeWhile_eq_self_iff.mp hself c (List.mem_reverse.mpr hc)
    simpa using hother
  rw [lastColumn, List.reverse_cons, List.takeWhile_append, if_neg hsome, lastColumn]

section Rows

variable {l : Line} {ls : List Line}

theorem cellIndex?_first (hl : lines text = l :: ls) (column : Nat) :
    cellIndex? text 0 column = if column ≤ l.content.length then some column else none := by
  simp [cellIndex?, row?, rowStart, hl]

theorem cellIndex?_empty {ending : List Char} (hl : lines text = ⟨[], ending⟩ :: ls)
    (h : cellIndex? text 0 column = some i) : column = 0 ∧ i = 0 := by
  rw [cellIndex?_first hl] at h
  split at h
  · next hcolumn =>
    obtain rfl := Option.some.inj h
    have hzero := Nat.le_zero.mp hcolumn
    exact ⟨hzero, hzero⟩
  · cases h

theorem cellIndex?_next (hl : lines text = l :: lines rest) (row column : Nat) :
    cellIndex? text (row + 1) column = (cellIndex? rest row column).map (l.length + ·) := by
  simp only [cellIndex?, row?, rowStart, hl, List.getElem?_cons_succ, List.take_succ_cons,
    List.foldr_cons]
  cases (lines rest)[row]? with
  | none => rfl
  | some m =>
    simp only [Option.map_some]
    split
    · simp [Nat.add_assoc]
    · rfl

end Rows

theorem lines_eq_cons (text : List Char) : ∃ l ls, lines text = l :: ls := by
  induction text using break_induction with
  | nil => exact ⟨_, _, rfl⟩
  | pair rest ih => exact ⟨_, _, lines_pair rest⟩
  | single c rest hc hm ih => exact ⟨_, _, lines_single hc hm⟩
  | other c rest hc ih =>
    obtain ⟨l, ls, hl⟩ := ih
    exact ⟨⟨c :: l.content, l.ending⟩, ls, by rw [lines_other hc, hl, consFirst]⟩

theorem cellIndex?_start (text : List Char) : cellIndex? text 0 0 = some 0 := by
  obtain ⟨l, ls, hl⟩ := lines_eq_cons text
  rw [cellIndex?_first hl, if_pos (Nat.zero_le _)]

theorem cellIndex?_other (hc : isBreak c = false) (column : Nat) :
    cellIndex? (c :: rest) 0 (column + 1) = (cellIndex? rest 0 column).map (1 + ·) := by
  obtain ⟨l, ls, hl⟩ := lines_eq_cons rest
  have hline : lines (c :: rest) = ⟨c :: l.content, l.ending⟩ :: ls := by
    rw [lines_other hc, hl, consFirst]
  rw [cellIndex?_first hline, cellIndex?_first hl]
  by_cases h : column ≤ l.content.length
  · simp [h, Nat.add_comm]
  · simp [h]

theorem cellIndex?_below (hc : isBreak c = false) (row column : Nat) :
    cellIndex? (c :: rest) (row + 1) column = (cellIndex? rest (row + 1) column).map (1 + ·) := by
  obtain ⟨l, ls, hl⟩ := lines_eq_cons rest
  have hline : lines (c :: rest) = ⟨c :: l.content, l.ending⟩ :: ls := by
    rw [lines_other hc, hl, consFirst]
  simp only [cellIndex?, row?, rowStart, hline, hl, List.getElem?_cons_succ, List.take_succ_cons,
    List.foldr_cons, Line.length, List.length_cons]
  cases ls[row]? with
  | none => rfl
  | some m =>
    simp only [Option.map_some]
    split
    · simp only [Option.map_some, Option.some.injEq]
      omega
    · rfl

/-- A place where the text can be cut is the cell that the text before it tells. -/
theorem cellIndex?_cut (hm : Meet pre post) :
    cellIndex? (pre ++ post) (breakCount pre) (lastColumn pre) = some pre.length := by
  induction pre using break_induction with
  | nil => exact cellIndex?_start post
  | pair rest ih =>
    have hrest : Meet rest post :=
      Meet.of_append_left (show Meet (['\r', '\n'] ++ rest) post from hm)
    rw [breakCount_pair, lastColumn_pair, List.cons_append, List.cons_append,
      cellIndex?_next (lines_pair (rest ++ post)), ih hrest]
    simp only [Line.length, List.length_nil, List.length_cons, Option.map_some, Option.some.injEq]
    omega
  | single c rest hc hcut ih =>
    have hm : Meet ([c] ++ rest) post := hm
    rw [breakCount_single hc hcut, lastColumn_single hc, List.cons_append,
      cellIndex?_next (lines_single hc (hm.append_right hcut)), ih hm.of_append_left]
    simp [Line.length, Nat.add_comm]
  | other c rest hc ih =>
    have hrest : Meet rest post := Meet.of_append_left (show Meet ([c] ++ rest) post from hm)
    rw [breakCount_other hc, List.cons_append]
    by_cases hbreak : breakCount rest = 0
    · have hcount : breakCount (c :: rest) = 0 := by rw [breakCount_other hc, hbreak]
      rw [hbreak, lastColumn_of_unbroken hcount, List.length_cons, cellIndex?_other hc]
      rw [hbreak, lastColumn_of_unbroken hbreak] at ih
      rw [ih hrest]
      simp [Nat.add_comm]
    · obtain ⟨row, hrow⟩ := Nat.exists_eq_succ_of_ne_zero hbreak
      rw [lastColumn_of_broken hbreak, hrow, cellIndex?_below hc]
      rw [hrow] at ih
      rw [ih hrest]
      simp [Nat.add_comm]

/-- Every cell is a place where the text can be cut. -/
theorem cut_of_cellIndex? (h : cellIndex? text row column = some i) :
    ∃ pre post, text = pre ++ post ∧ Meet pre post ∧ pre.length = i ∧ breakCount pre = row ∧
      lastColumn pre = column := by
  -- The first cell of a text is at its start.
  have hstart (text : List Char) : ∃ pre post, text = pre ++ post ∧ Meet pre post ∧
      pre.length = 0 ∧ breakCount pre = 0 ∧ lastColumn pre = 0 :=
    ⟨[], text, rfl, meet_nil text, rfl, rfl, rfl⟩
  induction text using break_induction generalizing row column i with
  | nil =>
    cases row with
    | zero =>
      obtain ⟨rfl, rfl⟩ := cellIndex?_empty (by rw [lines]) h
      exact hstart []
    | succ row => simp [cellIndex?, row?, lines] at h
  | pair rest ih =>
    cases row with
    | zero =>
      obtain ⟨rfl, rfl⟩ := cellIndex?_empty (lines_pair rest) h
      exact hstart _
    | succ row =>
      rw [cellIndex?_next (lines_pair rest)] at h
      obtain ⟨j, hj, rfl⟩ := Option.map_eq_some_iff.mp h
      obtain ⟨pre, post, rfl, hm, rfl, rfl, rfl⟩ := ih hj
      have hcut : Meet ['\r', '\n'] (pre ++ post) := meet_of_last (by decide) _
      refine ⟨'\r' :: '\n' :: pre, post, rfl, hcut.append_left hm, ?_, breakCount_pair pre,
        lastColumn_pair pre⟩
      simp only [Line.length, List.length_nil, List.length_cons]
      omega
  | single c rest hc hcut ih =>
    cases row with
    | zero =>
      obtain ⟨rfl, rfl⟩ := cellIndex?_empty (lines_single hc hcut) h
      exact hstart _
    | succ row =>
      rw [cellIndex?_next (lines_single hc hcut)] at h
      obtain ⟨j, hj, rfl⟩ := Option.map_eq_some_iff.mp h
      obtain ⟨pre, post, rfl, hm, rfl, rfl, rfl⟩ := ih hj
      refine ⟨c :: pre, post, rfl, hcut.append_left hm, ?_,
        breakCount_single hc hcut.of_append_right, lastColumn_single hc⟩
      simp only [Line.length, List.length_nil, List.length_cons]
      omega
  | other c rest hc ih =>
    have hcut : Meet [c] rest := by
      rintro ⟨hcr, _⟩
      obtain rfl := Option.some.inj hcr
      cases hc
    cases row with
    | zero =>
      cases column with
      | zero =>
        rw [cellIndex?_start] at h
        obtain rfl := Option.some.inj h
        exact hstart _
      | succ column =>
        rw [cellIndex?_other hc] at h
        obtain ⟨j, hj, rfl⟩ := Option.map_eq_some_iff.mp h
        obtain ⟨pre, post, rfl, hm, rfl, hrow, rfl⟩ := ih hj
        have hbreak : breakCount (c :: pre) = 0 := by rw [breakCount_other hc, hrow]
        refine ⟨c :: pre, post, rfl, hcut.append_left hm, ?_, hbreak, ?_⟩
        · rw [List.length_cons, Nat.add_comm]
        · rw [lastColumn_of_unbroken hbreak, lastColumn_of_unbroken hrow, List.length_cons]
    | succ row =>
      rw [cellIndex?_below hc] at h
      obtain ⟨j, hj, rfl⟩ := Option.map_eq_some_iff.mp h
      obtain ⟨pre, post, rfl, hm, rfl, hrow, rfl⟩ := ih hj
      refine ⟨c :: pre, post, rfl, hcut.append_left hm, ?_, ?_, ?_⟩
      · rw [List.length_cons, Nat.add_comm]
      · rw [breakCount_other hc, hrow]
      · exact lastColumn_of_broken (by omega) c

theorem cellIndex?_eq_some : cellIndex? text row column = some i ↔
    ∃ pre post, text = pre ++ post ∧ Meet pre post ∧ pre.length = i ∧ breakCount pre = row ∧
      lastColumn pre = column := by
  constructor
  · exact cut_of_cellIndex?
  · rintro ⟨pre, post, rfl, hm, rfl, rfl, rfl⟩
    exact cellIndex?_cut hm

end DocSync.Text
