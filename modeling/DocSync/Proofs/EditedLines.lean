import DocSync.Proofs.EditPositions
import DocSync.Proofs.TextRows

/-!
An edit changes no line but those it reaches into. The lines above its start keep their numbers, and
the lines below its end keep theirs counted from the last line, even where a carriage return and a
line feed come together at one of its ends and a line is lost there.
-/

namespace DocSync.Document

open Text

variable {d d' : Document} {edit : TextChange} {p : EditorPosition} {l : Count} {n s u : Nat}
  {above content content' below : List Char}

theorem lineCount_eq (d : Document) : d.lineCount = breakCount d.visible + 1 := by
  rw [← length_rows, rows, List.length_map, lineCount]

theorem line?_eq (hl : l.toNat ≠ 0) : d.line? l = row? d.visible (l.toNat - 1) := by
  rw [line?, if_neg]
  rwa [count_eq_zero]

theorem line?_zero (hl : l.toNat = 0) : d.line? l = none := by
  rw [line?, if_pos (count_eq_zero.mpr hl)]

theorem line?_congr
    (h : l.toNat ≠ 0 → row? d'.visible (l.toNat - 1) = row? d.visible (l.toNat - 1)) :
    d'.line? l = d.line? l := by
  by_cases hzero : l.toNat = 0
  · rw [line?_zero hzero, line?_zero hzero]
  · rw [line?_eq hzero, line?_eq hzero]
    exact h hzero

theorem index?_eq_cell (hline : p.line.toNat ≠ 0) (hcolumn : p.column.toNat = n + 1) :
    d.index? p = cellIndex? d.visible (p.line.toNat - 1) n := by
  have hzero : ¬(p.line = 0 ∨ p.column = 0) := by
    rw [count_eq_zero, count_eq_zero]
    omega
  rw [index?, if_neg hzero, hcolumn, Nat.add_sub_cancel]

theorem line?_clamp (hpos : n ≠ 0) (hn : n ≤ 2 ^ 32 - 1) :
    d.line? (Count.clamp n) = row? d.visible (n - 1) := by
  have htoNat : (Count.clamp n).toNat = n := by
    rw [Count.toNat_clamp]
    omega
  rw [line?_eq (by omega), htoNat]

theorem Splices.cuts (h : d.Splices edit d') : ∃ pre mid post,
    d.visible = pre ++ (mid ++ post) ∧ d'.visible = pre ++ (edit.text.toList ++ post) ∧
      Meet pre (mid ++ post) ∧ Meet (pre ++ mid) post ∧
      edit.range.start.line.toNat = breakCount pre + 1 ∧
      edit.range.stop.line.toNat = breakCount (pre ++ mid) + 1 := by
  obtain ⟨i, j, hi, hj, hle, rfl⟩ := h
  obtain ⟨pre, rest, hv, hm, rfl, hline, _⟩ := index?_eq_some.mp hi
  obtain ⟨upto, post, hv', hm', rfl, hline', _⟩ := index?_eq_some.mp hj
  obtain ⟨mid, rfl, rfl⟩ := exists_between (hv.symm.trans hv') hle
  have htake : d.visible.take pre.length = pre := by rw [hv, List.take_left]
  have hdrop : d.visible.drop (pre ++ mid).length = post := by rw [hv', List.drop_left]
  refine ⟨pre, mid, post, hv, ?_, hm, hm', hline, hline'⟩
  rw [htake, hdrop, List.append_assoc]

/-- An accepted edit keeps the lines above its start and the lines below its end. -/
theorem edits_local (h : d.apply edit = .ok d') (hd : d.visible.length < 2 ^ 32 - 1)
    (hd' : d'.visible.length < 2 ^ 32 - 1) :
    (∀ l < edit.range.start.line, d'.line? l = d.line? l) ∧
      edit.range.start.line.toNat - 1 + (d.lineCount - edit.range.stop.line.toNat) ≤
        d'.lineCount ∧
      ∀ k < d.lineCount - edit.range.stop.line.toNat,
        d'.line? (Count.clamp (d'.lineCount - k)) = d.line? (Count.clamp (d.lineCount - k)) := by
  obtain ⟨pre, mid, post, hv, hv', hm, hm', hstart, hstop⟩ := (apply_ok_iff.mp h).cuts
  have hcount := breakCount_le d.visible
  have hcount' := breakCount_le d'.visible
  have hlower : d.lineCount - edit.range.stop.line.toNat = breakCount post := by
    rw [lineCount_eq, hstop, hv, ← List.append_assoc, breakCount_append hm']
    omega
  refine ⟨?_, ?_, ?_⟩
  · intro l hl
    rw [UInt32.lt_iff_toNat_lt] at hl
    apply line?_congr
    intro hpos
    rw [hv, hv']
    apply row?_above
    omega
  · have hseam := breakCount_seam pre (edit.text.toList ++ post)
    have hpost := breakCount_le_append edit.text.toList post
    rw [hlower, lineCount_eq, hv']
    omega
  · intro k hk
    rw [hlower] at hk
    rw [← List.append_assoc] at hv hv'
    have hpost := breakCount_le_append (pre ++ mid) post
    have hpost' := breakCount_le_append (pre ++ edit.text.toList) post
    rw [← hv] at hpost
    rw [← hv'] at hpost'
    rw [lineCount_eq, lineCount_eq, line?_clamp (by omega) (by omega),
      line?_clamp (by omega) (by omega), Nat.sub_right_comm, Nat.add_sub_cancel,
      Nat.sub_right_comm, Nat.add_sub_cancel, hv, hv']
    exact row?_below hk _ _

/-- A line between a carriage return and a line feed. -/
def lineBetween : Document := ⟨[], ['a', '\r', 'x', '\n', 'b'], []⟩

/-- Without its only character the line is gone, and the lines above and below it are not. -/
theorem emptied_line_local :
    ∃ d', lineBetween.apply ⟨⟨⟨2, 1⟩, ⟨2, 2⟩⟩, 1, ""⟩ = .ok d' ∧ lineBetween.lineCount = 3 ∧
      d'.lineCount = 2 ∧ d'.line? 1 = lineBetween.line? 1 ∧ d'.line? 2 = lineBetween.line? 3 := by
  have h : lineBetween.apply ⟨⟨⟨2, 1⟩, ⟨2, 2⟩⟩, 1, ""⟩ = .ok ⟨[], ['a', '\r', '\n', 'b'], []⟩ := rfl
  obtain ⟨habove, _, hbelow⟩ := edits_local h (by decide) (by decide)
  exact ⟨_, h, rfl, rfl, habove 1 (by decide), hbelow 0 (by decide)⟩

/-- A line of the slice with the text above and below it. -/
structure LineAt (d : Document) (l : Count) (above content below : List Char) : Prop where
  counted : l.toNat ≠ 0
  row : RowAt d.visible (l.toNat - 1) above content below

/-- The text of one line becomes another one, and nothing else changes. -/
structure TurnsLine (d : Document) (l : Count) (content : List Char) (d' : Document) : Prop where
  turned : d'.line? l = some content
  others : ∀ k, k ≠ l → d'.line? k = d.line? k
  count : d'.lineCount = d.lineCount
  hidden : d'.before = d.before ∧ d'.after = d.after

/-- One line is lost, and nothing else changes. -/
structure LosesLine (d : Document) (l : Count) (d' : Document) : Prop where
  above : ∀ k, k < l → d'.line? k = d.line? k
  below : ∀ k k', l ≤ k → k'.toNat = k.toNat + 1 → d'.line? k = d.line? k'
  count : d'.lineCount + 1 = d.lineCount
  hidden : d'.before = d.before ∧ d'.after = d.after

theorem exists_lineAt (h : d.line? l = some content) :
    ∃ above below, d.LineAt l above content below := by
  have hl : l.toNat ≠ 0 := by
    intro hzero
    rw [line?_zero hzero] at h
    cases h
  rw [line?_eq hl] at h
  obtain ⟨above, below, hrow⟩ := exists_rowAt h
  exact ⟨above, below, hl, hrow⟩

namespace LineAt

theorem index?_eq (h : d.LineAt l above content below) (hline : p.line = l)
    (hcolumn : p.column.toNat = n + 1) (hn : n ≤ content.length) :
    d.index? p = some (above.length + n) := by
  subst hline
  rw [index?_eq_cell h.counted hcolumn]
  exact h.row.cellIndex?_eq hn

theorem place (h : d.LineAt l above content below) (hcontent : breakCount content' = 0)
    (hcut : Meet above (content' ++ below)) :
    (d.setVisible (above ++ (content' ++ below))).LineAt l above content' below :=
  ⟨h.counted, h.row.replace hcontent hcut⟩

theorem turnsLine (h : d.LineAt l above content below)
    (h' : (d.setVisible (above ++ (content' ++ below))).LineAt l above content' below) :
    d.TurnsLine l content' (d.setVisible (above ++ (content' ++ below))) where
  turned := by
    rw [line?_eq h.counted]
    exact h'.row.row?_self
  others k hk := by
    apply line?_congr
    intro hpos
    apply h.row.row?_other h'.row
    intro heq
    apply hk
    rw [← UInt32.toNat_inj]
    have hcounted := h.counted
    omega
  count := by
    rw [lineCount_eq, lineCount_eq, ← length_rows, ← length_rows]
    exact h.row.length_rows_eq h'.row
  hidden := ⟨rfl, rfl⟩

theorem losesLine (h : d.LineAt l above content below) (hm : ¬Meet above below) :
    d.LosesLine l (d.setVisible (above ++ below)) where
  above k hk := by
    rw [UInt32.lt_iff_toNat_lt] at hk
    apply line?_congr
    intro hpos
    refine (h.row.row?_erased hm _).trans ?_
    rw [if_pos (by omega)]
  below k k' hk hnext := by
    rw [UInt32.le_iff_toNat_le] at hk
    have hcounted := h.counted
    rw [line?_eq (by omega), line?_eq (by omega)]
    refine (h.row.row?_erased hm _).trans ?_
    rw [if_neg (by omega), hnext, Nat.sub_add_cancel (by omega), Nat.add_sub_cancel]
  count := by
    rw [lineCount_eq, lineCount_eq, ← h.row.breakCount_erased hm]
    rfl
  hidden := ⟨rfl, rfl⟩

theorem index?_lost (h : d.LineAt l above content below) (hm : ¬Meet above below)
    (hline : p.line = l) (hcolumn : p.column.toNat = 1) :
    (d.setVisible (above ++ below)).index? p = some (above.length + 1) := by
  subst hline
  rw [index?_eq_cell h.counted hcolumn]
  exact h.row.cellIndex?_erased hm

theorem take_eq (h : d.LineAt l above content below) (hn : n ≤ content.length) :
    d.visible.take (above.length + n) = above ++ content.take n := by
  rw [h.row.text_eq, List.take_length_add_append, List.take_append_of_le_length hn]

theorem drop_eq (h : d.LineAt l above content below) (hn : n ≤ content.length) :
    d.visible.drop (above.length + n) = content.drop n ++ below := by
  rw [h.row.text_eq, List.drop_length_add_append, List.drop_append_of_le_length hn]

theorem apply_eq (edit : TextChange) (h : d.LineAt l above content below)
    (hstart : edit.range.start.line = l ∧ edit.range.start.column.toNat = s + 1)
    (hstop : edit.range.stop.line = l ∧ edit.range.stop.column.toNat = u + 1) (hle : s ≤ u)
    (hu : u ≤ content.length) :
    d.apply edit = .ok (d.setVisible
      (above ++ (content.take s ++ edit.text.toList ++ content.drop u ++ below))) := by
  rw [apply_ok_iff]
  refine ⟨above.length + s, above.length + u, h.index?_eq hstart.1 hstart.2 (by omega),
    h.index?_eq hstop.1 hstop.2 hu, by omega, ?_⟩
  rw [setVisible, h.take_eq (by omega), h.drop_eq hu]
  simp only [List.append_assoc]

end LineAt

end DocSync.Document
