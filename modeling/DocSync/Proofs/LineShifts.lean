import DocSync.Position

/-!
How a shift carries positions. A comparison of two positions, one in each system, may be made on
either side of the shift: moving a position of the slice to the whole text and cutting a position of
the whole text to the slice are adjoint for the order of positions.
-/

namespace DocSync

/-- Line and column count from one. -/
def EditorPosition.Counted (p : EditorPosition) : Prop := 1 ≤ p.line.toNat ∧ 1 ≤ p.column.toNat

instance (p : EditorPosition) : Decidable p.Counted := inferInstanceAs (Decidable (_ ∧ _))

namespace LineShift

variable {s : LineShift} {p r : EditorPosition} {q q' : ServerPosition}

/-- The position counts from one and its line in the whole text is in range. -/
structure Carries (s : LineShift) (p : EditorPosition) : Prop where
  counted : p.Counted
  fits : p.line.toNat + s.hidden.toNat ≤ 4294967295

theorem Carries.toServer_line (h : s.Carries p) :
    (s.toServer p).line.toNat = p.line.toNat + s.hidden.toNat := by
  have hfits := h.fits
  rw [toServer, Count.toNat_plus]
  omega

theorem Carries.toServer_column (h : s.Carries p) :
    (s.toServer p).column.toNat + 1 = p.column.toNat := by
  have hcolumn := h.counted.2
  rw [toServer, Count.toNat_minus, UInt32.toNat_one]
  omega

theorem toEditor_eq_none : s.toEditor q = none ↔ q.line.toNat ≤ s.hidden.toNat := by
  rw [toEditor, ← UInt32.le_iff_toNat_le]
  split <;> simp_all

theorem toEditor_eq_some : s.toEditor q = some r ↔
    1 ≤ r.line.toNat ∧ r.line.toNat + s.hidden.toNat = q.line.toNat ∧
      r.column.toNat = min (q.column.toNat + 1) 4294967295 := by
  have hline := Count.toNat_minus q.line s.hidden
  have hcolumn := Count.toNat_plus q.column 1
  rw [UInt32.toNat_one] at hcolumn
  by_cases habove : q.line ≤ s.hidden
  · rw [toEditor, if_pos habove]
    rw [UInt32.le_iff_toNat_le] at habove
    constructor
    · intro h
      cases h
    · rintro ⟨hpos, hsum, -⟩
      omega
  · rw [toEditor, if_neg habove, Option.some.injEq]
    rw [UInt32.le_iff_toNat_le] at habove
    constructor
    · rintro rfl
      refine ⟨?_, ?_, hcolumn⟩ <;> dsimp only <;> omega
    · rintro ⟨-, hsum, hmin⟩
      apply EditorPosition.eq_of_toNat <;> dsimp only <;> omega

theorem toEditorClamped_of_some (h : s.toEditor q = some r) : s.toEditorClamped q = r := by
  rw [toEditorClamped, h, Option.getD_some]

theorem toEditorClamped_of_none (h : s.toEditor q = none) : s.toEditorClamped q = ⟨1, 1⟩ := by
  rw [toEditorClamped, h, Option.getD_none]

theorem counted_toEditor (h : s.toEditor q = some r) : r.Counted := by
  obtain ⟨hline, -, hcolumn⟩ := toEditor_eq_some.mp h
  refine ⟨hline, ?_⟩
  omega

theorem counted_toEditorClamped (s : LineShift) (q : ServerPosition) :
    (s.toEditorClamped q).Counted := by
  cases h : s.toEditor q with
  | none =>
    rw [toEditorClamped_of_none h]
    exact ⟨Nat.le_refl 1, Nat.le_refl 1⟩
  | some r =>
    rw [toEditorClamped_of_some h]
    exact counted_toEditor h

/-- A start may be compared on either side. The largest column is left out: its successor is not in
range, and the column that it is shown at comes before it. -/
theorem Carries.toEditorClamped_le_iff (h : s.Carries p) (hq : q.column.toNat < 4294967295) :
    s.toEditorClamped q ≤ p ↔ q ≤ s.toServer p := by
  have hline := h.toServer_line
  have hcolumn := h.toServer_column
  have hpos := h.counted.1
  rw [ServerPosition.le_iff]
  cases hr : s.toEditor q with
  | none =>
    -- above the slice: before every position of it on both sides
    have habove := toEditor_eq_none.mp hr
    rw [toEditorClamped_of_none hr, EditorPosition.le_iff]
    change 1 < _ ∨ 1 = _ ∧ 1 ≤ _ ↔ _
    omega
  | some r =>
    obtain ⟨-, hshift, hnext⟩ := toEditor_eq_some.mp hr
    rw [toEditorClamped_of_some hr, EditorPosition.le_iff]
    omega

/-- An end may be compared on either side, and no position of the slice comes before an end that is
above the slice. -/
theorem Carries.toServer_le_iff (h : s.Carries p) :
    s.toServer p ≤ q ↔ ∃ r, s.toEditor q = some r ∧ p ≤ r := by
  have hline := h.toServer_line
  have hcolumn := h.toServer_column
  have hpos := h.counted.1
  have hlast := UInt32.toNat_lt p.column
  rw [ServerPosition.le_iff]
  cases hr : s.toEditor q with
  | none =>
    have habove := toEditor_eq_none.mp hr
    constructor
    · intro hle
      omega
    · rintro ⟨r, hsome, -⟩
      cases hsome
  | some r =>
    obtain ⟨-, hshift, hnext⟩ := toEditor_eq_some.mp hr
    simp only [Option.some.injEq, exists_eq_left', EditorPosition.le_iff]
    omega

theorem Carries.onLine_iff (h : s.Carries p) (hq : q.column.toNat < 4294967295) :
    ((s.toServer p).line = q.line ∧ q.column ≤ (s.toServer p).column) ↔
      ∃ r, s.toEditor q = some r ∧ p.line = r.line ∧ r.column ≤ p.column := by
  have hline := h.toServer_line
  have hcolumn := h.toServer_column
  have hpos := h.counted.1
  cases hr : s.toEditor q with
  | none =>
    have habove := toEditor_eq_none.mp hr
    rw [← UInt32.toNat_inj]
    constructor
    · rintro ⟨heq, -⟩
      omega
    · rintro ⟨r, hsome, -⟩
      cases hsome
  | some r =>
    obtain ⟨-, hshift, hnext⟩ := toEditor_eq_some.mp hr
    simp only [Option.some.injEq, exists_eq_left', UInt32.le_iff_toNat_le, ← UInt32.toNat_inj]
    omega

theorem toEditorClamped_mono (h : q ≤ q') : s.toEditorClamped q ≤ s.toEditorClamped q' := by
  rw [ServerPosition.le_iff] at h
  rw [EditorPosition.le_iff]
  cases hr : s.toEditor q with
  | none =>
    obtain ⟨hline, hcolumn⟩ := s.counted_toEditorClamped q'
    rw [toEditorClamped_of_none hr]
    change 1 < _ ∨ 1 = _ ∧ 1 ≤ _
    omega
  | some r =>
    obtain ⟨hpos, hshift, hnext⟩ := toEditor_eq_some.mp hr
    rw [toEditorClamped_of_some hr]
    cases hr' : s.toEditor q' with
    | none =>
      have habove := toEditor_eq_none.mp hr'
      omega
    | some r' =>
      obtain ⟨-, hshift', hnext'⟩ := toEditor_eq_some.mp hr'
      rw [toEditorClamped_of_some hr']
      omega

end LineShift

end DocSync
