import DocSync.Proofs.LineShifts

/-!
Where a shift can be undone. A position of the slice comes back from the whole text if it counts
from one and its line there is in range; a position of the whole text comes back from the slice if
it is below the hidden lines and its column has a successor. On these positions both ways keep the
order and tell positions apart; beyond them they still never turn the order around.
-/

namespace DocSync

namespace LineShift

variable {s : LineShift} {p p' : EditorPosition} {q q' : ServerPosition}

/-- The line in the whole text is in range. -/
def Fits (s : LineShift) (p : EditorPosition) : Prop :=
  p.line.toNat + s.hidden.toNat ≤ Count.top.toNat

instance (s : LineShift) (p : EditorPosition) : Decidable (s.Fits p) :=
  inferInstanceAs (Decidable (_ ≤ _))

/-- The position is below the hidden lines, and its column is not the last one in range. -/
structure Shows (s : LineShift) (q : ServerPosition) : Prop where
  below : s.hidden < q.line
  column : q.column < Count.top

/-- What a shift keeps of positions and of their order, and where. -/
structure KeepsPositions (s : LineShift) : Prop where
  there : ∀ p, s.toEditor (s.toServer p) = some p ↔ p.Counted ∧ s.Fits p
  back : ∀ q, (∃ p, s.toEditor q = some p ∧ s.toServer p = q) ↔ s.Shows q
  toServer_le : ∀ p p', s.Fits p → s.Fits p' → p ≤ p' → s.toServer p ≤ s.toServer p'
  toEditor_le : ∀ q q', s.hidden < q.line → s.hidden < q'.line → q ≤ q' →
    ∃ p p', s.toEditor q = some p ∧ s.toEditor q' = some p' ∧ p ≤ p'
  clamped_le : ∀ q q', q ≤ q' → s.toEditorClamped q ≤ s.toEditorClamped q'
  toServer_lt : ∀ p p', p.Counted ∧ s.Fits p → p'.Counted ∧ s.Fits p' →
    (s.toServer p < s.toServer p' ↔ p < p')
  toEditor_lt : ∀ q q', s.Shows q → s.Shows q' →
    ∃ p p', s.toEditor q = some p ∧ s.toEditor q' = some p' ∧ (p < p' ↔ q < q')
  toServer_inj : ∀ p p', p.Counted ∧ s.Fits p → p'.Counted ∧ s.Fits p' →
    s.toServer p = s.toServer p' → p = p'
  toEditor_inj : ∀ q q', s.Shows q → s.Shows q' → s.toEditor q = s.toEditor q' → q = q'
  clamped_counted : ∀ q, (s.toEditorClamped q).Counted

theorem carries_iff : s.Carries p ↔ p.Counted ∧ s.Fits p := by
  constructor
  · intro h
    exact ⟨h.counted, h.fits⟩
  · rintro ⟨hcounted, hfits⟩
    exact ⟨hcounted, hfits⟩

theorem toServer_line (s : LineShift) (p : EditorPosition) :
    (s.toServer p).line.toNat = min (p.line.toNat + s.hidden.toNat) 4294967295 :=
  Count.toNat_plus _ _

theorem toServer_column (s : LineShift) (p : EditorPosition) :
    (s.toServer p).column.toNat = p.column.toNat - 1 :=
  Count.toNat_minus _ _

theorem Fits.toServer_line (h : s.Fits p) :
    (s.toServer p).line.toNat = p.line.toNat + s.hidden.toNat := by
  rw [LineShift.toServer_line]
  exact Nat.min_eq_left h

theorem exists_toEditor (h : s.hidden < q.line) : ∃ p, s.toEditor q = some p := by
  rw [UInt32.lt_iff_toNat_lt] at h
  cases hp : s.toEditor q with
  | some p => exact ⟨p, rfl⟩
  | none =>
    have habove := toEditor_eq_none.mp hp
    omega

theorem toEditor_toServer : s.toEditor (s.toServer p) = some p ↔ s.Carries p := by
  have hline := UInt32.toNat_lt p.line
  have hcolumn := UInt32.toNat_lt p.column
  rw [toEditor_eq_some, toServer_line, toServer_column]
  constructor
  · rintro ⟨hpos, hsum, hnext⟩
    refine ⟨⟨hpos, ?_⟩, ?_⟩
    · omega
    · omega
  · rintro ⟨⟨hpos, hfirst⟩, hfits⟩
    refine ⟨hpos, ?_, ?_⟩
    · omega
    · omega

/-- A position that is shown comes back with its line, and with its column unless that is the last
one in range. -/
theorem toServer_of_toEditor (h : s.toEditor q = some p) :
    s.toServer p = q ↔ q.column < Count.top := by
  obtain ⟨hpos, hshift, hnext⟩ := toEditor_eq_some.mp h
  have hline := UInt32.toNat_lt q.line
  have hlast := UInt32.toNat_lt q.column
  have hback := toServer_line s p
  have hcolumn := toServer_column s p
  rw [UInt32.lt_iff_toNat_lt]
  change _ ↔ _ < 4294967295
  constructor
  · rintro rfl
    omega
  · intro hlt
    apply ServerPosition.eq_of_toNat
    · omega
    · omega

theorem exists_toServer : (∃ p, s.toEditor q = some p ∧ s.toServer p = q) ↔ s.Shows q := by
  constructor
  · rintro ⟨p, hp, hq⟩
    refine ⟨?_, (toServer_of_toEditor hp).mp hq⟩
    obtain ⟨hpos, hshift, -⟩ := toEditor_eq_some.mp hp
    rw [UInt32.lt_iff_toNat_lt]
    omega
  · rintro ⟨hbelow, hcolumn⟩
    obtain ⟨p, hp⟩ := exists_toEditor hbelow
    exact ⟨p, hp, (toServer_of_toEditor hp).mpr hcolumn⟩

theorem Shows.carries (h : s.Shows q) : ∃ p, s.toEditor q = some p ∧ s.toServer p = q ∧
    s.Carries p := by
  obtain ⟨p, hp, hq⟩ := exists_toServer.mpr h
  refine ⟨p, hp, hq, ?_⟩
  rw [← toEditor_toServer, hq, hp]

theorem toServer_mono (hp : s.Fits p) (hp' : s.Fits p') (h : p ≤ p') :
    s.toServer p ≤ s.toServer p' := by
  have hline := hp.toServer_line
  have hline' := hp'.toServer_line
  have hcolumn := toServer_column s p
  have hcolumn' := toServer_column s p'
  rw [EditorPosition.le_iff] at h
  rw [ServerPosition.le_iff]
  omega

theorem Carries.toServer_lt_iff (hp : s.Carries p) (hp' : s.Carries p') :
    s.toServer p < s.toServer p' ↔ p < p' := by
  have hline := hp.toServer_line
  have hline' := hp'.toServer_line
  have hcolumn := hp.toServer_column
  have hcolumn' := hp'.toServer_column
  rw [ServerPosition.lt_iff, EditorPosition.lt_iff]
  omega

theorem toEditor_mono (hp : s.toEditor q = some p) (hp' : s.toEditor q' = some p') (h : q ≤ q') :
    p ≤ p' := by
  have hmono := toEditorClamped_mono (s := s) h
  rwa [toEditorClamped_of_some hp, toEditorClamped_of_some hp'] at hmono

/-- A shift is undone just where nothing is cut at an end of the range. There it keeps the order
both ways and tells positions apart, and wherever a position is shown the order does not turn
around. -/
theorem keeps_positions (s : LineShift) : s.KeepsPositions where
  there p := by rw [toEditor_toServer, carries_iff]
  back q := exists_toServer
  toServer_le p p' := toServer_mono
  toEditor_le q q' hq hq' hle := by
    obtain ⟨p, hp⟩ := exists_toEditor hq
    obtain ⟨p', hp'⟩ := exists_toEditor hq'
    exact ⟨p, p', hp, hp', toEditor_mono hp hp' hle⟩
  clamped_le q q' := toEditorClamped_mono
  toServer_lt p p' hp hp' := (carries_iff.mpr hp).toServer_lt_iff (carries_iff.mpr hp')
  toEditor_lt q q' hq hq' := by
    obtain ⟨p, hp, rfl, hcarried⟩ := hq.carries
    obtain ⟨p', hp', rfl, hcarried'⟩ := hq'.carries
    exact ⟨p, p', hp, hp', (hcarried.toServer_lt_iff hcarried').symm⟩
  toServer_inj p p' hp hp' h := by
    have hback := toEditor_toServer.mpr (carries_iff.mpr hp)
    rw [h, toEditor_toServer.mpr (carries_iff.mpr hp')] at hback
    exact (Option.some.inj hback).symm
  toEditor_inj q q' hq hq' h := by
    obtain ⟨p, hp, rfl, -⟩ := hq.carries
    obtain ⟨p', hp', rfl, -⟩ := hq'.carries
    rw [hp, hp'] at h
    rw [Option.some.inj h]
  clamped_counted q := s.counted_toEditorClamped q

/-- Below that many hidden lines the fifth visible line is the last one in range. -/
theorem last_line_comes_back :
    LineShift.toEditor ⟨4294967290⟩ (LineShift.toServer ⟨4294967290⟩ ⟨5, 4294967295⟩) =
        some ⟨5, 4294967295⟩ ∧
      LineShift.toEditor ⟨4294967290⟩ (LineShift.toServer ⟨4294967290⟩ ⟨6, 1⟩) ≠ some ⟨6, 1⟩ := by
  have hkeeps := keeps_positions ⟨4294967290⟩
  constructor
  · exact (hkeeps.there ⟨5, 4294967295⟩).mpr ⟨by decide, by decide⟩
  · intro h
    obtain ⟨-, hfits⟩ := (hkeeps.there ⟨6, 1⟩).mp h
    exact absurd hfits (by decide)

end LineShift

end DocSync
