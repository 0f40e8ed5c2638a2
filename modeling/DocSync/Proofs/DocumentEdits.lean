import DocSync.Document

/-!
What an edit needs to fit a document, and why one does not. Edits that are meant for one text after
the other fit as a whole, or there is a first one that does not.
-/

namespace DocSync

namespace Document

variable {d d' u : Document} {edit : TextChange} {edits : List TextChange} {e : EditError}

/-- An edit fits a document: it replaces what stands between two of its places. -/
def Splices (d : Document) (edit : TextChange) (d' : Document) : Prop :=
  ∃ i j, d.index? edit.range.start = some i ∧ d.index? edit.range.stop = some j ∧ i ≤ j ∧
    d' = { d with visible := d.visible.take i ++ edit.text.toList ++ d.visible.drop j }

/-- Why an edit does not fit a document. -/
inductive Misfit (d : Document) (edit : TextChange) : EditError → Prop where
  | start (hi : d.index? edit.range.start = none) : Misfit d edit (.outOfBounds edit.range.start)
  | stop {i : Nat} (hi : d.index? edit.range.start = some i)
      (hj : d.index? edit.range.stop = none) : Misfit d edit (.outOfBounds edit.range.stop)
  | inverted {i j : Nat} (hi : d.index? edit.range.start = some i)
      (hj : d.index? edit.range.stop = some j) (hlt : j < i) : Misfit d edit (.inverted edit.range)

/-- Edits fit one after the other. -/
inductive Becomes : Document → List TextChange → Document → Prop where
  | nil (d : Document) : Becomes d [] d
  | cons {d u d' : Document} {edit : TextChange} {edits : List TextChange}
      (he : d.Splices edit u) (hr : Becomes u edits d') : Becomes d (edit :: edits) d'

/-- Of the edits the first that does not fit what those before it leave. -/
def FailsWith (d : Document) (edits : List TextChange) (e : EditError) : Prop :=
  ∃ before edit after u, edits = before ++ edit :: after ∧ d.Becomes before u ∧ u.Misfit edit e

theorem apply_ok_iff : d.apply edit = .ok d' ↔ d.Splices edit d' := by
  constructor
  · intro h
    simp only [apply] at h
    split at h
    · cases h
    · next i hi =>
      split at h
      · cases h
      · next j hj =>
        split at h
        · cases h
        · next hle =>
          cases h
          exact ⟨i, j, hi, hj, Nat.le_of_not_lt hle, rfl⟩
  · rintro ⟨i, j, hi, hj, hle, rfl⟩
    simp only [apply, hi, hj, if_neg (Nat.not_lt_of_le hle)]

theorem apply_error_iff : d.apply edit = .error e ↔ d.Misfit edit e := by
  constructor
  · intro h
    simp only [apply] at h
    split at h
    · next hi =>
      cases h
      exact .start hi
    · next i hi =>
      split at h
      · next hj =>
        cases h
        exact .stop hi hj
      · next j hj =>
        split at h
        · next hlt =>
          cases h
          exact .inverted hi hj hlt
        · cases h
  · intro h
    cases h with
    | start hi => simp only [apply, hi]
    | stop hi hj => simp only [apply, hi, hj]
    | inverted hi hj hlt => simp only [apply, hi, hj, if_pos hlt]

theorem applyAll_cons_ok (hu : d.apply edit = .ok u) :
    d.applyAll (edit :: edits) = u.applyAll edits := by
  simp only [applyAll, applyEach, hu]

theorem applyAll_cons_error (he : d.apply edit = .error e) :
    d.applyAll (edit :: edits) = .error e := by
  simp only [applyAll, applyEach, he]

/-- All edits are applied exactly where each fits the result of those before it. -/
theorem applyAll_ok_iff : d.applyAll edits = .ok d' ↔ d.Becomes edits d' := by
  induction edits generalizing d with
  | nil =>
    constructor
    · intro h
      cases h
      exact .nil _
    · intro h
      cases h
      rfl
  | cons edit edits ih =>
    constructor
    · intro h
      cases hu : d.apply edit with
      | error e =>
        rw [applyAll_cons_error hu] at h
        cases h
      | ok u =>
        rw [applyAll_cons_ok hu] at h
        exact .cons (apply_ok_iff.mp hu) (ih.mp h)
    · intro h
      cases h with
      | cons he hr =>
        rw [applyAll_cons_ok (apply_ok_iff.mpr he)]
        exact ih.mpr hr

/-- The error is that of the first edit that does not fit. -/
theorem applyAll_error_iff : d.applyAll edits = .error e ↔ d.FailsWith edits e := by
  induction edits generalizing d with
  | nil =>
    constructor
    · intro h
      cases h
    · rintro ⟨before, edit, after, u, hl, _⟩
      exact absurd hl (by simp)
  | cons edit edits ih =>
    constructor
    · intro h
      cases hu : d.apply edit with
      | error e' =>
        rw [applyAll_cons_error hu] at h
        cases h
        exact ⟨[], edit, edits, d, rfl, .nil d, apply_error_iff.mp hu⟩
      | ok u =>
        rw [applyAll_cons_ok hu] at h
        obtain ⟨before, edit', after, v, rfl, hb, hm⟩ := ih.mp h
        exact ⟨edit :: before, edit', after, v, rfl, .cons (apply_ok_iff.mp hu) hb, hm⟩
    · rintro ⟨before, edit', after, v, hl, hb, hm⟩
      cases hb with
      | nil =>
        obtain ⟨rfl, rfl⟩ := List.cons.inj hl
        exact applyAll_cons_error (apply_error_iff.mpr hm)
      | @cons _ u _ edit'' before he hr =>
        obtain ⟨rfl, rfl⟩ := List.cons.inj hl
        rw [applyAll_cons_ok (apply_ok_iff.mpr he)]
        exact ih.mpr ⟨before, edit', after, v, rfl, hr, hm⟩

theorem becomes_or_fails (d : Document) (edits : List TextChange) :
    (∃ d', d.Becomes edits d') ∨ ∃ e, d.FailsWith edits e := by
  cases hd : d.applyAll edits with
  | ok d' => exact Or.inl ⟨d', applyAll_ok_iff.mp hd⟩
  | error e => exact Or.inr ⟨e, applyAll_error_iff.mp hd⟩

end Document

end DocSync
