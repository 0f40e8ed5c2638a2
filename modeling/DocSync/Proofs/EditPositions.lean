import DocSync.Proofs.DocumentEdits
import DocSync.Proofs.SharedPositions

/-!
An edit replaces what stands between two places of the slice. The valid positions address, in their
order, all places between its characters but the one inside of a pair; so an edit fits exactly where
both of its ends are valid and in order, and one that does not fit says which end is at fault.
-/

namespace DocSync

namespace Text

variable {pre post pre' post' ys : List Char}

theorem exists_between (h : pre ++ post = pre' ++ post') (hle : pre.length ≤ pre'.length) :
    ∃ mid, pre' = pre ++ mid ∧ post = mid ++ post' := by
  obtain ⟨mid, rfl⟩ : pre <+: pre' := List.prefix_of_prefix_length_le
    (List.prefix_append pre post) (h ▸ List.prefix_append pre' post') hle
  rw [List.append_assoc] at h
  exact ⟨mid, rfl, List.append_cancel_left h⟩

/-- Between a carriage return and the line feed that goes with it. -/
def InsidePair (text : List Char) (i : Nat) : Prop :=
  ∃ k, i = k + 1 ∧ text[k]? = some '\r' ∧ text[k + 1]? = some '\n'

theorem meet_iff (pre post : List Char) : Meet pre post ↔ ¬InsidePair (pre ++ post) pre.length := by
  apply not_congr
  constructor
  · rintro ⟨hcr, hlf⟩
    obtain ⟨front, rfl⟩ := List.getLast?_eq_some_iff.mp hcr
    obtain ⟨back, rfl⟩ := List.head?_eq_some_iff.mp hlf
    refine ⟨front.length, by simp, ?_, ?_⟩
    · simp
    · simp
  · rintro ⟨k, hk, hcr, hlf⟩
    constructor
    · rw [List.getElem?_append_left (by omega)] at hcr
      rwa [List.getLast?_eq_getElem?, hk, Nat.add_sub_cancel]
    · rw [List.getElem?_append_right (by omega)] at hlf
      rwa [hk, Nat.sub_self, ← List.head?_eq_getElem?] at hlf

theorem lastColumn_append_unbroken (h : breakCount ys = 0) (xs : List Char) :
    lastColumn (xs ++ ys) = lastColumn xs + ys.length := by
  have hall : ∀ c ∈ ys.reverse, (!isBreak c) = true := by
    intro c hc
    rw [breakCount_eq_zero.mp h c (List.mem_reverse.mp hc)]
    rfl
  rw [lastColumn, lastColumn, List.reverse_append, List.takeWhile_append_of_pos hall,
    List.length_append, List.length_reverse, Nat.add_comm]

end Text

namespace Document

open Text

variable {d d' : Document} {p q : EditorPosition} {i j : Nat} {edit : TextChange}

/-- A position on a visible line, at most right behind its content. -/
def HasPosition (d : Document) (p : EditorPosition) : Prop :=
  ∃ content, d.line? p.line = some content ∧ 1 ≤ p.column.toNat ∧
    p.column.toNat ≤ content.length + 1

/-- The valid positions are, in their order, all places in the slice but those inside of a pair. -/
structure Addresses (d : Document) : Prop where
  valid : ∀ p, (∃ i, d.index? p = some i) ↔ d.HasPosition p
  ordered : ∀ p q i j, d.index? p = some i → d.index? q = some j → (p < q ↔ i < j)
  cell : ∀ p i, d.index? p = some i → i ≤ d.visible.length ∧ ¬InsidePair d.visible i
  onto : ∀ i, i ≤ d.visible.length → ¬InsidePair d.visible i → ∃! p, d.index? p = some i

/-- What comes of one edit. -/
structure Answers (d : Document) (edit : TextChange) : Prop where
  fits : (∃ d', d.apply edit = .ok d') ↔
    d.HasPosition edit.range.start ∧ d.HasPosition edit.range.stop ∧
      edit.range.start ≤ edit.range.stop
  spliced : ∀ d', d.apply edit = .ok d' → ∃ i j, d.index? edit.range.start = some i ∧
    d.index? edit.range.stop = some j ∧
    d'.visible = d.visible.take i ++ edit.text.toList ++ d.visible.drop j ∧
    d'.before = d.before ∧ d'.after = d.after ∧ d'.lineOffset = d.lineOffset
  startOutside : ¬d.HasPosition edit.range.start →
    d.apply edit = .error (.outOfBounds edit.range.start)
  stopOutside : d.HasPosition edit.range.start → ¬d.HasPosition edit.range.stop →
    d.apply edit = .error (.outOfBounds edit.range.stop)
  inverted : d.HasPosition edit.range.start → d.HasPosition edit.range.stop →
    ¬edit.range.start ≤ edit.range.stop → d.apply edit = .error (.inverted edit.range)
  unchanged : ∀ e, d.apply edit = .error e → d.applyEach [edit] = (d, some e)

theorem hasPosition_iff : d.HasPosition p ↔ ∃ i, d.index? p = some i := by
  simp only [HasPosition, line?, index?, count_eq_zero]
  by_cases hzero : p.line.toNat = 0 ∨ p.column.toNat = 0
  · rw [if_pos hzero]
    constructor
    · rintro ⟨content, hcontent, hcolumn, _⟩
      rcases hzero with hline | hcolumn'
      · rw [if_pos hline] at hcontent
        cases hcontent
      · omega
    · rintro ⟨i, hi⟩
      cases hi
  · rw [if_neg hzero, if_neg (fun hline => hzero (Or.inl hline)), cellIndex?]
    cases row? d.visible (p.line.toNat - 1) with
    | none => simp
    | some content =>
      constructor
      · rintro ⟨_, hcontent, _, hle⟩
        obtain rfl := Option.some.inj hcontent
        exact ⟨_, if_pos (by omega)⟩
      · rintro ⟨i, hi⟩
        refine ⟨content, rfl, by omega, ?_⟩
        by_contra hlt
        have hcolumn : ¬p.column.toNat - 1 ≤ content.length := by omega
        simp only [if_neg hcolumn] at hi
        cases hi

theorem lt_of_index?_lt (hp : d.index? p = some i) (hq : d.index? q = some j) (h : i < j) :
    p < q := by
  obtain ⟨pre, post, hv, hm, rfl, hline, hcolumn⟩ := index?_eq_some.mp hp
  obtain ⟨pre', post', hv', hm', rfl, hline', hcolumn'⟩ := index?_eq_some.mp hq
  obtain ⟨mid, rfl, rfl⟩ := exists_between (hv.symm.trans hv') (Nat.le_of_lt h)
  rw [breakCount_append hm.of_append_right] at hline'
  rw [EditorPosition.lt_iff]
  by_cases hmid : breakCount mid = 0
  · rw [lastColumn_append_unbroken hmid] at hcolumn'
    rw [List.length_append] at h
    omega
  · omega

theorem index?_inj (hp : d.index? p = some i) (hq : d.index? q = some i) : p = q := by
  obtain ⟨pre, post, hv, _, hi, hline, hcolumn⟩ := index?_eq_some.mp hp
  obtain ⟨pre', post', hv', _, hi', hline', hcolumn'⟩ := index?_eq_some.mp hq
  obtain ⟨rfl, rfl⟩ := List.append_inj (hv.symm.trans hv') (hi.trans hi'.symm)
  exact EditorPosition.eq_of_toNat (hline.trans hline'.symm) (hcolumn.trans hcolumn'.symm)

theorem lt_iff_index?_lt (hp : d.index? p = some i) (hq : d.index? q = some j) :
    p < q ↔ i < j := by
  constructor
  · intro h
    rcases Nat.lt_trichotomy i j with hlt | rfl | hgt
    · exact hlt
    · rw [index?_inj hp hq, EditorPosition.lt_iff] at h
      omega
    · have hback := lt_of_index?_lt hq hp hgt
      rw [EditorPosition.lt_iff] at h hback
      omega
  · exact lt_of_index?_lt hp hq

theorem le_iff_index?_le (hp : d.index? p = some i) (hq : d.index? q = some j) :
    p ≤ q ↔ i ≤ j := by
  rw [← Nat.not_lt, ← lt_iff_index?_lt hq hp, EditorPosition.lt_iff, EditorPosition.le_iff]
  omega

theorem addresses (hd : d.visible.length < 2 ^ 32 - 1) : d.Addresses where
  valid p := hasPosition_iff.symm
  ordered p q i j hp hq := lt_iff_index?_lt hp hq
  cell p i hp := by
    obtain ⟨pre, post, hv, hm, rfl, _, _⟩ := index?_eq_some.mp hp
    rw [hv, ← meet_iff]
    refine ⟨?_, hm⟩
    rw [List.length_append]
    omega
  onto i hi hcell := by
    have hlength : (d.visible.take i).length = i := List.length_take_of_le hi
    have hm : Meet (d.visible.take i) (d.visible.drop i) := by
      rwa [meet_iff, List.take_append_drop, hlength]
    obtain ⟨p, hp, _, _⟩ := exists_index? hd (List.take_append_drop i d.visible).symm hm
    rw [hlength] at hp
    exact ⟨p, hp, fun q hq => index?_inj hq hp⟩

theorem answers (d : Document) (edit : TextChange) : d.Answers edit where
  fits := by
    rw [hasPosition_iff, hasPosition_iff]
    constructor
    · rintro ⟨d', h⟩
      obtain ⟨i, j, hi, hj, hle, _⟩ := apply_ok_iff.mp h
      exact ⟨⟨i, hi⟩, ⟨j, hj⟩, (le_iff_index?_le hi hj).mpr hle⟩
    · rintro ⟨⟨i, hi⟩, ⟨j, hj⟩, hle⟩
      exact ⟨_, apply_ok_iff.mpr ⟨i, j, hi, hj, (le_iff_index?_le hi hj).mp hle, rfl⟩⟩
  spliced d' h := by
    obtain ⟨i, j, hi, hj, _, rfl⟩ := apply_ok_iff.mp h
    exact ⟨i, j, hi, hj, rfl, rfl, rfl, rfl⟩
  startOutside hstart := by
    rw [hasPosition_iff, ← Option.isSome_iff_exists, Option.not_isSome_iff_eq_none] at hstart
    exact apply_error_iff.mpr (.start hstart)
  stopOutside hstart hstop := by
    obtain ⟨i, hi⟩ := hasPosition_iff.mp hstart
    rw [hasPosition_iff, ← Option.isSome_iff_exists, Option.not_isSome_iff_eq_none] at hstop
    exact apply_error_iff.mpr (.stop hi hstop)
  inverted hstart hstop horder := by
    obtain ⟨i, hi⟩ := hasPosition_iff.mp hstart
    obtain ⟨j, hj⟩ := hasPosition_iff.mp hstop
    rw [le_iff_index?_le hi hj, Nat.not_le] at horder
    exact apply_error_iff.mpr (.inverted hi hj horder)
  unchanged e h := by rw [applyEach, h]

/-- Valid positions are the places in the slice, in order, and an edit is a splice between two of
them. -/
theorem edits_splice (d : Document) (hd : d.visible.length < 2 ^ 32 - 1) :
    d.Addresses ∧ ∀ edit, d.Answers edit :=
  ⟨addresses hd, d.answers⟩

/-- A pair, then a carriage return of its own, and an empty last line. -/
def mixedBreaks : Document := ⟨['h', '\n'], ['a', '\r', '\n', '\r', 'b', '\n'], []⟩

theorem mixedBreaks_spliced : mixedBreaks.visible.length < 2 ^ 32 - 1 ∧
    mixedBreaks.index? ⟨3, 1⟩ = some 4 ∧ mixedBreaks.index? ⟨4, 1⟩ = some 6 ∧
    (∃! p, mixedBreaks.index? p = some 3) ∧
    mixedBreaks.apply ⟨⟨⟨4, 1⟩, ⟨3, 1⟩⟩, 0, "x"⟩ = .error (.inverted ⟨⟨4, 1⟩, ⟨3, 1⟩⟩) := by
  obtain ⟨haddresses, hanswers⟩ := edits_splice mixedBreaks (by decide)
  refine ⟨by decide, by decide, by decide, haddresses.onto 3 (by decide) ?_, ?_⟩
  · rintro ⟨k, hk, hcr, _⟩
    obtain rfl : k = 2 := by omega
    exact absurd hcr (by decide)
  · exact (hanswers _).inverted ⟨[], by decide⟩ ⟨['b'], by decide⟩ (by decide)

end Document

end DocSync
