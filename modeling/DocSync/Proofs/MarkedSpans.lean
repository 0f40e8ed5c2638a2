import DocSync.Diagnostics.Marker
import DocSync.Diagnostics.Panel
import DocSync.Proofs.LineShifts

/-!
The goal panel and the markers of the slice. The panel asks in positions of the whole text whether a
message is at the cursor, the marker of the message is a span of the slice, and the two agree on
every cursor.
-/

namespace DocSync

namespace ServerMessage

variable {m : ServerMessage} {stop : ServerPosition} {q : ServerPosition} {p : EditorPosition}
  {shift : LineShift}

/-- The message has an end line and no end column. -/
def HalfReported (m : ServerMessage) : Prop :=
  (∃ last, m.endLine = some last ∧ 0 < last) ∧ m.endColumn = none

/-- The line where the message ends, or starts if it has no end. -/
def lastLine (m : ServerMessage) : Count := (m.stop?.getD m.start).line

/-- The span takes in a position. Its end is included, and for a message without an end the rest of
its line is. -/
def TakesIn (m : ServerMessage) (range : EditorRange) (p : EditorPosition) : Prop :=
  match m.stop? with
  | some _ => range.start ≤ p ∧ p ≤ range.stop
  | none => p.line = range.start.line ∧ range.start.column ≤ p.column

/-- The message has a marker in the slice, and its span takes in the position. -/
def MarkedAt (m : ServerMessage) (shift : LineShift) (p : EditorPosition) : Prop :=
  ∃ marker, Marker.ofMessage? m shift = some marker ∧ m.TakesIn marker.range p

theorem stop?_eq_some : m.stop? = some stop ↔
    m.endLine = some stop.line ∧ m.endColumn = some stop.column ∧ 0 < stop.line := by
  unfold stop?
  split
  next line column hline hcolumn =>
    rw [hline, hcolumn]
    split
    next hpos =>
      constructor
      · intro h
        obtain rfl := Option.some.inj h
        exact ⟨rfl, rfl, hpos⟩
      · rintro ⟨hl, hc, -⟩
        obtain rfl := Option.some.inj hl
        obtain rfl := Option.some.inj hc
        rfl
    next hzero =>
      constructor
      · intro h
        cases h
      · rintro ⟨hl, -, hpos⟩
        obtain rfl := Option.some.inj hl
        exact absurd hpos hzero
  next hnot =>
    constructor
    · intro h
      cases h
    · rintro ⟨hl, hc, -⟩
      exact absurd hc (hnot _ _ hl)

theorem endLine_filter_eq_none (hwhole : ¬m.HalfReported) (hstop : m.stop? = none) :
    (m.endLine.filter fun l => decide (0 < l)) = none := by
  rw [Option.filter_eq_none_iff]
  intro last hlast hpos
  apply hwhole
  refine ⟨⟨last, hlast, of_decide_eq_true hpos⟩, ?_⟩
  cases hcolumn : m.endColumn with
  | none => rfl
  | some column =>
    have hsome : m.stop? = some ⟨last, column⟩ :=
      stop?_eq_some.mpr ⟨hlast, hcolumn, of_decide_eq_true hpos⟩
    rw [hstop] at hsome
    cases hsome

theorem covers_iff_of_stop (hstop : m.stop? = some stop) :
    m.covers q = true ↔ m.start ≤ q ∧ q ≤ stop := by
  obtain ⟨hline, hcolumn, hpos⟩ := stop?_eq_some.mp hstop
  have hend : (m.endLine.filter fun l => decide (0 < l)) = some stop.line := by
    rw [hline, Option.filter_some, if_pos (decide_eq_true hpos)]
  simp only [covers, hend, hcolumn, Option.any_some, Bool.and_eq_true, Bool.or_eq_true,
    decide_eq_true_eq, bne_iff_ne, ne_eq, Option.some.injEq, ServerPosition.le_iff, start,
    UInt32.le_iff_toNat_le, ← UInt32.toNat_inj]
  omega

theorem covers_iff_of_point (hwhole : ¬m.HalfReported) (hstop : m.stop? = none) :
    m.covers q = true ↔ q.line = m.line ∧ m.column ≤ q.column := by
  simp only [covers, endLine_filter_eq_none hwhole hstop, Bool.and_eq_true, Bool.or_eq_true,
    decide_eq_true_eq, bne_iff_ne, ne_eq, beq_iff_eq, reduceCtorEq, not_false_eq_true, true_or,
    and_true, UInt32.le_iff_toNat_le, ← UInt32.toNat_inj]
  omega

theorem ofMessage?_eq_none : Marker.ofMessage? m shift = none ↔ Marker.range? m shift = none := by
  rw [Marker.ofMessage?, Option.map_eq_none_iff]

theorem markedAt_iff :
    m.MarkedAt shift p ↔ ∃ range, Marker.range? m shift = some range ∧ m.TakesIn range p := by
  rw [MarkedAt, Marker.ofMessage?]
  simp only [Option.map_eq_some_iff]
  constructor
  · rintro ⟨_, ⟨range, hrange, rfl⟩, htakes⟩
    exact ⟨range, hrange, htakes⟩
  · rintro ⟨range, hrange, htakes⟩
    exact ⟨_, ⟨range, hrange, rfl⟩, htakes⟩

theorem range?_of_stop (hstop : m.stop? = some stop) : Marker.range? m shift =
    (shift.toEditor stop).map fun stop => ⟨shift.toEditorClamped m.start, stop⟩ := by
  rw [Marker.range?, hstop]

theorem range?_of_point (hstop : m.stop? = none) :
    Marker.range? m shift = (shift.toEditor m.start).map EditorRange.point := by
  rw [Marker.range?, hstop]

theorem range?_cases {range : EditorRange} (h : Marker.range? m shift = some range) :
    (∃ stop, m.stop? = some stop ∧ shift.toEditor stop = some range.stop ∧
        range.start = shift.toEditorClamped m.start) ∨
      (m.stop? = none ∧ shift.toEditor m.start = some range.start ∧ range.stop = range.start) := by
  cases hstop : m.stop? with
  | some stop =>
    rw [range?_of_stop hstop] at h
    obtain ⟨last, hlast, rfl⟩ := Option.map_eq_some_iff.mp h
    exact .inl ⟨stop, rfl, hlast, rfl⟩
  | none =>
    rw [range?_of_point hstop] at h
    obtain ⟨first, hfirst, rfl⟩ := Option.map_eq_some_iff.mp h
    exact .inr ⟨rfl, hfirst, rfl⟩

theorem counted_range {range : EditorRange} (h : Marker.range? m shift = some range) :
    range.start.Counted ∧ range.stop.Counted := by
  obtain ⟨stop, -, hstop, hstart⟩ | ⟨-, hstart, hstop⟩ := range?_cases h
  · rw [hstart]
    exact ⟨shift.counted_toEditorClamped m.start, LineShift.counted_toEditor hstop⟩
  · rw [hstop]
    exact ⟨LineShift.counted_toEditor hstart, LineShift.counted_toEditor hstart⟩

theorem range_start_le {range : EditorRange} (hm : ∀ stop, m.stop? = some stop → m.start ≤ stop)
    (h : Marker.range? m shift = some range) : range.start ≤ range.stop := by
  obtain ⟨stop, hstop, hlast, hstart⟩ | ⟨-, -, hstop⟩ := range?_cases h
  · have hmono := LineShift.toEditorClamped_mono (s := shift) (hm stop hstop)
    rw [LineShift.toEditorClamped_of_some hlast] at hmono
    rw [hstart]
    exact hmono
  · rw [hstop, EditorPosition.le_iff]
    exact .inr ⟨rfl, Nat.le_refl _⟩

theorem range?_eq_none : Marker.range? m shift = none ↔ m.lastLine ≤ shift.hidden := by
  rw [lastLine, UInt32.le_iff_toNat_le]
  cases hstop : m.stop? with
  | some stop =>
    rw [range?_of_stop hstop, Option.map_eq_none_iff, Option.getD_some]
    exact LineShift.toEditor_eq_none
  | none =>
    rw [range?_of_point hstop, Option.map_eq_none_iff, Option.getD_none]
    exact LineShift.toEditor_eq_none

theorem covers_iff_markedAt (hcolumn : m.column < Count.top) (hwhole : ¬m.HalfReported)
    (hp : shift.Carries p) : m.covers (shift.toServer p) = true ↔ m.MarkedAt shift p := by
  have hfirst : m.start.column.toNat < 4294967295 := UInt32.lt_iff_toNat_lt.mp hcolumn
  rw [markedAt_iff]
  unfold TakesIn
  cases hstop : m.stop? with
  | some stop =>
    rw [covers_iff_of_stop hstop, range?_of_stop hstop, ← hp.toEditorClamped_le_iff hfirst,
      hp.toServer_le_iff]
    constructor
    · rintro ⟨hstart, last, hlast, hle⟩
      refine ⟨⟨shift.toEditorClamped m.start, last⟩, ?_, hstart, hle⟩
      rw [hlast, Option.map_some]
    · rintro ⟨range, hrange, hstart, hle⟩
      obtain ⟨last, hlast, rfl⟩ := Option.map_eq_some_iff.mp hrange
      exact ⟨hstart, last, hlast, hle⟩
  | none =>
    rw [covers_iff_of_point hwhole hstop, range?_of_point hstop]
    constructor
    · intro hon
      obtain ⟨first, hfirst, hon⟩ := (hp.onLine_iff hfirst).mp hon
      refine ⟨.point first, ?_, hon⟩
      rw [hfirst, Option.map_some]
    · rintro ⟨range, hrange, hon⟩
      obtain ⟨first, hat, rfl⟩ := Option.map_eq_some_iff.mp hrange
      exact (hp.onLine_iff hfirst).mpr ⟨first, hat, hon⟩

theorem shownIn_iff_markedAt (hcolumn : m.column < Count.top) (hwhole : ¬m.HalfReported)
    (hp : shift.Carries p) (id : DocumentId) :
    m.shownIn .onlyState id (some (shift.toServer p)) = true ↔
      m.document = id ∧ m.MarkedAt shift p := by
  rw [← covers_iff_markedAt hcolumn hwhole hp, shownIn, Bool.and_eq_true, beq_iff_eq]

/-- The panel and the marker of a message agree at every cursor; the marker has its ends in cells of
the slice, in their order where the message has them in order, and there is none just where the
message ends above the slice. -/
theorem panel_agrees_with_marker (m : ServerMessage) (shift : LineShift)
    (hcolumn : m.column < Count.top) (hwhole : ¬m.HalfReported) :
    (∀ p, shift.Carries p → (m.covers (shift.toServer p) = true ↔ m.MarkedAt shift p)) ∧
      (∀ marker, Marker.ofMessage? m shift = some marker →
        marker.range.start.Counted ∧ marker.range.stop.Counted ∧
          ((∀ stop, m.stop? = some stop → m.start ≤ stop) →
            marker.range.start ≤ marker.range.stop)) ∧
      (Marker.ofMessage? m shift = none ↔ m.lastLine ≤ shift.hidden) := by
  refine ⟨fun p hp => covers_iff_markedAt hcolumn hwhole hp, ?_, ?_⟩
  · intro marker hmarker
    obtain ⟨range, hrange, rfl⟩ := Option.map_eq_some_iff.mp hmarker
    obtain ⟨hstart, hstop⟩ := counted_range hrange
    exact ⟨hstart, hstop, fun hm => range_start_le hm hrange⟩
  · rw [ofMessage?_eq_none, range?_eq_none]

/-- An error that starts above a slice behind four hidden lines and ends in its second line. -/
def straddling : ServerMessage :=
  ⟨⟨"a"⟩, 2, 5, some 6, some 2, .error, "unsolved goals", "error"⟩

theorem straddling_agrees : straddling.column < Count.top ∧ ¬straddling.HalfReported ∧
    straddling.MarkedAt ⟨4⟩ ⟨1, 7⟩ ∧ straddling.MarkedAt ⟨4⟩ ⟨2, 3⟩ ∧
    ¬straddling.MarkedAt ⟨4⟩ ⟨2, 4⟩ ∧ (Marker.ofMessage? straddling ⟨4⟩).isSome = true := by
  have hwhole : ¬straddling.HalfReported := by
    rintro ⟨-, hnone⟩
    cases hnone
  have hcarried (line column : Count) (h : 1 ≤ line.toNat ∧ 1 ≤ column.toNat)
      (hline : line.toNat ≤ 2) : LineShift.Carries ⟨4⟩ ⟨line, column⟩ := by
    refine ⟨h, ?_⟩
    change line.toNat + 4 ≤ _
    omega
  obtain ⟨hcovered, -, hnone⟩ := panel_agrees_with_marker straddling ⟨4⟩ (by decide) hwhole
  refine ⟨by decide, hwhole, ?_, ?_, ?_, ?_⟩
  · exact (hcovered _ (hcarried 1 7 (by decide) (by decide))).mp rfl
  · exact (hcovered _ (hcarried 2 3 (by decide) (by decide))).mp rfl
  · intro hmarked
    have hlists := (hcovered _ (hcarried 2 4 (by decide) (by decide))).mpr hmarked
    exact absurd hlists (by decide)
  · rw [Option.isSome_iff_ne_none]
    intro h
    exact absurd (hnone.mp h) (by decide)

end ServerMessage

end DocSync
