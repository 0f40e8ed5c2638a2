import DocSync.Count

/-!
The two coordinate systems and the shift between them.

The editor shows a slice of a larger text and counts lines and columns of that slice from one.
The server sees the whole text and counts its lines from one and its columns from zero. A
`LineShift` holds the number of lines hidden above the slice; every position that crosses the
boundary goes through it.
-/

namespace DocSync

/-- A position in the visible slice; line and column count from one. -/
structure EditorPosition where
  line : Count
  column : Count
  deriving DecidableEq, Repr, Inhabited

/-- A position in the whole text; lines count from one and columns from zero. -/
structure ServerPosition where
  line : Count
  column : Count
  deriving DecidableEq, Repr, Inhabited

/-- How positions are shown: line, colon, column. -/
def showCell (line column : Count) : String :=
  toString line.toNat ++ ":" ++ toString column.toNat

namespace EditorPosition

def order (p q : EditorPosition) : Ordering :=
  (compare p.line.toNat q.line.toNat).then (compare p.column.toNat q.column.toNat)

instance : LE EditorPosition where
  le p q := p.line < q.line ∨ p.line = q.line ∧ p.column ≤ q.column

instance : LT EditorPosition where
  lt p q := p.line < q.line ∨ p.line = q.line ∧ p.column < q.column

instance (p q : EditorPosition) : Decidable (p ≤ q) :=
  inferInstanceAs (Decidable (_ ∨ _))

instance (p q : EditorPosition) : Decidable (p < q) :=
  inferInstanceAs (Decidable (_ ∨ _))

def display (p : EditorPosition) : String := showCell p.line p.column

theorem eq_of_toNat {p q : EditorPosition} (hline : p.line.toNat = q.line.toNat)
    (hcolumn : p.column.toNat = q.column.toNat) : p = q := by
  cases p
  cases q
  rw [mk.injEq]
  exact ⟨UInt32.toNat_inj.mp hline, UInt32.toNat_inj.mp hcolumn⟩

theorem lt_iff {p q : EditorPosition} : p < q ↔ p.line.toNat < q.line.toNat ∨
    p.line.toNat = q.line.toNat ∧ p.column.toNat < q.column.toNat := by
  rw [← UInt32.lt_iff_toNat_lt, ← UInt32.lt_iff_toNat_lt, UInt32.toNat_inj]
  rfl

theorem le_iff {p q : EditorPosition} : p ≤ q ↔ p.line.toNat < q.line.toNat ∨
    p.line.toNat = q.line.toNat ∧ p.column.toNat ≤ q.column.toNat := by
  rw [← UInt32.lt_iff_toNat_lt, ← UInt32.le_iff_toNat_le, UInt32.toNat_inj]
  rfl

end EditorPosition

namespace ServerPosition

instance : LE ServerPosition where
  le p q := p.line < q.line ∨ p.line = q.line ∧ p.column ≤ q.column

instance : LT ServerPosition where
  lt p q := p.line < q.line ∨ p.line = q.line ∧ p.column < q.column

instance (p q : ServerPosition) : Decidable (p ≤ q) :=
  inferInstanceAs (Decidable (_ ∨ _))

instance (p q : ServerPosition) : Decidable (p < q) :=
  inferInstanceAs (Decidable (_ ∨ _))

def display (p : ServerPosition) : String := showCell p.line p.column

theorem eq_of_toNat {p q : ServerPosition} (hline : p.line.toNat = q.line.toNat)
    (hcolumn : p.column.toNat = q.column.toNat) : p = q := by
  cases p
  cases q
  rw [mk.injEq]
  exact ⟨UInt32.toNat_inj.mp hline, UInt32.toNat_inj.mp hcolumn⟩

theorem lt_iff {p q : ServerPosition} : p < q ↔ p.line.toNat < q.line.toNat ∨
    p.line.toNat = q.line.toNat ∧ p.column.toNat < q.column.toNat := by
  rw [← UInt32.lt_iff_toNat_lt, ← UInt32.lt_iff_toNat_lt, UInt32.toNat_inj]
  rfl

theorem le_iff {p q : ServerPosition} : p ≤ q ↔ p.line.toNat < q.line.toNat ∨
    p.line.toNat = q.line.toNat ∧ p.column.toNat ≤ q.column.toNat := by
  rw [← UInt32.lt_iff_toNat_lt, ← UInt32.le_iff_toNat_le, UInt32.toNat_inj]
  rfl

end ServerPosition

/-- A span of the visible slice, up to but not including its end. -/
structure EditorRange where
  start : EditorPosition
  stop : EditorPosition
  deriving DecidableEq, Repr, Inhabited

namespace EditorRange

def point (p : EditorPosition) : EditorRange := ⟨p, p⟩

def isEmpty (r : EditorRange) : Bool := r.start == r.stop

end EditorRange

/-- The number of lines hidden above the visible slice. -/
structure LineShift where
  hidden : Count
  deriving DecidableEq, Repr, Inhabited

namespace LineShift

def toServer (s : LineShift) (p : EditorPosition) : ServerPosition :=
  ⟨p.line.plus s.hidden, p.column.minus 1⟩

/-- Positions above the slice have no place in the editor. -/
def toEditor (s : LineShift) (p : ServerPosition) : Option EditorPosition :=
  if p.line ≤ s.hidden then none else some ⟨p.line.minus s.hidden, p.column.plus 1⟩

/-- Positions above the slice are moved to its first cell. -/
def toEditorClamped (s : LineShift) (p : ServerPosition) : EditorPosition :=
  (s.toEditor p).getD ⟨1, 1⟩

end LineShift

end DocSync
