import DocSync.Document
import DocSync.Proofs.TextCells
import Mathlib.Algebra.Group.Nat.Defs

/-!
Editor and server address the same character. A position of the editor is one of the visible slice;
shifted, it is one of the whole text. Both are cells, that is, cuts of a text, and they are the same
cut of the whole text exactly where the three parts of the document meet between lines, as far as
the first seam goes, and between breaks, as far as both go.
-/

namespace DocSync.Document

open Text

variable {d : Document} {p : EditorPosition} {s : ServerPosition} {i : Nat} {pre post : List Char}

/-- The index in the whole text that a position of the server addresses. -/
def serverIndex? (d : Document) (s : ServerPosition) : Option Nat :=
  if s.line = 0 then none else cellIndex? d.fullText (s.line.toNat - 1) s.column.toNat

/-- Every position in the visible slice is shifted to one that is valid in the whole text and
addresses the same character. -/
def IsShared (d : Document) : Prop :=
  ∀ p i, d.index? p = some i →
    d.serverIndex? (d.shift.toServer p) = some (d.before.length + i)

/-- The slice starts at the start of a line of the whole text, and neither of its ends is inside of
a break. -/
structure SeamsHold (d : Document) : Prop where
  starts : d.before = [] ∨ d.before.getLast? = some '\n' ∨
    d.before.getLast? = some '\r' ∧ (d.visible ++ d.after).head? ≠ some '\n'
  stops : ¬(d.visible.getLast? = some '\r' ∧ d.after.head? = some '\n')

theorem count_eq_zero {n : Count} : n = 0 ↔ n.toNat = 0 := UInt32.toNat_inj.symm

theorem index?_eq_some : d.index? p = some i ↔
    ∃ pre post, d.visible = pre ++ post ∧ Meet pre post ∧ pre.length = i ∧
      p.line.toNat = breakCount pre + 1 ∧ p.column.toNat = lastColumn pre + 1 := by
  simp only [index?, count_eq_zero]
  constructor
  · intro h
    split at h
    · cases h
    · next hp =>
      obtain ⟨pre, post, htext, hm, hi, hrow, hcolumn⟩ := cellIndex?_eq_some.mp h
      exact ⟨pre, post, htext, hm, hi, by omega, by omega⟩
  · rintro ⟨pre, post, htext, hm, hi, hline, hcolumn⟩
    rw [if_neg (by omega)]
    exact cellIndex?_eq_some.mpr ⟨pre, post, htext, hm, hi, by omega, by omega⟩

theorem serverIndex?_eq_some : d.serverIndex? s = some i ↔
    ∃ pre post, d.fullText = pre ++ post ∧ Meet pre post ∧ pre.length = i ∧
      s.line.toNat = breakCount pre + 1 ∧ s.column.toNat = lastColumn pre := by
  simp only [serverIndex?, count_eq_zero]
  constructor
  · intro h
    split at h
    · cases h
    · next hs =>
      obtain ⟨pre, post, htext, hm, hi, hrow, hcolumn⟩ := cellIndex?_eq_some.mp h
      exact ⟨pre, post, htext, hm, hi, by omega, by omega⟩
  · rintro ⟨pre, post, htext, hm, hi, hline, hcolumn⟩
    rw [if_neg (by omega)]
    exact cellIndex?_eq_some.mpr ⟨pre, post, htext, hm, hi, by omega, by omega⟩

theorem shifted (hd : d.fullText.length < 2 ^ 32 - 1) (hv : d.visible = pre ++ post)
    (hline : p.line.toNat = breakCount pre + 1) :
    (d.shift.toServer p).line.toNat = breakCount d.before + p.line.toNat ∧
      (d.shift.toServer p).column.toNat = p.column.toNat - 1 := by
  have hbefore := breakCount_le d.before
  have hpre := breakCount_le pre
  simp only [fullText, hv, List.length_append] at hd
  constructor
  · simp only [LineShift.toServer, shift, lineOffset, Count.toNat_plus, Count.toNat_clamp]
    omega
  · exact Count.toNat_minus _ _

theorem exists_index? (hd : d.visible.length < 2 ^ 32 - 1) (hv : d.visible = pre ++ post)
    (hm : Meet pre post) : ∃ p, d.index? p = some pre.length ∧
      p.line.toNat = breakCount pre + 1 ∧ p.column.toNat = lastColumn pre + 1 := by
  have hrow := breakCount_le pre
  have hcolumn := lastColumn_le pre
  rw [hv, List.length_append] at hd
  have hline : (Count.clamp (breakCount pre + 1)).toNat = breakCount pre + 1 := by
    rw [Count.toNat_clamp]
    omega
  have hcell : (Count.clamp (lastColumn pre + 1)).toNat = lastColumn pre + 1 := by
    rw [Count.toNat_clamp]
    omega
  exact ⟨⟨_, _⟩, index?_eq_some.mpr ⟨pre, post, hv, hm, rfl, hline, hcell⟩, hline, hcell⟩

/-- Positions are shared where every cut of the slice is a cut of the whole text, with the hidden
lines above it and in the same column. -/
theorem isShared_iff_cuts (hd : d.fullText.length < 2 ^ 32 - 1) :
    d.IsShared ↔ ∀ pre post, d.visible = pre ++ post → Meet pre post →
      Meet (d.before ++ pre) (post ++ d.after) ∧
        breakCount (d.before ++ pre) = breakCount d.before + breakCount pre ∧
        lastColumn (d.before ++ pre) = lastColumn pre := by
  constructor
  · intro h pre post hv hm
    have hslice : d.visible.length < 2 ^ 32 - 1 := by
      simp only [fullText, List.length_append] at hd
      omega
    obtain ⟨p, hp, hline, hcolumn⟩ := exists_index? hslice hv hm
    obtain ⟨hrow, hcell⟩ := shifted hd hv hline
    obtain ⟨pre', post', htext, hm', hlength, hline', hcolumn'⟩ :=
      serverIndex?_eq_some.mp (h p pre.length hp)
    have htext' : (d.before ++ pre) ++ (post ++ d.after) = pre' ++ post' := by
      rw [← htext, fullText, hv]
      simp only [List.append_assoc]
    obtain ⟨rfl, rfl⟩ := List.append_inj htext' (by rw [hlength, List.length_append])
    exact ⟨hm', by omega, by omega⟩
  · intro h p i hp
    obtain ⟨pre, post, hv, hm, rfl, hline, hcolumn⟩ := index?_eq_some.mp hp
    obtain ⟨hrow, hcell⟩ := shifted hd hv hline
    obtain ⟨hm', hbreaks, hlast⟩ := h pre post hv hm
    refine serverIndex?_eq_some.mpr ⟨d.before ++ pre, post ++ d.after, ?_, hm', ?_, ?_, ?_⟩
    · simp only [fullText, hv, List.append_assoc]
    · exact List.length_append
    · omega
    · omega

theorem SeamsHold.meet_before (h : d.SeamsHold) : Meet d.before (d.visible ++ d.after) := by
  rintro ⟨hcr, hlf⟩
  rcases h.starts with hnil | hend | ⟨_, hnot⟩
  · rw [hnil] at hcr
    cases hcr
  · rw [hend] at hcr
    exact absurd hcr (by decide)
  · exact hnot hlf

theorem SeamsHold.lastColumn_before (h : d.SeamsHold) : lastColumn d.before = 0 := by
  rw [lastColumn_eq_zero]
  intro c hc
  rcases h.starts with hnil | hend | ⟨hend, _⟩
  · rw [hnil] at hc
    cases hc
  · obtain rfl := Option.some.inj (hend.symm.trans hc)
    rfl
  · obtain rfl := Option.some.inj (hend.symm.trans hc)
    rfl

theorem SeamsHold.meet (h : d.SeamsHold) (hv : d.visible = pre ++ post) (hm : Meet pre post) :
    Meet (d.before ++ pre) (post ++ d.after) := by
  have hbefore : Meet d.before (pre ++ (post ++ d.after)) := by
    rw [← List.append_assoc, ← hv]
    exact h.meet_before
  have hafter : Meet (pre ++ post) d.after := by
    rw [← hv]
    exact h.stops
  exact hbefore.append_left (hafter.append_right hm)

theorem seamsHold_of_cuts
    (hstart : Meet d.before (d.visible ++ d.after) ∧ lastColumn d.before = 0)
    (hstop : Meet (d.before ++ d.visible) d.after) : d.SeamsHold where
  starts := by
    obtain ⟨hm, hcolumn⟩ := hstart
    rcases hlast : d.before.getLast? with _ | c
    · exact Or.inl (List.getLast?_eq_none_iff.mp hlast)
    · rcases isBreak_iff.mp (lastColumn_eq_zero.mp hcolumn c hlast) with rfl | rfl
      · exact Or.inr (Or.inl rfl)
      · exact Or.inr (Or.inr ⟨rfl, fun hlf => hm ⟨hlast, hlf⟩⟩)
  stops := hstop.of_append_left

theorem isShared_iff (hd : d.fullText.length < 2 ^ 32 - 1) : d.IsShared ↔ d.SeamsHold := by
  rw [isShared_iff_cuts hd]
  constructor
  · intro h
    have hfirst := h [] d.visible rfl (meet_nil _)
    have hlast := h d.visible [] (List.append_nil _).symm (meet_end _)
    rw [List.append_nil] at hfirst
    exact seamsHold_of_cuts ⟨hfirst.1, hfirst.2.2⟩ hlast.1
  · intro h pre post hv hm
    have hbefore : Meet d.before pre := by
      have hall := h.meet_before
      rw [hv, List.append_assoc] at hall
      exact hall.of_append_right
    exact ⟨h.meet hv hm, breakCount_append hbefore, lastColumn_append h.lastColumn_before pre⟩

/-- The shift is exact exactly where the seams hold, as they do where the text above ends with a
line feed and the slice ends with no carriage return. -/
theorem positions_shared (d : Document) (hd : d.fullText.length < 2 ^ 32 - 1) :
    (d.IsShared ↔ d.SeamsHold) ∧
      (d.before.getLast? = some '\n' → d.visible.getLast? ≠ some '\r' → d.IsShared) := by
  refine ⟨isShared_iff hd, fun hbefore hvisible => ?_⟩
  rw [isShared_iff hd]
  exact ⟨Or.inr (Or.inl hbefore), fun hcr => hvisible hcr.1⟩

/-- The text above ends with a carriage return, and so does the slice, which starts with a pair. -/
def returnsDocument : Document := ⟨['a', '\r'], ['\r', '\n', 'b', '\r'], ['c']⟩

theorem returnsDocument_shared : returnsDocument.IsShared := by
  have hseams : returnsDocument.SeamsHold :=
    ⟨Or.inr (Or.inr ⟨rfl, by decide⟩), by decide⟩
  exact (positions_shared returnsDocument (by decide)).1.mpr hseams

-- The hidden half of a pair counts as a break of its own, so the whole text has one break less.
example : ¬(⟨['a', '\r'], ['\n'], []⟩ : Document).IsShared := by
  rw [isShared_iff (by decide)]
  intro h
  exact absurd h.meet_before fun hm => hm (by decide)

end DocSync.Document
