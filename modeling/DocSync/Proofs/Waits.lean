import DocSync.Proofs.Lookup
import DocSync.Wait

/-!
What a wait knows about its callers. The outstanding wait is the latest and was not rejected, and a
rejection that was sent stays until it is collected.
-/

namespace DocSync.Wait

variable {w : Wait} {g : Nat}

theorem reject_answered (w : Wait) (reason : WaitError)
    (hg : w.outstanding = some g ∨ (w.rejections.lookup g).isSome = true) :
    (w.reject reason).outstanding = none ∧
      ((w.reject reason).rejections.lookup g).isSome = true := by
  rcases w with ⟨generation, outstanding, rejections⟩
  cases outstanding with
  | none =>
    rcases hg with hg | hg
    · cases hg
    · exact ⟨rfl, hg⟩
  | some o =>
    refine ⟨rfl, ?_⟩
    change ((rejections ++ [(o, reason)]).lookup g).isSome = true
    rw [Keyed.lookup_concat]
    rcases hg with hg | hg
    · obtain rfl : o = g := Option.some.inj hg
      rw [if_pos rfl]
      cases rejections.lookup o <;> rfl
    · obtain ⟨a, ha⟩ := Option.isSome_iff_exists.mp hg
      rw [ha]
      rfl

theorem reject_generation (w : Wait) (reason : WaitError) :
    (w.reject reason).generation = w.generation := by
  simp only [reject]
  split <;> rfl

theorem start_generation (w : Wait) : w.start.2 = w.generation + 1 :=
  congrArg (· + 1) (reject_generation w .superseded)

theorem reject_outstanding (w : Wait) (reason : WaitError) :
    (w.reject reason).outstanding = none := by
  rcases w with ⟨generation, outstanding, rejections⟩
  cases outstanding <;> rfl

theorem elapse_outstanding (hw : w.outstanding = none) (g : Nat) :
    (w.elapse g).outstanding = none := by
  simp only [elapse]
  split
  · rfl
  · exact hw

/-- The outstanding wait is the latest, and it was not rejected. -/
structure Tidy (w : Wait) : Prop where
  latest : ∀ g, w.outstanding = some g → g = w.generation
  bounded : ∀ g, (w.rejections.lookup g).isSome = true → g ≤ w.generation
  unanswered : ∀ g, w.outstanding = some g → w.rejections.lookup g = none

theorem lookup_reject (hw : w.Tidy) (reason : WaitError) (g : Nat) :
    (w.reject reason).rejections.lookup g =
      if w.outstanding = some g then some reason else w.rejections.lookup g := by
  cases ho : w.outstanding with
  | none => simp only [reject, ho, reduceCtorEq, ↓reduceIte]
  | some o =>
    simp only [reject, ho, Option.some.injEq]
    rw [Keyed.lookup_concat]
    by_cases hg : o = g
    · subst hg
      rw [hw.unanswered o ho]
      simp
    · rw [if_neg (Ne.symm hg), if_neg hg, Option.or_none]

theorem Tidy.reject (hw : w.Tidy) (reason : WaitError) : (w.reject reason).Tidy := by
  have hnone (g : Nat) : (w.reject reason).outstanding ≠ some g := by
    rw [reject_outstanding]
    exact (Option.some_ne_none g).symm
  constructor
  · intro g hg
    exact absurd hg (hnone g)
  · intro g hg
    rw [lookup_reject hw] at hg
    rw [reject_generation]
    split at hg
    · next ho => exact Nat.le_of_eq (hw.latest g ho)
    · exact hw.bounded g hg
  · intro g hg
    exact absurd hg (hnone g)

theorem Tidy.fresh (hw : w.Tidy) : w.rejections.lookup (w.generation + 1) = none := by
  refine Option.eq_none_iff_forall_ne_some.mpr fun reason hl => ?_
  have hle := hw.bounded _ (Option.isSome_iff_exists.mpr ⟨reason, hl⟩)
  omega

theorem Tidy.start (hw : w.Tidy) : w.start.1.Tidy := by
  have hr := hw.reject .superseded
  constructor
  · intro g hg
    exact (Option.some.inj hg).symm
  · intro g hg
    exact Nat.le_succ_of_le (hr.bounded g hg)
  · intro g hg
    obtain rfl := Option.some.inj hg
    exact hr.fresh

theorem Tidy.collect (hw : w.Tidy) (g : Nat) :
    Tidy { w with rejections := Keyed.remove g w.rejections } := by
  refine ⟨hw.latest, fun o ho => hw.bounded o ?_, fun o ho => ?_⟩
  · rw [Keyed.lookup_remove] at ho
    split at ho
    · cases ho
    · exact ho
  · change (Keyed.remove g w.rejections).lookup o = none
    rw [Keyed.lookup_remove, hw.unanswered o ho, ite_self]

theorem Tidy.elapse (hw : w.Tidy) (g : Nat) : (w.elapse g).Tidy := by
  simp only [Wait.elapse]
  split
  · exact ⟨nofun, hw.bounded, nofun⟩
  · exact hw

end DocSync.Wait
