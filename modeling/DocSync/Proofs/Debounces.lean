import DocSync.Proofs.Status
import DocSync.Proofs.Waits

/-!
The debounces of completions. The wait is shared by all of them, so each is the outstanding one or
was rejected, and a rejected one stays so until its task gets its turn.
-/

namespace DocSync.Service

variable {s : Service} {e : Event} {g h request task : Nat} {id : DocumentId}
  {p : EditorPosition}

/-- A task waits for the debounce of a completion. -/
def Debounces (s : Service) (task g : Nat) : Prop :=
  ∃ request h id p d, s.work task = some (.debounce request h id p g d)

/-- Every debounce is the outstanding one or was rejected, and no two tasks share one. -/
structure Waiting (s : Service) : Prop where
  latest : ∀ {g}, s.wait.outstanding = some g → g = s.wait.generation
  bounded : ∀ {task g}, s.Debounces task g → g ≤ s.wait.generation
  apart : ∀ {task task' g}, s.Debounces task g → s.Debounces task' g → task' = task
  answered : ∀ {task g}, s.Debounces task g →
    s.wait.outstanding = some g ∨ (s.wait.rejections.lookup g).isSome = true

theorem Waiting.keep {t : Service} (hs : s.Waiting)
    (hw : t.wait = s.wait ∨ t.wait = s.wait.cancel)
    (hd : ∀ {task g}, t.Debounces task g → s.Debounces task g) : t.Waiting := by
  rcases hw with hw | hw
  · refine ⟨?_, ?_, fun ha hb => hs.apart (hd ha) (hd hb), ?_⟩
    · exact hw ▸ hs.latest
    · exact fun ha => hw ▸ hs.bounded (hd ha)
    · exact fun ha => hw ▸ hs.answered (hd ha)
  · refine ⟨?_, ?_, fun ha hb => hs.apart (hd ha) (hd hb), ?_⟩
    · intro g hg
      rw [hw, Wait.cancel, Wait.reject_outstanding] at hg
      cases hg
    · intro task g ha
      rw [hw, Wait.cancel, Wait.reject_generation]
      exact hs.bounded (hd ha)
    · intro task g ha
      rw [hw]
      exact Or.inr (Wait.reject_answered s.wait .cancelled (hs.answered (hd ha))).2

/-- A completion is asked for, which supersedes the debounce under way. -/
theorem Waiting.start (hs : s.Waiting) (hr : s.require id = .ok h) :
    (s.requestCompletion request id p).Waiting := by
  let w := s.wait.reject .superseded
  let started : Wait := ⟨w.generation + 1, some (w.generation + 1), w.rejections⟩
  have ht : s.requestCompletion request id p = { s with wait := started }.spawn
      (.debounce request h id p (w.generation + 1) (s.now + s.completionDelay)) := by
    simp only [requestCompletion, hr]
    rfl
  have hgen : w.generation = s.wait.generation := Wait.reject_generation s.wait .superseded
  have hcases {task g : Nat} (hd : (s.requestCompletion request id p).Debounces task g) :
      s.Debounces task g ∨ task = s.nextTask ∧ g = w.generation + 1 := by
    obtain ⟨r, k, id', p', d, hd⟩ := hd
    rw [ht, work_spawn] at hd
    rcases Option.or_eq_some_iff.mp hd with hd | ⟨_, hd⟩
    · exact Or.inl ⟨r, k, id', p', d, hd⟩
    · split at hd
      · next htask =>
        cases hd
        exact Or.inr ⟨htask, rfl⟩
      · cases hd
  constructor
  · intro g hg
    rw [ht] at hg ⊢
    exact (Option.some.inj hg).symm
  · intro task g hd
    have hle : g ≤ w.generation + 1 := by
      rcases hcases hd with hd | ⟨_, rfl⟩
      · have := hs.bounded hd
        omega
      · exact Nat.le_refl _
    rw [ht]
    exact hle
  · intro task task' g ha hb
    rcases hcases ha with ha | ⟨ha, hg⟩ <;> rcases hcases hb with hb | ⟨hb, hg'⟩
    · exact hs.apart ha hb
    · have := hs.bounded ha
      omega
    · have := hs.bounded hb
      omega
    · exact hb.trans ha.symm
  · intro task g hd
    rw [ht]
    rcases hcases hd with hd | ⟨_, rfl⟩
    · exact Or.inr (Wait.reject_answered s.wait .superseded (hs.answered hd)).2
    · exact Or.inl rfl

/-- A debounce ends: its task waits no more, and the other waits stay as they are. -/
theorem Waiting.finish {t : Service} (hs : s.Waiting) (hg : s.Debounces task g)
    (hd : ∀ {task' g'}, t.Debounces task' g' → task' ≠ task ∧ s.Debounces task' g')
    (hgen : t.wait.generation = s.wait.generation)
    (hout : ∀ {o}, t.wait.outstanding = some o → s.wait.outstanding = some o)
    (hkept : ∀ {o}, o ≠ g → s.wait.outstanding = some o → t.wait.outstanding = some o)
    (hrej : ∀ {o}, o ≠ g → t.wait.rejections.lookup o = s.wait.rejections.lookup o) :
    t.Waiting := by
  constructor
  · intro o ho
    rw [hgen]
    exact hs.latest (hout ho)
  · intro task' g' ha
    rw [hgen]
    exact hs.bounded (hd ha).2
  · intro task' task'' g' ha hb
    exact hs.apart (hd ha).2 (hd hb).2
  · intro task' g' ha
    obtain ⟨hne, ha⟩ := hd ha
    have hother : g' ≠ g := by
      rintro rfl
      exact hne (hs.apart hg ha)
    rw [hrej hother]
    exact (hs.answered ha).imp_left (hkept hother)

/-- A task that waits for its debounce gets its turn. -/
theorem Waiting.turn (hs : s.Waiting) {d : Nat}
    (hw : s.work task = some (.debounce request h id p g d)) :
    (s.runDebounce task request h id p g d).Waiting := by
  have hg : s.Debounces task g := ⟨request, h, id, p, d, hw⟩
  rcases runDebounce_cases s task request h id p g d with
    ⟨_, _, he⟩ | ⟨_, hr, he⟩ | ⟨hr, hd, he⟩
  · rw [he]
    exact hs
  · rw [he]
    refine hs.finish hg ?_ rfl (fun ho => ho) (fun _ ho => ho) ?_
    · rintro task' g' ⟨r, k, id', p', d', hd⟩
      rw [work_finish] at hd
      split at hd
      · cases hd
      · next ht => exact ⟨ht, r, k, id', p', d', hd⟩
    · intro o ho
      exact (Keyed.lookup_remove g s.wait.rejections o).trans (if_neg ho)
  · have hwait : (s.runDebounce task request h id p g d).wait = s.wait.elapse g := by
      rw [he]
      exact congrArg Status.wait (status_flush _)
    refine hs.finish hg ?_ ?_ ?_ ?_ ?_
    · rintro task' g' ⟨r, k, id', p', d', hd⟩
      rw [he] at hd
      by_cases ht : task' = task
      · subst ht
        obtain ⟨_, _, ⟨_, hv⟩ | ⟨_, _, _, _, _, _, hv⟩⟩ := work_flush _ hd <;> cases hv
      · rw [work_flush_of_ne ht] at hd
        exact ⟨ht, r, k, id', p', d', hd⟩
    · rw [hwait, Wait.elapse]
      split <;> rfl
    · intro o ho
      rw [hwait, Wait.elapse] at ho
      split at ho
      · cases ho
      · exact ho
    · intro o ho hsome
      have hlast := hs.latest hsome
      rw [hwait, Wait.elapse, if_neg (by omega)]
      exact hsome
    · intro o _
      rw [hwait, Wait.elapse]
      split <;> rfl

theorem next_waiting (hs : s.Waiting) (hn : s.work s.nextTask = none) (he : e.isWhole = true) :
    (s.next e).Waiting := by
  by_cases hstart : ∃ request id p h, e = .complete request id p ∧ s.require id = .ok h
  case pos =>
    obtain ⟨request, id, p, h, rfl, hr⟩ := hstart
    exact hs.start hr
  by_cases hturn : ∃ task request h id p g d, e = .run task ∧
      s.work task = some (.debounce request h id p g d)
  case pos =>
    obtain ⟨task, request, h, id, p, g, d, rfl, hw⟩ := hturn
    rw [next_run hw, run]
    exact hs.turn hw
  refine hs.keep ?_ ?_
  · have hm := status_next (s := s) he
    generalize hv : (s.next e).status = v at hm
    have hwait : (s.next e).wait = v.wait := congrArg Status.wait hv
    rw [hwait]
    cases hm with
    | kept | opened | left | closed | told | connected => exact Or.inl rfl
    | edited | stopped => exact Or.inr rfl
    | started hr => exact absurd ⟨_, _, _, _, rfl, hr⟩ hstart
    | rejected hw => exact absurd ⟨_, _, _, _, _, _, _, rfl, hw⟩ hturn
    | elapsed hw => exact absurd ⟨_, _, _, _, _, _, _, rfl, hw⟩ hturn
  · rintro task g ⟨request, h, id, p, d, hw⟩
    rcases work_next hn hw with hw | ⟨_, hb⟩
    · exact ⟨request, h, id, p, d, hw⟩
    · cases hb with
      | debounce hr => exact absurd ⟨_, _, _, _, rfl, hr⟩ hstart

theorem StatusMoves.tidy {v : Status} (hm : StatusMoves s e v) (hs : s.wait.Tidy) :
    v.wait.Tidy := by
  cases hm with
  | kept | opened | left | closed | told | connected => exact hs
  | edited | stopped => exact hs.reject .cancelled
  | started => exact hs.start
  | rejected => exact hs.collect _
  | elapsed => exact hs.elapse _

end DocSync.Service
