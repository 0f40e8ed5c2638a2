import DocSync.Proofs.CompletionPush
import DocSync.Proofs.Interrupts

/-!
The turns of a task that waits for the debounce of a completion. It is cancelled where its wait was
rejected, and goes on where its delay is over: an open session is pushed, a closed one is not, and
after the push the task asks. No other task's turn touches the wait that is outstanding.
-/

namespace DocSync.Service

variable {s : Service} {e : Event} {g h request task : Nat} {id : DocumentId} {p : EditorPosition}
  {x : Session}

theorem callsOf_ask (w : Work) (call : Call) :
    (s.ask task w call).callsOf task = call :: s.callsOf task := by
  simp [callsOf, ask, note, hold, Notice.callOf?]

theorem callsOf_finish (o : Outcome) : (s.finish task request o).callsOf task = s.callsOf task :=
  rfl

theorem callsOf_completePush (k : Nat) (t : Ticket) (result : Except Failure Unit) :
    (s.completePush h t result).1.callsOf k = s.callsOf k := by
  have hadds := adds_completePush (s := s) (h := h)
    (P := fun n => (∃ members, n = .running members) ∨ ∃ id message, n = .failed id message)
    (fun members => Or.inl ⟨members, rfl⟩) (fun _ _ => Or.inr ⟨_, _, rfl⟩) t result
  refine hadds.filterMap ?_
  rintro n (⟨members, rfl⟩ | ⟨_, _, rfl⟩) <;> rfl

/-- The delay of a completion is over: an open session is pushed. -/
theorem elapse_open {d : Nat} (hw : s.work task = some (.debounce request h id p g d))
    (hr : s.wait.rejections.lookup g = none) (hd : d ≤ s.now) (hx : s.IsOpen h x)
    (hc : s.isConnected = true) :
    (s.next (.run task)).work task =
        some (.sync h ⟨x.version + 1⟩ (.completion request h id p)) ∧
      (s.next (.run task)).callsOf task =
        .sync h (x.version + 1) x.id x.document.fullText :: s.callsOf task := by
  let u : Service := { s with wait := s.wait.elapse g }
  have hnext : s.next (.run task) = u.flush task h (.completion request h id p) :=
    next_elapse hw hr hd
  have hopen : u.session? h = some x := hx.1
  have hy := session?_prepare hopen
  have hconn : ((u.disarm h).bump h).isConnected = true :=
    (congrArg Service.isConnected outline_prepare).trans hc
  have hcalls : ((u.disarm h).bump h).callsOf task = s.callsOf task := by
    have hadds : Adds (fun n => ∃ members, n = .running members) s ((u.disarm h).bump h) :=
      (adds_of_journal (t := u.disarm h) journal_disarm).trans
        (adds_bump fun members => ⟨members, rfl⟩)
    refine hadds.filterMap ?_
    rintro n ⟨members, rfl⟩
    rfl
  have hflush : u.flush task h (.completion request h id p) =
      (((u.disarm h).bump h).setSession h
        (Session.send { x.bump with timer := (x.timer.cancel u.agenda).1 })).ask task
        (.sync h ⟨x.version + 1⟩ (.completion request h id p))
        (.sync h (x.version + 1) x.id x.document.fullText) := by
    have hopen' : x.bump.isClosed = false := hx.2
    simp only [flush, hopen, hx.2, push, hy, hopen', hconn, Bool.false_eq_true, ↓reduceIte,
      Bool.not_true]
    rfl
  rw [hnext, hflush, callsOf_ask, work_ask, if_pos rfl]
  exact ⟨rfl, congrArg _ hcalls⟩

theorem elapse_closed {d : Nat} (hw : s.work task = some (.debounce request h id p g d))
    (hr : s.wait.rejections.lookup g = none) (hd : d ≤ s.now) (hx : s.session? h = some x)
    (hc : x.isClosed = true) :
    (s.next (.run task)).work task = some (.complete request id p) ∧
      (s.next (.run task)).callsOf task =
        .complete id (x.document.shift.toServer p) :: s.callsOf task := by
  let u : Service := { s with wait := s.wait.elapse g }
  have hx' : u.session? h = some x := hx
  have hnext : s.next (.run task) =
      u.ask task (.complete request id p) (.complete id (x.document.shift.toServer p)) := by
    have hflush : s.next (.run task) = u.flush task h (.completion request h id p) :=
      next_elapse hw hr hd
    rw [hflush, flush_closed hx' hc]
    simp only [afterPush, hx']
  rw [hnext, callsOf_ask, work_ask, if_pos rfl]
  exact ⟨rfl, rfl⟩

theorem cancel_turn {d : Nat} (hw : s.work task = some (.debounce request h id p g d))
    (hr : (s.wait.rejections.lookup g).isSome = true) :
    s.Cancels (.run task) request ∧ (s.next (.run task)).work task = none ∧
      (s.next (.run task)).callsOf task = s.callsOf task := by
  obtain ⟨reason, hr⟩ := Option.isSome_iff_exists.mp hr
  let u : Service :=
    { s with wait := { s.wait with rejections := Keyed.remove g s.wait.rejections } }
  have hnext : s.next (.run task) = u.finish task request (.completion (.ok .cancelled)) := by
    rw [next_run hw]
    simp only [run, runDebounce, Wait.poll?, hr]
    rfl
  rw [Cancels, hnext, callsOf_finish, work_finish, if_pos rfl]
  exact ⟨rfl, rfl, rfl⟩

theorem not_cancels {d : Nat} (hw : s.work task = some (.debounce request h id p g d))
    (hr : s.wait.rejections.lookup g = none) (hx : s.session? h = some x)
    (hc : x.isClosed = false → s.isConnected = true) : ¬s.Cancels (.run task) request := by
  intro hcancels
  have hcalls : (s.next (.run task)).callsOf task = s.callsOf task := by
    rw [callsOf, hcancels]
    rfl
  by_cases hd : d ≤ s.now
  · have hlength {c : Call} (hask : (s.next (.run task)).callsOf task = c :: s.callsOf task) :
        False := by
      have hl := congrArg List.length (hask.symm.trans hcalls)
      rw [List.length_cons] at hl
      omega
    cases ho : x.isClosed with
    | true => exact hlength (elapse_closed hw hr hd hx ho).2
    | false => exact hlength (elapse_open hw hr hd ⟨hx, ho⟩ (hc ho)).2
  · have hl := congrArg List.length hcancels
    rw [next_run hw] at hl
    simp [run, runDebounce, Wait.poll?, hr, hd] at hl

theorem completion_answered {t : Ticket} {h' : Nat} (result : Except Failure Unit)
    (hw : s.work task = some (.sync h t (.completion request h' id p))) :
    s.next (.answer task (.synced result)) =
      ((s.note (.answered task h t.version (isOk result))).completePush h t result).1.afterPush
        task result (.completion request h' id p) := by
  rw [next_answer hw]
  simp only [Service.answer, completePush_result]

theorem completion_refused {t : Ticket} {h' : Nat} (error : Failure)
    (hw : s.work task = some (.sync h t (.completion request h' id p))) :
    (s.next (.answer task (.synced (.error error)))).work task = none ∧
      (s.next (.answer task (.synced (.error error)))).callsOf task = s.callsOf task ∧
      ∃ l, (s.next (.answer task (.synced (.error error)))).journal =
        .finished request (.completion (.error error)) :: l := by
  rw [completion_answered (.error error) hw]
  simp only [afterPush]
  rw [work_finish, if_pos rfl, callsOf_finish, callsOf_completePush]
  exact ⟨rfl, rfl, _, rfl⟩

/-- The push of a completion was accepted, and the completion asks. -/
theorem completion_asks {t : Ticket} {h' : Nat}
    (hw : s.work task = some (.sync h t (.completion request h' id p)))
    (hx : s.session? h' = some x) :
    (s.next (.answer task (.synced (.ok ())))).work task = some (.complete request id p) ∧
      (s.next (.answer task (.synced (.ok ())))).callsOf task =
        .complete id (x.document.shift.toServer p) :: s.callsOf task := by
  have hnext := completion_answered (.ok ()) hw
  obtain ⟨z, hz, _⟩ := (sync_answered_part hw (.ok ()) : Part .inside _ _ _).evolves hx
  have hz : (s.next (.answer task (.synced (.ok ())))).session? h' = some z := by
    rw [next_answer hw]
    exact hz
  rw [hnext] at hz ⊢
  generalize hu : s.note (.answered task h t.version (isOk (.ok ()))) = u at hz ⊢
  have hcalls : (u.completePush h t (.ok ())).1.callsOf task = s.callsOf task := by
    rw [callsOf_completePush, ← hu]
    rfl
  rw [session?, (untouched_afterPush _ _ _ _).sessions] at hz
  change (u.completePush h t (.ok ())).1.session? h' = some z at hz
  obtain ⟨y, hy, hd⟩ := document_completePush t _ hz
  obtain rfl : x = y := by
    rw [← hu] at hy
    exact Option.some.inj (hx.symm.trans hy)
  simp only [afterPush, hz]
  rw [callsOf_ask, work_ask, if_pos rfl, hcalls, hd]
  exact ⟨rfl, rfl⟩

theorem question_waits (ht : task < s.nextTask) (hw : s.work task = some (.complete request id p)) :
    ((s.next e).work task = some (.complete request id p) ∨ (s.next e).work task = none) ∧
      (s.next e).callsOf task = s.callsOf task := by
  by_cases ha : s.actor e = some task
  case neg => exact ⟨Or.inl ((work_next_of_ne ha).trans hw), callsOf_next ha⟩
  have hfinish {t : Service} (o : Outcome) : (t.finish task request o).work task = none := by
    rw [work_finish, if_pos rfl]
  rcases actor_turn (Nat.ne_of_lt ht) ha with rfl | ⟨a, rfl⟩
  · rw [next_run hw, run]
    exact ⟨Or.inl hw, rfl⟩
  · rw [next_answer hw]
    cases a with
    | completed result =>
      cases result with
      | error error => exact ⟨Or.inr (hfinish _), rfl⟩
      | ok result => exact ⟨Or.inr (hfinish _), rfl⟩
    | connected | synced | informed | stopped => exact ⟨Or.inl hw, rfl⟩

/-- The turn of another task leaves the outstanding wait alone. -/
theorem outstanding_run {task' : Nat} (hs : s.Waiting) (hd : s.Debounces task g)
    (hg : s.wait.outstanding = some g) (hne : task' ≠ task) :
    (s.next (.run task')).wait.outstanding = some g := by
  simp only [next]
  split
  · exact hg
  · next w hv =>
    cases w with
    | start h =>
      have hstatus : (s.push task' h .nothing).status = s.status := status_push .nothing
      have hwait := congrArg Status.wait hstatus
      rw [← hg]
      exact congrArg Wait.outstanding hwait
    | debounce request h id p g' d =>
      change (s.runDebounce task' request h id p g' d).wait.outstanding = some g
      rcases runDebounce_cases s task' request h id p g' d with
        ⟨_, _, he⟩ | ⟨_, _, he⟩ | ⟨hr, _, he⟩
      · rw [he]
        exact hg
      · rw [he]
        exact hg
      · -- only the outstanding wait can elapse, and it is that of the other task
        have hd' : s.Debounces task' g' := ⟨request, h, id, p, d, hv⟩
        rcases hs.answered hd' with ho | hsome
        · obtain rfl := Option.some.inj (hg.symm.trans ho)
          exact absurd (hs.apart hd hd') hne
        · rw [hr] at hsome
          cases hsome
    | connectTurn request =>
      simp only [run, runConnectTurn]
      split <;> exact hg
    | sync | complete | info | connect | shutdown => exact hg

theorem rejected_next (hs : s.Waiting) (he : e.isWhole = true) (hd : s.Debounces task g)
    (hr : (s.wait.rejections.lookup g).isSome = true) (hne : e ≠ .run task) :
    ((s.next e).wait.rejections.lookup g).isSome = true := by
  have hm := status_next (s := s) he
  generalize hv : (s.next e).status = v at hm
  have hwait : (s.next e).wait = v.wait := congrArg Status.wait hv
  rw [hwait]
  cases hm with
  | kept | opened | left | closed | told | connected => exact hr
  | edited | stopped => exact (Wait.reject_answered s.wait .cancelled (Or.inr hr)).2
  | started => exact (Wait.reject_answered s.wait .superseded (Or.inr hr)).2
  | @rejected task' _ _ g' _ _ _ _ hw =>
    have hg : g ≠ g' := by
      rintro rfl
      exact hne (congrArg Event.run (hs.apart hd ⟨_, _, _, _, _, hw⟩))
    change ((Keyed.remove g' s.wait.rejections).lookup g).isSome = true
    rw [Keyed.lookup_remove, if_neg hg]
    exact hr
  | elapsed =>
    simp only [Wait.elapse]
    split <;> exact hr

theorem deadline?_le_debounce {d : Nat}
    (hw : s.work task = some (.debounce request h id p g d)) :
    ∃ next, s.deadline? = some next ∧ next ≤ d := by
  let deadlines := s.agenda.sleepers.map Sleeper.deadline ++
    s.tasks.filterMap fun t => Work.deadline? t.2
  have hm : d ∈ deadlines :=
    List.mem_append_right _ (List.mem_filterMap.mpr ⟨_, Keyed.mem_of_lookup hw, rfl⟩)
  cases hd : deadlines.min? with
  | none => exact absurd (List.min?_eq_none_iff.mp hd) (List.ne_nil_of_mem hm)
  | some next => exact ⟨next, hd, (List.min?_eq_some_iff.mp hd).2 _ hm⟩

theorem Interrupts.isCall (hi : Interrupts s e) : e.isCall = true := by
  cases hi <;> rfl

theorem Interrupts.ne_run (hi : Interrupts s e) : e ≠ .run task := by
  rintro rfl
  cases hi

theorem Interrupts.ne_pass (hi : Interrupts s e) (n : Nat) : e ≠ .pass n := by
  rintro rfl
  cases hi

theorem IsSettled.debounces {d : Nat} (hs : s.IsSettled)
    (hw : s.work task = some (.debounce request h id p g d)) :
    s.wait.rejections.lookup g = none ∧ s.now < d := by
  have hrun := hs.waits hw
  simp only [canRun, Wait.poll?] at hrun
  split at hrun
  · cases hrun
  · next hr =>
    refine ⟨hr, Nat.lt_of_not_le fun hd => ?_⟩
    rw [if_pos (by simpa using hd)] at hrun
    cases hrun

end DocSync.Service
