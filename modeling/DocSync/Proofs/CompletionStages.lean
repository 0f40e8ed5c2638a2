import DocSync.Proofs.CompletionTurns

/-!
How far a completion request is at each time of a punctual run. It waits until it is interrupted or
its delay is over. An interrupted one ends in the next turn of its task; one that waited out its
delay pushes its document, and asks once, if the push did not fail.
-/

namespace DocSync.Service

variable {s : Service} {e : Event} {g j k m n task : Nat} {y : Session} {r : Run}
  {c : CompletionTask}

/-- What the task of a completion request waits for at first. -/
def CompletionTask.waiting (c : CompletionTask) (g deadline : Nat) : Work :=
  .debounce c.request c.session c.document c.position g deadline

/-- The push of a completion request. -/
def CompletionTask.push (c : CompletionTask) (y : Session) : Call :=
  .sync c.session (y.version + 1) c.document y.document.fullText

/-- Its question, for the place that it has in a session. -/
def CompletionTask.question (c : CompletionTask) (x : Session) : Call :=
  .complete c.document (x.document.shift.toServer c.position)

/-- When the delay of a request is over. -/
def Run.deadline (r : Run) (j : Nat) : Nat := (r.state j).now + r.completionDelay

/-- Nothing between two events interrupts. -/
def Run.Calm (r : Run) (j k : Nat) : Prop :=
  ∀ i, j < i → i < k → ¬(r.state i).Interrupts (r.event i)

/-- The first interruption of a request, while its delay is not over. -/
structure Run.Interrupted (r : Run) (j m : Nat) : Prop where
  after : j < m
  interrupts : (r.state m).Interrupts (r.event m)
  first : r.Calm j m
  early : (r.state m).now < r.deadline j

/-- The task of a request ends, and gives that the request was cancelled. -/
structure Run.Cancelled (r : Run) (n : Nat) (c : CompletionTask) : Prop where
  turn : r.event n = .run c.task
  waiting : ∃ g d, (r.state n).work c.task = some (c.waiting g d)
  cancels : (r.state n).Cancels (.run c.task) c.request

/-- The delay of a request is over, and nothing interrupted it. -/
structure Run.Elapsed (r : Run) (j n : Nat) (c : CompletionTask) : Prop where
  after : j < n
  elapses : r.Elapses n c
  calm : r.Calm j n
  time : (r.state n).now = r.deadline j

/-- How far a request is. -/
inductive Run.Stage (r : Run) (j : Nat) (c : CompletionTask) (k : Nat) : Prop where
  | waiting {g : Nat} (hw : (r.state k).work c.task = some (c.waiting g (r.deadline j)))
      (hg : (r.state k).wait.outstanding = some g) (hcalm : r.Calm j k)
      (hnow : (r.state k).now ≤ r.deadline j) (hc : (r.state k).callsOf c.task = [])
  | rejected {g m : Nat} (hm : r.Interrupted j m) (hmk : m < k)
      (hw : (r.state k).work c.task = some (c.waiting g (r.deadline j)))
      (hr : ((r.state k).wait.rejections.lookup g).isSome = true)
      (hnow : (r.state k).now = (r.state m).now) (hc : (r.state k).callsOf c.task = [])
  | cancelled {m n : Nat} (hm : r.Interrupted j m) (hmn : m < n) (hnk : n < k)
      (hn : r.Cancelled n c) (hnow : (r.state n).now = (r.state m).now)
      (hw : (r.state k).work c.task = none) (hc : (r.state k).callsOf c.task = [])
  | pushing {n : Nat} {y : Session} (hn : r.Elapsed j n c) (hnk : n < k)
      (hy : (r.state n).IsOpen c.session y)
      (hw : (r.state k).work c.task = some (c.pushed y))
      (hc : (r.state k).callsOf c.task = [c.push y])
  | failed {n i : Nat} {y : Session} {error : Failure} (hn : r.Elapsed j n c) (hni : n < i)
      (hik : i < k) (hy : (r.state n).IsOpen c.session y)
      (hi : r.event i = .answer c.task (.synced (.error error)))
      (hl : ∃ l, (r.state (i + 1)).journal =
        .finished c.request (.completion (.error error)) :: l)
      (hw : (r.state k).work c.task = none) (hc : (r.state k).callsOf c.task = [c.push y])
  | asked {n i : Nat} {y x : Session} (hn : r.Elapsed j n c) (hni : n < i) (hik : i < k)
      (hy : (r.state n).IsOpen c.session y) (hi : r.event i = .answer c.task (.synced (.ok ())))
      (hx : (r.state i).session? c.session = some x)
      (hw : (r.state k).work c.task = some (.complete c.request c.document c.position) ∨
        (r.state k).work c.task = none)
      (hc : (r.state k).callsOf c.task = [c.question x, c.push y])
  | skipped {n : Nat} {y : Session} (hn : r.Elapsed j n c) (hnk : n < k)
      (hy : (r.state n).session? c.session = some y) (ho : y.isClosed = true)
      (hw : (r.state k).work c.task = some (.complete c.request c.document c.position) ∨
        (r.state k).work c.task = none)
      (hc : (r.state k).callsOf c.task = [c.question y])

theorem Run.Makes.state (hm : r.Makes j c) :
    r.state (j + 1) = ({ r.state j with wait := (r.state j).wait.start.1 } : Service).spawn
      (c.waiting ((r.state j).wait.generation + 1) (r.deadline j)) := by
  rw [Run.state, hm.event]
  simp only [next, requestCompletion, hm.required, Wait.start_generation]
  rw [r.completionDelay_eq j]
  rfl

theorem Run.Makes.task_lt (hm : r.Makes j c) (hjk : j < k) : c.task < (r.state k).nextTask := by
  refine Nat.lt_of_lt_of_le ?_ (r.nextTask_le (Nat.succ_le_of_lt hjk))
  have hnext : (r.state (j + 1)).nextTask = (r.state j).nextTask + 1 := by
    rw [hm.state]
    rfl
  rw [Nat.succ_eq_add_one, hnext, hm.task]
  exact Nat.lt_succ_self _

theorem Run.Makes.unique (hj : r.Makes j c) (hk : r.Makes k c) : k = j := by
  have hlt {a b : Nat} (ha : r.Makes a c) (hb : r.Makes b c) : ¬a < b := by
    intro hab
    have ht := ha.task_lt hab
    rw [hb.task] at ht
    exact Nat.lt_irrefl _ ht
  exact Nat.le_antisymm (Nat.le_of_not_lt (hlt hj hk)) (Nat.le_of_not_lt (hlt hk hj))

/-- Tasks that are still to come called nothing. -/
theorem uncalled_next (hn : s.pushState.Numbered) (ht : (s.next e).nextTask ≤ task)
    (hle : s.nextTask ≤ (s.next e).nextTask) : (s.next e).callsOf task = s.callsOf task := by
  by_cases ha : s.actor e = some task
  case neg => exact callsOf_next ha
  have hnone : s.tasks.lookup task = none := hn task (Nat.le_trans hle ht)
  have hlt {u : Service} (hu : u.nextTask = s.nextTask + 1) (htask : s.nextTask = task) :
      ¬u.nextTask ≤ task := by omega
  cases e with
  | openDocument | beginOpen | finishOpen | closeDocument | change | setText | setContext |
    closeSession | receive | endStream | pass => cases ha
  | run k =>
    obtain rfl : k = task := Option.some.inj ha
    simp only [next, hnone]
  | answer k a =>
    obtain rfl : k = task := Option.some.inj ha
    simp only [next, hnone]
  | fire i =>
    simp only [next]
    split
    · rfl
    · split
      · simp only [fire]
        split
        · rfl
        · split <;> rfl
      · rfl
  | complete =>
    simp only [next, requestCompletion]
    split <;> rfl
  | flush request h =>
    have hnone : s.fresh.1.pushState.work s.nextTask = none := hn _ (Nat.le_refl _)
    have hp : Parts .inside _ _ _ := (flush_parts (s := s.fresh.1) (h := h)
      (Nat.lt_succ_self s.nextTask) (hnone ▸ isQuiet_none) (.flush request)).parts (Or.inl rfl)
    have hmono := hp.keep (I := fun v => s.nextTask + 1 ≤ v.nextTask)
      (fun hp hv => Nat.le_trans hv hp.nextTask_le) (Nat.le_refl _)
    have htask : s.nextTask = task := Option.some.inj ha
    exact absurd (Nat.le_trans hmono ht) (by omega)
  | info request id p use =>
    simp only [next, requestInfo] at ht ⊢
    split
    · rfl
    · next hr =>
      simp only [hr] at ht
      split
      · rfl
      · next hx =>
        simp only [hx] at ht
        exact absurd ht (hlt rfl (Option.some.inj ha))
  | connect request =>
    simp only [next, requestConnect] at ht ⊢
    split
    · rfl
    · next hs =>
      rw [if_neg hs] at ht
      split
      · rfl
      · rfl
      · next hl =>
        simp only [hl] at ht
        split
        · rfl
        · next hturn =>
          rw [if_neg hturn] at ht
          exact absurd ht (hlt rfl (Option.some.inj ha))
  | shutdown request =>
    simp only [next, requestShutdown] at ht ⊢
    split
    · rfl
    · next hs =>
      rw [if_neg hs] at ht
      have hnext := (ledger_retireEach (s := { s with
        isStopped := true, wait := s.wait.cancel, registry := [] }) s.registry).2
      exact absurd ht (hlt (congrArg (· + 1) hnext) (Option.some.inj ha))

theorem Run.uncalled (r : Run) (ht : (r.state k).nextTask ≤ task) :
    (r.state k).callsOf task = [] := by
  induction k with
  | zero => rfl
  | succ k ih =>
    have hle := r.nextTask_le (Nat.le_succ k)
    rw [Run.state, uncalled_next (r.invariant k).numbered ht hle]
    exact ih (Nat.le_trans hle ht)

theorem Run.Makes.stage (hm : r.Makes j c) : r.Stage j c (j + 1) := by
  have hunused := r.unused j
  rw [hm.task] at hunused
  refine .waiting (g := (r.state j).wait.generation + 1) ?_ ?_ ?_ ?_ ?_
  · rw [hm.state, work_spawn]
    change ((r.state j).work c.task).or (if c.task = (r.state j).nextTask then _ else none) = _
    rw [hunused, if_pos hm.task.symm]
    rfl
  · rw [hm.state]
    exact congrArg some (Wait.start_generation _)
  · intro i hi hlt
    omega
  · rw [hm.state]
    exact Nat.le_add_right _ _
  · have hcalls := r.uncalled (Nat.le_of_eq hm.task)
    rw [hm.state]
    exact hcalls

theorem Run.Makes.session_at (hm : r.Makes j c) (hjk : j ≤ k) :
    ∃ y, (r.state k).session? c.session = some y ∧ y.id = c.document := by
  obtain ⟨_, _, ho⟩ := require_ok hm.required
  obtain ⟨x, hx, _⟩ := r.registered j ho
  obtain ⟨y, hy, _⟩ := r.evolves hjk hx
  exact ⟨y, hy, hm.session hjk hy⟩

/-- A waiting task gets its turn when its delay is over. -/
theorem Run.Makes.elapse (hm : r.Makes j c) (hjk : j < k) (hcalm : r.Calm j k)
    (hw : (r.state k).work c.task = some (c.waiting g (r.deadline j)))
    (hg : (r.state k).wait.rejections.lookup g = none) (hnow : (r.state k).now = r.deadline j)
    (hc : (r.state k).callsOf c.task = []) (he : r.event k = .run c.task) :
    r.Stage j c (k + 1) := by
  have helapsed : r.Elapsed j k c :=
    ⟨hjk, ⟨⟨j, hjk, hm⟩, he, g, _, Nat.le_of_eq hnow.symm, hg, hw⟩, hcalm, hnow⟩
  have hd : r.deadline j ≤ (r.state k).now := Nat.le_of_eq hnow.symm
  obtain ⟨y, hy, hid⟩ := hm.session_at (Nat.le_of_lt hjk)
  cases ho : y.isClosed with
  | true =>
    obtain ⟨hw', hc'⟩ := elapse_closed hw hg hd hy ho
    refine .skipped helapsed (Nat.lt_succ_self k) hy ho (Or.inl ?_) ?_
    · rw [Run.state, he]
      exact hw'
    · rw [Run.state, he, hc', hc]
      rfl
  | false =>
    have hconn : (r.state k).isConnected = true := (r.invariant k).owned.connected ⟨hy, ho⟩
    obtain ⟨hw', hc'⟩ := elapse_open hw hg hd ⟨hy, ho⟩ hconn
    refine .pushing helapsed (Nat.lt_succ_self k) ⟨hy, ho⟩ ?_ ?_
    · rw [Run.state, he]
      exact hw'
    · rw [Run.state, he, hc', hc, hid]
      rfl

theorem Run.Calm.next (hcalm : r.Calm j k) (hint : ¬(r.state k).Interrupts (r.event k)) :
    r.Calm j (k + 1) := by
  intro i hi hik
  rcases Nat.lt_succ_iff_lt_or_eq.mp hik with hik | rfl
  · exact hcalm i hi hik
  · exact hint

/-- A waiting task waits on, or it is interrupted, or it gets its turn. -/
theorem Run.Makes.wait_step (hr : r.Punctual) (hm : r.Makes j c) (hjk : j < k)
    (hw : (r.state k).work c.task = some (c.waiting g (r.deadline j)))
    (hg : (r.state k).wait.outstanding = some g) (hcalm : r.Calm j k)
    (hnow : (r.state k).now ≤ r.deadline j) (hc : (r.state k).callsOf c.task = []) :
    r.Stage j c (k + 1) := by
  have ht := hm.task_lt hjk
  have hd : (r.state k).Debounces c.task g := ⟨_, _, _, _, _, hw⟩
  have hnone := (r.tidy k).unanswered g hg
  by_cases hrun : r.event k = .run c.task
  case pos =>
    by_cases hdue : r.deadline j ≤ (r.state k).now
    · exact hm.elapse hjk hcalm hw hnone (Nat.le_antisymm hnow hdue) hc hrun
    · have hsame : r.state (k + 1) = r.state k := by
        rw [Run.state, hrun, next_run hw]
        simp [run, CompletionTask.waiting, runDebounce, Wait.poll?, hnone, hdue]
      rw [← hsame] at hw hg hnow hc
      exact .waiting hw hg (hcalm.next fun hint => hint.ne_run hrun) hnow hc
  obtain ⟨hw', hc'⟩ := debounce_waits ht hw hrun
  have hstate : r.state (k + 1) = (r.state k).next (r.event k) := rfl
  by_cases hint : (r.state k).Interrupts (r.event k)
  case pos =>
    have hsettled := hr.calls k hint.isCall
    have hstopped : (r.state k).isStopped = false := by
      cases hs : (r.state k).isStopped with
      | false => rfl
      | true => exact absurd (hg.symm.trans (r.halted k hs).outstanding) (Option.some_ne_none g)
    obtain ⟨_, hrejected⟩ := hint.rejects (r.sound k) (r.tidy k) hstopped hg
    have hearly := (hsettled.debounces hw).2
    refine .rejected (m := k) ⟨hjk, hint, hcalm, hearly⟩ (Nat.lt_succ_self k) hw' hrejected ?_
      (hc'.trans hc)
    exact now_next hint.ne_pass
  have hout : (r.state (k + 1)).wait.outstanding = some g := by
    by_cases hturn : ∃ task, r.event k = .run task
    · obtain ⟨task, hturn⟩ := hturn
      have hne : task ≠ c.task := by
        rintro rfl
        exact hrun hturn
      rw [hstate, hturn]
      exact outstanding_run (r.waiting k) hd hg hne
    · rw [hstate, wait_next (r.sound k) (r.whole k) hint (not_exists.mp hturn)]
      exact hg
  refine .waiting hw' hout (hcalm.next hint) ?_ (hc'.trans hc)
  by_cases hpass : ∃ n, r.event k = .pass n
  · obtain ⟨n, hpass⟩ := hpass
    obtain ⟨d, hd, hle⟩ := deadline?_le_debounce hw
    have hstop := hr.stops k n d hpass hd
    rw [hstate, hpass]
    exact Nat.le_trans hstop hle
  · rw [hstate, now_next (not_exists.mp hpass)]
    exact hnow

/-- A rejected task ends in its turn, and nobody calls before that. -/
theorem Run.Makes.reject_step (hr : r.Punctual) (hm : r.Makes j c) (hjk : j < k)
    (hint : r.Interrupted j m) (hmk : m < k)
    (hw : (r.state k).work c.task = some (c.waiting g (r.deadline j)))
    (hg : ((r.state k).wait.rejections.lookup g).isSome = true)
    (hnow : (r.state k).now = (r.state m).now) (hc : (r.state k).callsOf c.task = []) :
    r.Stage j c (k + 1) := by
  have ht := hm.task_lt hjk
  have hd : (r.state k).Debounces c.task g := ⟨_, _, _, _, _, hw⟩
  by_cases hrun : r.event k = .run c.task
  case pos =>
    obtain ⟨hcancels, hw', hc'⟩ := cancel_turn hw hg
    have hstate : r.state (k + 1) = (r.state k).next (.run c.task) := by
      rw [Run.state, hrun]
    rw [← hstate] at hw' hc'
    exact .cancelled hint hmk (Nat.lt_succ_self k) ⟨hrun, ⟨g, _, hw⟩, hcancels⟩ hnow hw'
      (hc'.trans hc)
  obtain ⟨hw', hc'⟩ := debounce_waits ht hw hrun
  refine .rejected hint (Nat.lt_succ_of_lt hmk) hw'
    (rejected_next (r.waiting k) (r.whole k) hd hg hrun) ?_ (hc'.trans hc)
  have hpass (n : Nat) : r.event k ≠ .pass n := by
    intro hp
    have hnone := ((hr.waits k n hp).debounces hw).1
    rw [hnone] at hg
    cases hg
  rw [Run.state, now_next hpass]
  exact hnow

/-- The push of a request is under way until it is answered. -/
theorem Run.Makes.push_step (hm : r.Makes j c) (hn : r.Elapsed j n c) (hnk : n < k)
    (hy : (r.state n).IsOpen c.session y) (hw : (r.state k).work c.task = some (c.pushed y))
    (hc : (r.state k).callsOf c.task = [c.push y]) : r.Stage j c (k + 1) := by
  have hjk : j < k := Nat.lt_trans hn.after hnk
  by_cases ha : (r.state k).actor (r.event k) = some c.task
  case neg =>
    exact .pushing hn (Nat.lt_succ_of_lt hnk) hy ((work_next_of_ne ha).trans hw)
      ((callsOf_next ha).trans hc)
  have hsame (he : (r.state k).next (r.event k) = r.state k) : r.Stage j c (k + 1) := by
    refine .pushing hn (Nat.lt_succ_of_lt hnk) hy ?_ ?_
    · rw [Run.state, he]
      exact hw
    · rw [Run.state, he]
      exact hc
  rcases actor_turn (Nat.ne_of_lt (hm.task_lt hjk)) ha with he | ⟨a, he⟩
  · refine hsame ?_
    rw [he, next_run hw, CompletionTask.pushed, run]
  · cases a with
    | synced result =>
      cases result with
      | error error =>
        obtain ⟨hnone, hcalls, hl⟩ := completion_refused error hw
        refine .failed hn hnk (Nat.lt_succ_self k) hy he ?_ ?_ ?_
        · rw [Run.state, he]
          exact hl
        · rw [Run.state, he]
          exact hnone
        · rw [Run.state, he, hcalls]
          exact hc
      | ok =>
        obtain ⟨x, hx, _⟩ := hm.session_at (Nat.le_of_lt hjk)
        obtain ⟨hask, hcalls⟩ := completion_asks hw hx
        refine .asked hn hnk (Nat.lt_succ_self k) hy he hx (Or.inl ?_) ?_
        · rw [Run.state, he]
          exact hask
        · rw [Run.state, he, hcalls, hc]
          rfl
    | connected | completed | informed | stopped =>
      refine hsame ?_
      rw [he, next_answer hw]
      rfl

theorem Run.Makes.stage_step (hr : r.Punctual) (hm : r.Makes j c) (hjk : j < k)
    (hs : r.Stage j c k) : r.Stage j c (k + 1) := by
  have ht := hm.task_lt hjk
  have hended (hw : (r.state k).work c.task = none) := ended_next (e := r.event k) ht hw
  have hquestion (hw : (r.state k).work c.task =
      some (.complete c.request c.document c.position) ∨ (r.state k).work c.task = none) :
      ((r.state (k + 1)).work c.task = some (.complete c.request c.document c.position) ∨
        (r.state (k + 1)).work c.task = none) ∧
        (r.state (k + 1)).callsOf c.task = (r.state k).callsOf c.task := by
    rcases hw with hw | hw
    · exact question_waits ht hw
    · exact ⟨Or.inr (hended hw).1, (hended hw).2⟩
  cases hs with
  | waiting hw hg hcalm hnow hc => exact hm.wait_step hr hjk hw hg hcalm hnow hc
  | rejected hint hmk hw hg hnow hc => exact hm.reject_step hr hjk hint hmk hw hg hnow hc
  | cancelled hint hmn hnk hn hnow hw hc =>
    exact .cancelled hint hmn (Nat.lt_succ_of_lt hnk) hn hnow (hended hw).1
      ((hended hw).2.trans hc)
  | pushing hn hnk hy hw hc => exact hm.push_step hn hnk hy hw hc
  | failed hn hni hik hy hi hl hw hc =>
    exact .failed hn hni (Nat.lt_succ_of_lt hik) hy hi hl (hended hw).1 ((hended hw).2.trans hc)
  | asked hn hni hik hy hi hx hw hc =>
    obtain ⟨hw', hc'⟩ := hquestion hw
    exact .asked hn hni (Nat.lt_succ_of_lt hik) hy hi hx hw' (hc'.trans hc)
  | skipped hn hnk hy ho hw hc =>
    obtain ⟨hw', hc'⟩ := hquestion hw
    exact .skipped hn (Nat.lt_succ_of_lt hnk) hy ho hw' (hc'.trans hc)

theorem Run.Makes.stage_at (hr : r.Punctual) (hm : r.Makes j c) (hjk : j < k) :
    r.Stage j c k := by
  induction hjk with
  | refl => exact hm.stage
  | step hjk ih => exact hm.stage_step hr hjk ih

end DocSync.Service
