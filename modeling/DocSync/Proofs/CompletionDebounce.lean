import DocSync.Proofs.CompletionStages

/-!
Who wins the debounce of a completion. An interrupted request is cancelled at that moment and calls
nothing. Any other pushes its document when its delay is over, once, and asks once, if the push did
not fail.
-/

namespace DocSync.Service

variable {s : Service} {e : Event} {g j k m n task : Nat} {y : Session} {r : Run}
  {c : CompletionTask}

/-- If anything interrupts a request in time, something does so first. So every request is cancelled
or waits out its delay. -/
theorem Run.interrupted_first (hjm : j < m) (hint : (r.state m).Interrupts (r.event m))
    (hearly : (r.state m).now < r.deadline j) : ∃ i ≤ m, r.Interrupted j i := by
  induction m using Nat.strongRecOn with
  | ind m ih =>
    by_cases hcalm : r.Calm j m
    · exact ⟨m, Nat.le_refl m, hjm, hint, hcalm, hearly⟩
    · simp only [Run.Calm, not_forall, not_not] at hcalm
      obtain ⟨i, hji, him, hi⟩ := hcalm
      obtain ⟨i', hi', hfirst⟩ := ih i him hji hi
        (Nat.lt_of_le_of_lt (r.now_mono (Nat.le_of_lt him)) hearly)
      exact ⟨i', Nat.le_trans hi' (Nat.le_of_lt him), hfirst⟩

theorem Run.Interrupted.unique (hm : r.Interrupted j m) (hn : r.Interrupted j n) : n = m := by
  rcases Nat.lt_trichotomy n m with hlt | heq | hlt
  · exact absurd hn.interrupts (hm.first n hn.after hlt)
  · exact heq
  · exact absurd hm.interrupts (hn.first m hm.after hlt)

theorem Run.Interrupted.not_elapsed (hm : r.Interrupted j m) (hn : r.Elapsed j n c) : False := by
  by_cases hmn : m < n
  · exact hn.calm m hm.after hmn hm.interrupts
  · have hle := r.now_mono (Nat.le_of_not_lt hmn)
    have htime := hn.time
    have hearly := hm.early
    omega

theorem Run.Interrupted.cancelled (hr : r.Punctual) (hc : r.Makes j c) (hm : r.Interrupted j m)
    (hmk : m < k) (hs : (r.state k).IsSettled) :
    ∃ n, m < n ∧ n < k ∧ r.Cancelled n c ∧ (r.state n).now = (r.state m).now := by
  cases hc.stage_at hr (Nat.lt_trans hm.after hmk) with
  | waiting _ _ hcalm => exact absurd hm.interrupts (hcalm m hm.after hmk)
  | rejected _ _ hw hg =>
    rw [(hs.debounces hw).1] at hg
    cases hg
  | cancelled hm' hmn hnk hn hnow =>
    obtain rfl := hm.unique hm'
    exact ⟨_, hmn, hnk, hn, hnow⟩
  | pushing hn | failed hn | asked hn | skipped hn => exact (hm.not_elapsed hn).elim

theorem Run.Interrupted.silent (hr : r.Punctual) (hc : r.Makes j c) (hm : r.Interrupted j m)
    (k : Nat) : (r.state k).callsOf c.task = [] := by
  by_cases hjk : j < k
  · cases hc.stage_at hr hjk with
    | waiting _ _ _ _ hcalls => exact hcalls
    | rejected _ _ _ _ _ hcalls => exact hcalls
    | cancelled _ _ _ _ _ _ hcalls => exact hcalls
    | pushing hn | failed hn | asked hn | skipped hn => exact (hm.not_elapsed hn).elim
  · refine r.uncalled ?_
    rw [← hc.task]
    exact r.nextTask_le (Nat.le_of_not_lt hjk)

theorem Run.Cancelled.interrupted (hr : r.Punctual) (hc : r.Makes j c) (hjn : j < n)
    (hn : r.Cancelled n c) :
    ∃ m, m < n ∧ r.Interrupted j m ∧ (r.state n).now = (r.state m).now := by
  obtain ⟨g, d, hw⟩ := hn.waiting
  cases hc.stage_at hr hjn with
  | waiting hw' hg =>
    obtain ⟨⟩ := Option.some.inj (hw.symm.trans hw')
    obtain ⟨y, hy, _⟩ := hc.session_at (Nat.le_of_lt hjn)
    exact absurd hn.cancels (not_cancels hw ((r.tidy n).unanswered _ hg) hy fun ho =>
      (r.invariant n).owned.connected ⟨hy, ho⟩)
  | rejected hm hmn _ _ hnow => exact ⟨_, hmn, hm, hnow⟩
  | cancelled _ _ _ _ _ hw' => exact absurd (hw.symm.trans hw') (Option.some_ne_none _)
  | failed _ _ _ _ _ _ hw' => exact absurd (hw.symm.trans hw') (Option.some_ne_none _)
  | pushing _ _ _ hw' => cases hw.symm.trans hw'
  | asked _ _ _ _ _ _ hw' =>
    rcases hw' with hw' | hw' <;> cases hw.symm.trans hw'
  | skipped _ _ _ _ hw' =>
    rcases hw' with hw' | hw' <;> cases hw.symm.trans hw'

theorem Run.Makes.elapsed (hr : r.Punctual) (hc : r.Makes j c) (hn : r.Elapses n c) :
    r.Elapsed j n c := by
  obtain ⟨i, hin, hi⟩ := hn.made
  obtain rfl := hi.unique hc
  obtain ⟨g, d, hd, hnone, hw⟩ := hn.elapsed
  cases hc.stage_at hr hin with
  | waiting hw' _ hcalm hnow =>
    obtain ⟨⟩ := Option.some.inj (hw.symm.trans hw')
    exact ⟨hin, hn, hcalm, Nat.le_antisymm hnow hd⟩
  | rejected _ _ hw' hg =>
    obtain ⟨⟩ := Option.some.inj (hw.symm.trans hw')
    rw [hnone] at hg
    cases hg
  | cancelled _ _ _ _ _ hw' => exact absurd (hw.symm.trans hw') (Option.some_ne_none _)
  | failed _ _ _ _ _ _ hw' => exact absurd (hw.symm.trans hw') (Option.some_ne_none _)
  | pushing _ _ _ hw' => cases hw.symm.trans hw'
  | asked _ _ _ _ _ _ hw' =>
    rcases hw' with hw' | hw' <;> cases hw.symm.trans hw'
  | skipped _ _ _ _ hw' =>
    rcases hw' with hw' | hw' <;> cases hw.symm.trans hw'

theorem debounces_of_next (hn : s.work s.nextTask = none) (ht : task < s.nextTask)
    (hd : (s.next e).Debounces task g) : s.Debounces task g := by
  obtain ⟨request, h, id, p, d, hw⟩ := hd
  rcases work_next hn hw with hw | ⟨ha, hb⟩
  · exact ⟨request, h, id, p, d, hw⟩
  · cases hb with
    | debounce =>
      obtain rfl : s.nextTask = task := Option.some.inj ha
      exact absurd ht (Nat.lt_irrefl _)

theorem Run.Elapsed.ended (hc : r.Makes j c) (hn : r.Elapsed j n c) (hnk : n < k) :
    ¬(r.state k).Debounces c.task g := by
  induction hnk with
  | refl =>
    rintro ⟨_, _, _, _, _, hw'⟩
    obtain ⟨_, _, hd, hnone, hw⟩ := hn.elapses.elapsed
    obtain ⟨y, hy, _⟩ := hc.session_at (Nat.le_of_lt hn.after)
    rw [Run.state, hn.elapses.turn] at hw'
    cases ho : y.isClosed with
    | true => cases (elapse_closed hw hnone hd hy ho).1.symm.trans hw'
    | false =>
      have hconn := (r.invariant n).owned.connected ⟨hy, ho⟩
      cases (elapse_open hw hnone hd ⟨hy, ho⟩ hconn).1.symm.trans hw'
  | step hnk ih =>
    intro hd
    have ht := hc.task_lt (Nat.lt_trans hn.after hnk)
    exact ih (debounces_of_next (r.unused _) ht hd)

theorem Run.Elapsed.unique (hc : r.Makes j c) (hm : r.Elapsed j m c) (hn : r.Elapsed j n c) :
    n = m := by
  have hlt {a b : Nat} (ha : r.Elapsed j a c) (hb : r.Elapsed j b c) : ¬a < b := by
    intro hab
    obtain ⟨g, d, _, _, hw⟩ := hb.elapses.elapsed
    exact ha.ended (g := g) hc hab ⟨_, _, _, _, d, hw⟩
  exact Nat.le_antisymm (Nat.le_of_not_lt (hlt hm hn)) (Nat.le_of_not_lt (hlt hn hm))

theorem Run.Makes.elapses_once (hr : r.Punctual) (hc : r.Makes j c)
    (hcalm : ∀ m, j < m → (r.state m).Interrupts (r.event m) → r.deadline j ≤ (r.state m).now)
    (hjk : j < k) (ht : r.deadline j ≤ (r.state k).now) (hs : (r.state k).IsSettled) :
    ∃! n, n < k ∧ r.Elapsed j n c := by
  have hearly (m : Nat) (hm : r.Interrupted j m) : False :=
    Nat.not_lt_of_le (hcalm m hm.after hm.interrupts) hm.early
  have hone {n : Nat} (hnk : n < k) (hn : r.Elapsed j n c) : ∃! n, n < k ∧ r.Elapsed j n c :=
    ⟨n, ⟨hnk, hn⟩, fun i hi => hn.unique hc hi.2⟩
  cases hc.stage_at hr hjk with
  | waiting hw => exact absurd (hs.debounces hw).2 (Nat.not_lt_of_le ht)
  | rejected hm | cancelled hm => exact (hearly _ hm).elim
  | pushing hn hnk => exact hone hnk hn
  | failed hn hni hik => exact hone (Nat.lt_trans hni hik) hn
  | asked hn hni hik => exact hone (Nat.lt_trans hni hik) hn
  | skipped hn hnk => exact hone hnk hn

/-- What followed the delay of a request whose session was open by then: its push is under way, or
it failed and the request with it, or it was accepted and the request asked. -/
inductive Run.Followed (r : Run) (n k : Nat) (c : CompletionTask) (y : Session) : Prop where
  | underWay (hw : (r.state k).work c.task = some (c.pushed y))
      (hc : (r.state k).callsOf c.task = [c.push y])
  | failed {i : Nat} {error : Failure} (hni : n < i) (hik : i < k)
      (hi : r.event i = .answer c.task (.synced (.error error)))
      (hl : ∃ l, (r.state (i + 1)).journal =
        .finished c.request (.completion (.error error)) :: l)
      (hc : (r.state k).callsOf c.task = [c.push y])
  | asked {i : Nat} {x : Session} (hni : n < i) (hik : i < k)
      (hi : r.event i = .answer c.task (.synced (.ok ())))
      (hx : (r.state i).session? c.session = some x)
      (hc : (r.state k).callsOf c.task = [c.question x, c.push y])

theorem Run.Elapsed.followed (hr : r.Punctual) (hc : r.Makes j c) (hn : r.Elapsed j n c)
    (hy : (r.state n).IsOpen c.session y) (hnk : n < k) : r.Followed n k c y := by
  cases hc.stage_at hr (Nat.lt_trans hn.after hnk) with
  | waiting hw | rejected _ _ hw => exact absurd ⟨_, _, _, _, _, hw⟩ (hn.ended hc hnk)
  | cancelled hm => exact (hm.not_elapsed hn).elim
  | pushing hn' _ hy' hw hcalls =>
    obtain rfl := hn.unique hc hn'
    obtain rfl := Option.some.inj (hy.1.symm.trans hy'.1)
    exact .underWay hw hcalls
  | failed hn' hni hik hy' hi hl _ hcalls =>
    obtain rfl := hn.unique hc hn'
    obtain rfl := Option.some.inj (hy.1.symm.trans hy'.1)
    exact .failed hni hik hi hl hcalls
  | asked hn' hni hik hy' hi hx _ hcalls =>
    obtain rfl := hn.unique hc hn'
    obtain rfl := Option.some.inj (hy.1.symm.trans hy'.1)
    exact .asked hni hik hi hx hcalls
  | skipped hn' _ hy' ho =>
    obtain rfl := hn.unique hc hn'
    obtain rfl := Option.some.inj (hy.1.symm.trans hy')
    exact absurd (ho.symm.trans hy.2) (by simp)

theorem Run.Elapsed.skipped (hr : r.Punctual) (hc : r.Makes j c) (hn : r.Elapsed j n c)
    (hy : (r.state n).session? c.session = some y) (ho : y.isClosed = true) (hnk : n < k) :
    (r.state k).callsOf c.task = [c.question y] := by
  have hopen {x : Session} (hx : (r.state n).IsOpen c.session x) : False := by
    obtain rfl := Option.some.inj (hy.symm.trans hx.1)
    exact absurd (ho.symm.trans hx.2) (by simp)
  cases hc.stage_at hr (Nat.lt_trans hn.after hnk) with
  | waiting hw | rejected _ _ hw => exact absurd ⟨_, _, _, _, _, hw⟩ (hn.ended hc hnk)
  | cancelled hm => exact (hm.not_elapsed hn).elim
  | pushing hn' _ hy' =>
    obtain rfl := hn.unique hc hn'
    exact (hopen hy').elim
  | failed hn' _ _ hy' =>
    obtain rfl := hn.unique hc hn'
    exact (hopen hy').elim
  | asked hn' _ _ hy' =>
    obtain rfl := hn.unique hc hn'
    exact (hopen hy').elim
  | skipped hn' _ hy' _ _ hcalls =>
    obtain rfl := hn.unique hc hn'
    obtain rfl := Option.some.inj (hy.symm.trans hy')
    exact hcalls

/-- What comes of the request that event `j` makes. -/
structure Run.Decided (r : Run) (j : Nat) (c : CompletionTask) : Prop where
  /-- An interrupted request is cancelled at that time. -/
  cancelled : ∀ m k, r.Interrupted j m → m < k → (r.state k).IsSettled →
    ∃ n, m < n ∧ n < k ∧ r.Cancelled n c ∧ (r.state n).now = (r.state m).now
  /-- Its task calls nothing, at any time. -/
  silent : ∀ m k, r.Interrupted j m → (r.state k).callsOf c.task = []
  /-- Nothing else cancels. -/
  only : ∀ n, j < n → r.Cancelled n c →
    ∃ m, m < n ∧ r.Interrupted j m ∧ (r.state n).now = (r.state m).now
  /-- Without an interruption in time the task waits out its delay, once. -/
  elapses : ∀ k,
    (∀ m, j < m → (r.state m).Interrupts (r.event m) → r.deadline j ≤ (r.state m).now) →
    j < k → r.deadline j ≤ (r.state k).now → (r.state k).IsSettled →
    ∃! n, n < k ∧ r.Elapsed j n c
  /-- It goes on when the delay is over, neither earlier nor later. -/
  timely : ∀ n, r.Elapses n c → r.Elapsed j n c
  /-- Then an open session is pushed, once, and the question depends on the answer. -/
  pushed : ∀ n k y, r.Elapsed j n c → (r.state n).IsOpen c.session y → n < k → r.Followed n k c y
  /-- A closed one has nothing to push, and the question comes at once. -/
  unpushed : ∀ n k y, r.Elapsed j n c → (r.state n).session? c.session = some y →
    y.isClosed = true → n < k → (r.state k).callsOf c.task = [c.question y]

theorem Run.Makes.decided (hr : r.Punctual) (hc : r.Makes j c) : r.Decided j c where
  cancelled _ _ hm hmk hs := hm.cancelled hr hc hmk hs
  silent _ k hm := hm.silent hr hc k
  only _ hjn hn := hn.interrupted hr hc hjn
  elapses _ hcalm hjk ht hs := hc.elapses_once hr hcalm hjk ht hs
  timely _ hn := hc.elapsed hr hn
  pushed _ _ _ hn hy hnk := hn.followed hr hc hy hnk
  unpushed _ _ _ hn hy ho hnk := hn.skipped hr hc hy ho hnk

/-- What a user may do without ending a debounce: a refused completion request, a change that no
open session accepts, new hidden text, a flush, closing a document. -/
inductive Harmless (s : Service) : Event → Prop where
  | refused {request : Nat} {id : DocumentId} {p : EditorPosition} {error : Failure}
      (hr : s.require id = .error error) : Harmless s (.complete request id p)
  | rejected {name : String} {change : ContentChange}
      (hx : ∀ h x, s.IsOpen h x → x.channel = name →
        ∃ error, x.document.FailsWith change.changes error) : Harmless s (.change name change)
  | setContext {h : Nat} {before after : List Char} : Harmless s (.setContext h before after)
  | flush {request h : Nat} : Harmless s (.flush request h)
  | closeDocument {id : DocumentId} : Harmless s (.closeDocument id)

theorem Harmless.not_interrupts (hh : Harmless s e) : ¬Interrupts s e := by
  intro hi
  cases hh with
  | refused hr =>
    cases hi with
    | complete hr' => cases hr.symm.trans hr'
  | rejected hx =>
    cases hi with
    | change hy hd =>
      obtain ⟨error, he⟩ := hx _ _ hy rfl
      cases (Document.applyAll_error_iff.mpr he).symm.trans (Document.applyAll_ok_iff.mpr hd)
  | setContext | flush | closeDocument => cases hi

theorem Harmless.ne_run (hh : Harmless s e) (task : Nat) : e ≠ .run task := by
  rintro rfl
  cases hh

/-- How the debounces of completions end, in a run. -/
structure Run.DebouncesExactly (r : Run) : Prop where
  decided : ∀ j c, r.Makes j c → r.Decided j c
  /-- Whoever waits waits on, and its wait is as it was. -/
  unharmed : ∀ k, Harmless (r.state k) (r.event k) →
    (r.state (k + 1)).wait = (r.state k).wait ∧
      ∀ task w, (r.state k).work task = some w → (∃ g, (r.state k).Debounces task g) →
        (r.state (k + 1)).work task = some w
  /-- At most one task waits whose wait was not rejected. -/
  one : ∀ k task task' g g', (r.state k).Debounces task g → (r.state k).Debounces task' g' →
    (r.state k).wait.rejections.lookup g = none →
    (r.state k).wait.rejections.lookup g' = none → task' = task
  /-- When all work is done, at most one task waits. -/
  alone : ∀ k task task' g g', (r.state k).IsSettled → (r.state k).Debounces task g →
    (r.state k).Debounces task' g' → task' = task

theorem Waiting.one {task' g' : Nat} (hs : s.Waiting) (hd : s.Debounces task g)
    (hd' : s.Debounces task' g') (hg : s.wait.rejections.lookup g = none)
    (hg' : s.wait.rejections.lookup g' = none) : task' = task := by
  have hout {task g : Nat} (hd : s.Debounces task g) (hg : s.wait.rejections.lookup g = none) :
      s.wait.outstanding = some g := by
    refine (hs.answered hd).resolve_right fun hsome => ?_
    rw [hg] at hsome
    cases hsome
  obtain rfl := Option.some.inj ((hout hd hg).symm.trans (hout hd' hg'))
  exact hs.apart hd hd'

/-- In a punctual run a completion is cancelled if it is interrupted while its delay is not over,
and otherwise it pushes its document and asks when the delay is over. -/
theorem debounces_exactly (r : Run) (hr : r.Punctual) : r.DebouncesExactly where
  decided _ _ hc := hc.decided hr
  unharmed k hh := by
    refine ⟨wait_next (r.sound k) (r.whole k) hh.not_interrupts hh.ne_run, ?_⟩
    rintro task w hw ⟨g, request, h, id, p, d, hd⟩
    obtain rfl := Option.some.inj (hd.symm.trans hw)
    have ht : task < (r.state k).nextTask := Nat.lt_of_not_le fun hle =>
      Option.some_ne_none _ (hw.symm.trans ((r.invariant k).numbered task hle))
    exact (debounce_waits ht hw (hh.ne_run task)).1
  one k _ _ _ _ hd hd' hg hg' := (r.waiting k).one hd hd' hg hg'
  alone k _ _ _ _ hs hd hd' := by
    obtain ⟨_, _, _, _, _, hw⟩ := hd
    obtain ⟨_, _, _, _, _, hw'⟩ := hd'
    exact (r.waiting k).one ⟨_, _, _, _, _, hw⟩ ⟨_, _, _, _, _, hw'⟩ (hs.debounces hw).1
      (hs.debounces hw').1

/-- A completion is superseded by another one, whose delay passes. -/
def supersededRun : Run where
  syncDelay := 300
  completionDelay := 10
  input := ⟨⟨[]⟩, []⟩
  event
    | 0 => .connect 0
    | 1 => .answer 0 (.connected (.ok ()) (.ok ()))
    | 2 => .openDocument ⟨"a"⟩ (.standalone ['x']) "a"
    | 3 => .fire 0
    | 4 => .run 1
    | 5 => .complete 1 ⟨"a"⟩ ⟨1, 1⟩
    | 6 => .pass 4
    | 7 => .complete 2 ⟨"a"⟩ ⟨1, 2⟩
    | 8 => .run 2
    | 9 => .pass 10
    | 10 => .run 3
    | 11 => .answer 3 (.synced (.ok ()))
    | _ => .endStream
  whole k := by
    split <;> rfl

theorem supersededRun_punctual : supersededRun.Punctual where
  calls k hc := by
    simp only [supersededRun] at hc
    split at hc <;> first | cases hc; done | exact rfl
  waits k n he := by
    simp only [supersededRun] at he
    split at he <;> cases he <;> rfl
  stops k n d he hd := by
    simp only [supersededRun] at he
    split at he <;> cases he
    · exact (by decide : ∀ d ∈ (supersededRun.state 6).deadline?,
        (supersededRun.state 6).now + 4 ≤ d) d hd
    · exact (by decide : ∀ d ∈ (supersededRun.state 9).deadline?,
        (supersededRun.state 9).now + 10 ≤ d) d hd

theorem supersededRun_debounces :
    supersededRun.Punctual ∧ supersededRun.Makes 5 ⟨1, 2, 0, ⟨"a"⟩, ⟨1, 1⟩⟩ ∧
      supersededRun.Makes 7 ⟨2, 3, 0, ⟨"a"⟩, ⟨1, 2⟩⟩ ∧ supersededRun.DebouncesExactly ∧
      (supersededRun.state 12).callsOf 2 = [] ∧
      (supersededRun.state 12).callsOf 3 =
        [.complete ⟨"a"⟩ ⟨1, 1⟩, .sync 0 2 ⟨"a"⟩ ['x']] :=
  ⟨supersededRun_punctual, ⟨rfl, rfl, rfl⟩, ⟨rfl, rfl, rfl⟩,
    debounces_exactly supersededRun supersededRun_punctual, by decide, by decide⟩

end DocSync.Service
