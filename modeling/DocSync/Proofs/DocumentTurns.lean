import DocSync.Proofs.DocumentSteps

/-!
What a service shows of a document when a task for it moves: a push starts and is answered, a
question is asked and answered, a timer fires.
-/

namespace DocSync.Service

open PushState

variable {s t : Service} {names : Names} {id : DocumentId} {w : Work}
  {h i k n task request : Nat} {x y : Session}

theorem view_end (hi : (s.tasksOf id)[i]? = some task) (hd : t.desk = s.desk)
    (ht : t.titles = s.titles) (hp : t.pushState = s.pushState.setWork task none)
    {l : List News} (hnews : t.news names id = l ++ s.news names id) :
    t.view names id = (s.view names id).endTask i l := by
  have hwork (k : Nat) : t.work k = if k = task then none else s.work k := by
    refine (congrArg (fun v => v.work k) hp).trans ?_
    exact Function.update_apply _ _ _ _
  have hworks : t.worksOf id = (s.worksOf id).eraseIdx i :=
    worksOf_end hi ht (congrArg PushState.nextTask hp)
      (fun j hj => (hwork j).trans (if_neg hj)) ((hwork task).trans (if_pos rfl))
  have hlooks : t.looks id = s.looks id := by
    rw [looks, sessionsOf_of_titles ht, hp]
    rfl
  have hbusy : t.running.isBusy id = s.running.isBusy id :=
    congrArg (fun v => v.running.isBusy id) hp
  rw [view_of_desk hd ht, hworks, hlooks, hbusy, hnews]
  rfl

theorem view_afterPush {after : After} (t : Ticket) (hi : (s.tasksOf id)[i]? = some task)
    (hf : (Work.sync h t after).Fits names (some id)) (result : Except Failure Unit) :
    (s.afterPush task result after).view names id =
      (s.view names id).endTask i (after.news result) := by
  have hnews : (s.afterPush task result after).news names id =
      after.news result ++ s.news names id := by
    refine (news_afterPush hf result).trans ?_
    rw [if_pos rfl]
  cases hf with
  | push => exact view_end (t := s.drop task) hi rfl rfl pushState_drop hnews
  | flush => exact view_end (t := s.finish task _ _) hi rfl rfl (pushState_finish _ _) hnews

theorem look_send (x : Session) (due : Option Nat) : Look.of x.send due = (Look.of x due).send := by
  rw [Session.send]
  exact apply_ite (fun y => Look.of y due) _ _ _

theorem look_settle (x : Session) (t : Ticket) (due : Option Nat) :
    Look.of (x.settle t) due = (Look.of x due).settle t := by
  rw [Session.settle]
  exact apply_ite (fun y => Look.of y due) _ _ _

theorem desk_of_status (hbase : t.base = s.base) (hstatus : t.status = s.status) :
    t.desk = s.desk := by
  have hset := setting_of_base hbase
  have hreg : t.registry = s.registry := congrArg Status.registry hstatus
  have hdiag : t.diagnostics = s.diagnostics := congrArg Status.diagnostics hstatus
  rw [desk, desk, hset, hreg, hdiag]

theorem look?_set {v : PushState} (hx : v.session h = some x) (ht : y.timer = x.timer) :
    (v.setSession h y).look? h = some (.of y (v.due h)) ∧
      ∀ k, k ≠ h → (v.setSession h y).look? k = v.look? k := by
  have hself : (v.setSession h y).session h = some y := Function.update_self _ _ _
  constructor
  · have hdue : (v.setSession h y).due h = v.due h := by
      rw [PushState.due, PushState.due, hself, hx, Option.bind_some, Option.bind_some, ht]
      rfl
    rw [PushState.look?, hself, hdue]
    rfl
  · intro k hk
    exact look?_of (Function.update_of_ne hk _ _) fun _ _ _ _ => rfl

/-- A flush of a closed session ends at once. -/
theorem view_flush_closed (hs : s.Orderly names) (hx : s.session? h = some x)
    (ho : x.isClosed = true) (hr : names.request request = some id) :
    (s.requestFlush request h).view names id =
      (s.view names id).tell [.finished request (.done (.ok ()))] := by
  have hunused : s.work s.nextTask = none := hs.invariant.numbered _ (Nat.le_refl _)
  have hother (k : Nat) (hk : k ≠ s.nextTask) : (s.requestFlush request h).work k = s.work k :=
    work_flush_of_ne (s := s.fresh.1) hk _
  have hflush : s.requestFlush request h =
      s.fresh.1.finish s.nextTask request (.done (.ok ())) :=
    flush_closed (s := s.fresh.1) hx ho _
  have hself : (s.requestFlush request h).worksFor id s.nextTask = false := by
    rw [worksFor, hflush, work_finish, if_pos rfl]
    rfl
  have ht : (s.requestFlush request h).titles = s.titles := by
    rw [hflush]
    rfl
  have hnext : (s.requestFlush request h).nextTask = s.nextTask + 1 :=
    congrArg Service.nextTask hflush
  have hdesk : (s.requestFlush request h).desk = s.desk := by
    rw [hflush]
    rfl
  rw [view_of_desk hdesk ht, worksOf_skip ht hnext hother hself, hflush, news_finish, if_pos hr]
  rfl

theorem look?_flush
    (hp : (s.requestFlush request h).pushState =
      ((s.fresh.1.pushState.dropTimer x).markBusy x.id).push s.nextTask h
        { x.bump with timer := (x.timer.cancel s.agenda).1 } (.flush request)) :
    (s.requestFlush request h).pushState.look? h =
      some ((Look.of x (s.pushState.due h)).write x.document none).send := by
  have hself : (s.requestFlush request h).pushState.session h = some _ :=
    (congrArg (fun v => v.session h) hp).trans (Function.update_self _ _ _)
  have hdue : (s.requestFlush request h).pushState.due h = none := by
    refine due_of_pending hself ?_
    rw [send_timer]
    exact Timer.cancel_pending _ _
  rw [PushState.look?, hself, hdue, Option.map_some, look_send]
  rfl

/-- A flush starts a version and pushes it at once, or ends at once. -/
theorem view_flush (hs : s.Orderly names) (hn : (s.sessionsOf id)[n]? = some h)
    (hr : names.request request = some id) :
    (s.requestFlush request h).view names id = (s.view names id).flush request n := by
  obtain ⟨x, hx, hid⟩ := session_of_number hn
  have hunused : s.work s.nextTask = none := hs.invariant.numbered _ (Nat.le_refl _)
  have hother (k : Nat) (hk : k ≠ s.nextTask) : (s.requestFlush request h).work k = s.work k :=
    work_flush_of_ne (s := s.fresh.1) hk _
  cases ho : x.isClosed with
  | true =>
    simp only [View.flush, view_look? hn hx]
    change _ = if x.isClosed = true then _ else _
    rw [if_pos ho]
    exact view_flush_closed hs hx ho hr
  | false =>
    have hc : s.isConnected = true := hs.invariant.owned.connected ⟨hx, ho⟩
    have hp : (s.requestFlush request h).pushState = _ :=
      pushState_flush_open (s := s.fresh.1) hx ho hc (.flush request)
    have hnews : (s.requestFlush request h).news names id = _ :=
      news_flush (s := s.fresh.1) hx ho hc (.flush request)
    have hdesk : (s.requestFlush request h).desk = s.desk :=
      desk_of_status (base_flush (s := s.fresh.1) _) (status_flush (s := s.fresh.1) _)
    have hpart :
        Part .inside s.fresh.1.pushState (.pushed h) (s.requestFlush request h).pushState := by
      have hunused : s.fresh.1.pushState.work s.nextTask = none := hunused
      exact hp ▸ .flush hx ho hc (Nat.lt_succ_self _) (hunused ▸ isQuiet_none)
    have ht : (s.requestFlush request h).titles = s.titles :=
      hpart.titles (s := s.fresh.1) fun _ => nofun
    have hself : (s.requestFlush request h).work s.nextTask =
        some (.sync h ⟨x.version + 1⟩ (.flush request)) :=
      (congrArg (fun v => v.work s.nextTask) hp).trans (Function.update_self _ _ _)
    have hworks : (s.requestFlush request h).worksOf id =
        s.worksOf id ++ [some (.sync n ⟨x.version + 1⟩ (.flush request))] := by
      have hd : s.documentOf (.sync h ⟨x.version + 1⟩ (.flush request)) = some id :=
        title_of_number hn
      have hnext : (s.requestFlush request h).nextTask = s.nextTask + 1 :=
        congrArg PushState.nextTask hp
      rw [worksOf_begin ht hnext hother hself hd, Work.renumber, number_of_getElem? hn]
    have hlooks : (s.requestFlush request h).looks id = _ :=
      hpart.looks_set ((fresh_part s.pushState).ticking hs.ticking) hn ht fun k hk => hk.symm
    have hbusy : (s.requestFlush request h).running.isBusy id = true := by
      refine (congrArg (fun v => v.running.isBusy id) hp).trans ?_
      refine (isBusy_markBusy _ _ _).trans ?_
      rw [hid, beq_self_eq_true, Bool.true_or]
    simp only [View.flush, view_look? hn hx]
    change _ = if x.isClosed = true then _ else _
    rw [ho, if_neg Bool.false_ne_true, view_of_desk hdesk ht, hworks, hlooks, look?_flush hp,
      hbusy, hnews, if_pos hid]
    rfl

/-- The task that a timer started pushes, or ends if the session was closed. -/
theorem view_start (hs : s.Orderly names) (hi : (s.tasksOf id)[i]? = some task)
    (hw : s.work task = some (.start h)) (hn : (s.sessionsOf id)[n]? = some h) :
    (s.next (.run task)).view names id = (s.view names id).start i n := by
  obtain ⟨x, hx, hid⟩ := session_of_number hn
  rw [next_run hw]
  change (s.push task h .nothing).view names id = _
  cases ho : x.isClosed with
  | true =>
    rw [push_closed hx ho, View.start, view_closed hn hx ho]
    exact view_afterPush (h := h) ⟨0⟩ hi .push (.ok ())
  | false =>
    have hc : s.isConnected = true := hs.invariant.owned.connected ⟨hx, ho⟩
    have hp : (s.push task h .nothing).pushState = _ := pushState_push hx ho hc .nothing
    have hpart : Part .inside s.pushState (.pushed h) (s.push task h .nothing).pushState :=
      hp ▸ .start hw hx ho hc
    have ht : (s.push task h .nothing).titles = s.titles := hpart.titles fun _ => nofun
    have hself : (s.push task h .nothing).work task = some (.sync h x.ticket .nothing) :=
      (congrArg (fun v => v.work task) hp).trans (Function.update_self _ _ _)
    have hworks : (s.push task h .nothing).worksOf id =
        (s.worksOf id).set i (some (.sync n x.ticket .nothing)) := by
      have hd : s.documentOf (.sync h x.ticket .nothing) = some id := title_of_number hn
      have hnext : (s.push task h .nothing).nextTask = s.nextTask :=
        congrArg PushState.nextTask hp
      rw [worksOf_move hi ht hnext (fun j hj => work_push_of_ne hj _) hself hd, Work.renumber,
        number_of_getElem? hn]
    have hlook : (s.push task h .nothing).pushState.look? h =
        some (Look.of x (s.pushState.due h)).send := by
      rw [hp, ← look_send]
      exact (look?_set hx (send_timer x)).1
    have hlooks := hpart.looks_set hs.ticking hn ht fun k hk => hk.symm
    have hbusy : (s.push task h .nothing).running.isBusy id = s.running.isBusy id :=
      congrArg (fun v => v.running.isBusy id) hp
    rw [view_of_desk (desk_of_status (base_push _) (status_push _)) ht, hworks, hlooks, hlook,
      hbusy, news_push hx ho hc, if_pos hid, View.start, view_open? hn hx ho]
    rfl

/-- The timer of an open session fires, and a task is started that pushes. -/
theorem view_fire {sleeper : Sleeper Debounce} (hs : s.Orderly names)
    (hf : s.agenda.find? i = some sleeper) (hd : sleeper.deadline ≤ s.now)
    (hn : (s.sessionsOf id)[n]? = some sleeper.job.session) :
    ∃ l, (s.view names id).look? n = some l ∧ l.due = some sleeper.deadline ∧
      (s.next (.fire i)).view names id = (s.view names id).fire n l := by
  obtain ⟨x, hx, hp, ht?, hfire⟩ := fire_eq hs.ticking.sleeping hf
  have hsession : s.session? sleeper.job.session = some x := hx.1
  have hid' : sleeper.id = i := Agenda.find?_id hf
  subst hid'
  have hfired := fired_fire hs.ticking.sleeping hf
  let y : Session := { x with timer := { x.timer with pending := none } }
  let u : Service := { s with agenda := s.agenda.drop sleeper.id }
  have hu : u.session? sleeper.job.session = some x := hx.1
  have hpush : (s.fire sleeper).pushState =
      (u.pushState.setSession sleeper.job.session y).spawn (.start sleeper.job.session) := by
    rw [hfire, pushState_spawn, pushState_setSession hu]
  have hpart : Part .inside s.pushState (.fired sleeper.job.session) (s.fire sleeper).pushState :=
    hpush ▸ .fire hf hx.1 ht?
  rw [next_fire hf hd]
  refine ⟨.of x (s.pushState.due sleeper.job.session), view_look? hn hsession, hfired.before, ?_⟩
  have hunused : s.work s.nextTask = none := hs.invariant.numbered _ (Nat.le_refl _)
  have ht : (s.fire sleeper).titles = s.titles := hpart.titles fun _ => nofun
  have hwork (k : Nat) : (s.fire sleeper).work k =
      (s.work k).or (if k = s.nextTask then some (.start sleeper.job.session) else none) := by
    rw [hfire]
    exact work_spawn
  have hworks : (s.fire sleeper).worksOf id = s.worksOf id ++ [some (.start n)] := by
    have hother (k : Nat) (hk : k ≠ s.nextTask) : (s.fire sleeper).work k = s.work k := by
      rw [hwork, if_neg hk, Option.or_none]
    have hself : (s.fire sleeper).work s.nextTask = some (.start sleeper.job.session) := by
      rw [hwork, hunused, if_pos rfl]
      rfl
    have hdoc : s.documentOf (.start sleeper.job.session) = some id := title_of_number hn
    have hnextTask : (s.fire sleeper).nextTask = s.nextTask + 1 := congrArg PushState.nextTask hpush
    rw [worksOf_begin ht hnextTask hother hself hdoc, Work.renumber, number_of_getElem? hn]
  have hlook : (s.fire sleeper).pushState.look? sleeper.job.session =
      some { Look.of x (s.pushState.due sleeper.job.session) with due := none } := by
    have hself : (s.fire sleeper).pushState.session sleeper.job.session = some y :=
      (congrArg (fun v => v.session sleeper.job.session) hpush).trans (Function.update_self _ _ _)
    rw [PushState.look?, hself, hfired.due]
    rfl
  have hlooks := hpart.looks_set hs.ticking hn ht fun k hk => hk.symm
  have hdesk : (s.fire sleeper).desk = s.desk := by
    rw [hfire]
    rfl
  have hbusy : (s.fire sleeper).running = s.running := congrArg PushState.running hpush
  have hnews : (s.fire sleeper).news names id = s.news names id := by
    rw [hfire]
    rfl
  rw [view_of_desk hdesk ht, hworks, hlooks, hlook, hbusy, hnews]
  rfl

theorem titles_setSession (hx : s.session? h = some x) (hy : y.id = x.id) :
    (s.setSession h y).titles = s.titles := by
  refine List.ext_getElem? fun k => ?_
  rw [← title_eq, ← title_eq]
  by_cases hk : k = h
  · subst hk
    rw [session?_setSession hx y, hx, Option.map_some, Option.map_some, hy]
  · have hsame : (s.setSession h y).session? k = s.session? k := List.getElem?_set_ne (Ne.symm hk)
    rw [hsame]

theorem titles_completePush (hx : s.session? h = some x) (t : Ticket)
    (result : Except Failure Unit) : (s.completePush h t result).1.titles = s.titles := by
  have hset : (s.setSession h (x.settle t)).titles = s.titles :=
    titles_setSession hx (settle_id x t)
  simp only [completePush, hx]
  split
  · rfl
  · split
    · split
      · exact (titles_of_session (congrArg PushState.session (pushState_markIdle _))).trans hset
      · rfl
    · exact hset

theorem view_completePush (hn : (s.sessionsOf id)[n]? = some h) (t : Ticket)
    (result : Except Failure Unit) :
    (s.completePush h t result).1.view names id = (s.view names id).settle id n t result := by
  obtain ⟨x, hx, hid⟩ := session_of_number hn
  have hdrawn : s.Redrawn (s.completePush h t result).1 :=
    ⟨s.wait, s.channels, outline_completePush t result⟩
  have hnews : (s.completePush h t result).1.news names id =
      refusal id x.isClosed result ++ s.news names id := by
    refine (news_completePush hx t result).trans ?_
    rw [if_pos hid]
  have ht := titles_completePush hx t result
  have hseen {u : Service} (ht : u.titles = s.titles)
      (hp : u.pushState.look? = (s.pushState.setSession h (x.settle t)).look?) :
      u.looks id = (s.looks id).set n (some ((Look.of x (s.pushState.due h)).settle t)) := by
    obtain ⟨hself, hother⟩ := look?_set (v := s.pushState) hx (settle_timer x t)
    rw [looks_set hn ht fun k hk => hp ▸ hother k hk, hp, hself, look_settle]
  have hset := pushState_setSession hx (x.settle t)
  have hclosed : (Look.of x (s.pushState.due h)).isClosed = x.isClosed := rfl
  have hversion : (Look.of x (s.pushState.due h)).version = x.version := rfl
  simp only [View.settle, view_look? hn hx, hclosed, hversion]
  cases ho : x.isClosed with
  | true =>
    rw [if_pos rfl, completePush_closed hx ho t result]
    cases result <;> rfl
  | false =>
    rw [if_neg Bool.false_ne_true]
    rw [ho] at hnews
    cases result with
    | ok =>
      change _ = if t.isCurrent x.version = true then _ else _
      cases hc : t.isCurrent x.version with
      | true =>
        have hpush : s.completePush h t (.ok ()) =
            ((s.setSession h (x.settle t)).markIdle x.id, .ok ()) := by
          simp only [completePush, hx, ho, hc, Bool.false_eq_true, ↓reduceIte]
        rw [hpush] at hdrawn hnews ht ⊢
        have hp := pushState_markIdle (s := s.setSession h (x.settle t)) x.id
        have hbusy : ((s.setSession h (x.settle t)).markIdle x.id).running.isBusy id = false := by
          refine (congrArg (fun v => v.running.isBusy id) hp).trans ?_
          refine (isBusy_markIdle _ _ _).trans ?_
          rw [hid, bne_self_eq_false, Bool.false_and]
        have hlooks := hseen ht (hp.trans (congrArg (PushState.markIdle · x.id) hset) ▸ rfl)
        rw [hdrawn.view ht, hlooks, hnews, hbusy]
        rfl
      | false =>
        have hpush : s.completePush h t (.ok ()) = (s, .ok ()) := by
          simp only [completePush, hx, ho, hc, Bool.false_eq_true, ↓reduceIte]
        rw [hpush]
        rfl
    | error e =>
      have hpush : s.completePush h t (.error e) =
          ((s.setSession h (x.settle t)).report (some x.id) e.message, .error e) := by
        simp only [completePush, hx, ho, Bool.false_eq_true, ↓reduceIte]
      rw [hpush] at hdrawn hnews ht ⊢
      have hlooks := hseen ht (hset ▸ rfl)
      rw [hdrawn.view ht, hlooks, hnews]
      rfl

theorem view_tasks (hi : (s.tasksOf id)[i]? = some task) (hw : s.work task = some w) :
    (s.view names id).tasks[i]? = some (some (w.renumber (s.number id))) := by
  simp only [view, worksOf, List.getElem?_map, hi, Option.map_some, hw]

theorem view_synced {ticket : Ticket} {after : After} (hs : s.Orderly names)
    (hi : (s.tasksOf id)[i]? = some task) (hw : s.work task = some (.sync h ticket after))
    (hn : (s.sessionsOf id)[n]? = some h) (result : Except Failure Unit) :
    (s.answer task (.sync h ticket after) (.synced result)).view names id =
      ((s.view names id).settle id n ticket result).endTask i (after.news result) := by
  obtain ⟨x, hx, hid⟩ := session_of_number hn
  let u := s.note (.answered task h ticket.version (isOk result))
  have hview : u.view names id = s.view names id := rfl
  have hpush : (u.completePush h ticket result).1.view names id =
      (u.view names id).settle id n ticket result := view_completePush (s := u) hn ticket result
  have ht : (u.completePush h ticket result).1.titles = s.titles :=
    titles_completePush (s := u) hx _ _
  have hout := outline_completePush (s := u) (h := h) ticket result
  have htasks : (u.completePush h ticket result).1.tasksOf id = s.tasksOf id := by
    have htasks := congrArg Service.tasks hout
    have hnext := congrArg Service.nextTask hout
    exact tasksOf_of_tasks htasks hnext ht
  have hfits := hs.tasks hw
  rw [documentOf, hx, Option.map_some, hid] at hfits
  simp only [answer]
  rw [completePush_result, view_afterPush _ (htasks ▸ hi) hfits]
  rw [hpush, hview]

theorem view_answer (hs : s.Orderly names) (hi : (s.tasksOf id)[i]? = some task) (a : Answer) :
    (s.next (.answer task a)).view names id = (s.view names id).answer id i a := by
  obtain ⟨w, hw, hdoc⟩ := worksFor_iff.mp (mem_numbers.mp (List.mem_of_getElem? hi)).2
  have hfits := hdoc ▸ hs.tasks hw
  simp only [next_answer hw, View.answer, view_tasks hi hw, Option.join_some]
  cases hfits with
  | start => cases a <;> rfl
  | push =>
    cases a with
    | synced result =>
      obtain ⟨x, hx, rfl⟩ := Option.map_eq_some_iff.mp hdoc
      exact view_synced hs hi hw (getElem?_number hx) result
    | connected | completed | informed | stopped => rfl
  | flush =>
    cases a with
    | synced result =>
      obtain ⟨x, hx, rfl⟩ := Option.map_eq_some_iff.mp hdoc
      exact view_synced hs hi hw (getElem?_number hx) result
    | connected | completed | informed | stopped => rfl
  | @info _ request use hr =>
    cases a with
    | informed result =>
      cases result with
      | ok r =>
        refine view_end (t := s.finish task request _) hi rfl rfl (pushState_finish _ _) ?_
        rw [news_finish, if_pos hr]
      | error error =>
        refine view_end (t := s.fail task request id error _) hi rfl rfl ?_ ?_
        · rw [fail, pushState_finish, report, pushState_note rfl]
        · rw [fail, news_finish, if_pos hr, news_report, if_pos rfl]
          rfl
    | connected | completed | synced | stopped => rfl

theorem view_require (hs : s.Orderly names) :
    (s.view names id).require id =
      match s.require id with
      | .error e => .error e
      | .ok h => .ok (s.pushState.look? h) := by
  have hstopped : (s.view names id).isStopped = s.isStopped := rfl
  have hconnected : (s.view names id).isConnected = s.isConnected := rfl
  simp only [View.require, hstopped, hconnected, require]
  split
  · rfl
  · split
    · rfl
    · cases ho : s.open? id with
      | none => rw [view_owner_none names ho]
      | some h =>
        obtain ⟨hn, x, hx, _⟩ := hs.owner ho
        rw [view_owner names ho]
        simp only [view_look? hn hx, look?_eq hx]

theorem view_requestInfo (hs : s.Orderly names) (hr : names.request request = some id)
    (p : EditorPosition) (use : InfoUse) :
    (s.requestInfo request id p use).view names id =
      (s.view names id).info id request p use := by
  simp only [View.info, view_require hs, requestInfo]
  cases hrequire : s.require id with
  | error e =>
    have hdrawn : s.Redrawn (s.note (.finished request (InfoUse.refuse e use))) :=
      ⟨s.wait, s.channels, outline_note rfl⟩
    simp only
    rw [hdrawn.view rfl, news_note, Notice.news?, if_pos hr]
    rfl
  | ok h =>
    obtain ⟨_, _, ho⟩ := require_ok hrequire
    obtain ⟨_, x, hx, _⟩ := hs.owner ho
    simp only [look?_eq hx, hx]
    have hunused : s.work s.nextTask = none := hs.invariant.numbered _ (Nat.le_refl _)
    let t := s.fresh.1.ask s.nextTask (.info request id use)
      (.info id (x.document.shift.toServer p))
    change t.view names id = _
    have hwork (k : Nat) : t.work k =
        if k = s.nextTask then some (.info request id use) else s.work k := work_ask _
    have hworks : t.worksOf id = s.worksOf id ++ [some (.info request id use)] :=
      worksOf_begin (s := s) (t := t) rfl rfl (fun k hk => (hwork k).trans (if_neg hk))
        ((hwork s.nextTask).trans (if_pos rfl)) rfl
    have hnews : t.news names id = .asked (x.document.shift.toServer p) :: s.news names id := by
      refine (news_note _).trans ?_
      rw [Notice.news?, if_pos rfl]
      rfl
    rw [view_of_desk (t := t) rfl rfl, hworks, hnews]
    rfl

end DocSync.Service
