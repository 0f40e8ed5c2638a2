import DocSync.Proofs.PushRun

/-!
What an event does to the tasks. At most one task moves in an event: the one whose turn it is, the
one that is answered, or a new one. What a task can come to wait for, and when, is listed once, by
`Begins`.
-/

namespace DocSync.Service

variable {s t : Service} {e : Event} {h k task : Nat} {w : Work} {x : Session}

/-- What a task waits for. -/
def work (s : Service) (task : Nat) : Option Work := s.tasks.lookup task

theorem work_of_outline (ho : t.outline = s.outline) : t.work = s.work := by
  have ht := congrArg Service.tasks ho
  funext k
  exact congrArg (List.lookup k) ht

theorem work_drop : (s.drop task).work k = if k = task then none else s.work k :=
  Keyed.lookup_remove task s.tasks k

theorem work_hold : (s.hold task w).work k = if k = task then some w else s.work k :=
  Keyed.lookup_put task w s.tasks k

theorem work_spawn :
    (s.spawn w).work k = (s.work k).or (if k = s.nextTask then some w else none) :=
  Keyed.lookup_concat s.tasks s.nextTask w k

theorem work_finish (request : Nat) (o : Outcome) :
    (s.finish task request o).work k = if k = task then none else s.work k := work_drop

theorem work_ask (c : Call) :
    (s.ask task w c).work k = if k = task then some w else s.work k := work_hold

theorem next_run (hw : s.work task = some w) : s.next (.run task) = s.run task w := by
  have hw : s.tasks.lookup task = some w := hw
  simp only [next, hw]

theorem next_answer (hw : s.work task = some w) (a : Answer) :
    s.next (.answer task a) = s.answer task w a := by
  have hw : s.tasks.lookup task = some w := hw
  simp only [next, hw]

theorem next_fire {i : Nat} {sleeper : Sleeper Debounce} (hf : s.agenda.find? i = some sleeper)
    (hd : sleeper.deadline ≤ s.now) : s.next (.fire i) = s.fire sleeper := by
  simp only [next, hf, if_pos hd]

theorem next_elapse {request g d : Nat} {id : DocumentId} {p : EditorPosition}
    (hw : s.work task = some (.debounce request h id p g d))
    (hr : s.wait.rejections.lookup g = none) (hd : d ≤ s.now) :
    s.next (.run task) =
      { s with wait := s.wait.elapse g }.flush task h (.completion request h id p) := by
  rw [next_run hw]
  simp [run, runDebounce, Wait.poll?, hr, hd]

def Notice.ask? : Notice → Option (Nat × DocumentId × ServerPosition)
  | .called task (.complete id p) => some (task, id, p)
  | _ => none

/-- The questions for completions, newest first: the task that asked, the document, the place. -/
def asked (s : Service) : List (Nat × DocumentId × ServerPosition) :=
  s.journal.filterMap Notice.ask?

theorem asked_of_outline (ho : t.outline = s.outline) : t.asked = s.asked := by
  have hj : t.journal.filter Notice.isAsk = s.journal.filter Notice.isAsk :=
    congrArg Service.journal ho
  have hf (l : List Notice) : (l.filter Notice.isAsk).filterMap Notice.ask? =
      l.filterMap Notice.ask? := by
    rw [List.filterMap_filter]
    congr 1
    funext n
    cases n with
    | called task c => cases c <;> rfl
    | _ => rfl
  calc t.asked = (t.journal.filter Notice.isAsk).filterMap Notice.ask? := (hf _).symm
    _ = s.asked := by rw [hj, hf]; rfl

theorem afterPush_cases (s : Service) (task : Nat) (result : Except Failure Unit) (after : After) :
    (∃ request h id p x, after = .completion request h id p ∧ result = .ok () ∧
        s.session? h = some x ∧ s.afterPush task result after =
          s.ask task (.complete request id p) (.complete id (x.document.shift.toServer p))) ∨
      (∀ k, (s.afterPush task result after).work k = if k = task then none else s.work k) ∧
        (s.afterPush task result after).asked = s.asked := by
  cases after with
  | nothing => exact Or.inr ⟨fun k => work_drop, rfl⟩
  | flush request => exact Or.inr ⟨fun k => work_finish _ _, rfl⟩
  | completion request h id p =>
    cases result with
    | error e => exact Or.inr ⟨fun k => work_finish _ _, rfl⟩
    | ok u =>
      cases hx : s.session? h with
      | none =>
        refine Or.inr ?_
        simp only [afterPush, hx]
        exact ⟨fun k => work_drop, rfl⟩
      | some x =>
        refine Or.inl ⟨request, h, id, p, x, rfl, rfl, hx, ?_⟩
        simp only [afterPush, hx]

theorem work_afterPush_of_ne (hk : k ≠ task) (result : Except Failure Unit) (after : After) :
    (s.afterPush task result after).work k = s.work k := by
  rcases afterPush_cases s task result after with ⟨_, _, _, _, _, _, _, _, he⟩ | ⟨hw, _⟩
  · rw [he, work_ask, if_neg hk]
  · rw [hw, if_neg hk]

/-- A push calls, if its session is open and there is a connection; else its task goes on at once.
-/
theorem push_cases (s : Service) (task h : Nat) (after : After) :
    (∃ x, s.session? h = some x ∧ x.isClosed = false ∧ s.isConnected = true ∧
        s.push task h after = (s.setSession h x.send).ask task (.sync h x.ticket after)
          (.sync h x.version x.id x.document.fullText)) ∨
      s.session? h = none ∧ s.push task h after = s.drop task ∨
      ∃ x, s.session? h = some x ∧
        (x.isClosed = true ∧ s.push task h after = s.afterPush task (.ok ()) after ∨
          x.isClosed = false ∧ s.isConnected = false ∧
            s.push task h after = s.afterPush task (.error .notConnected) after) := by
  cases hx : s.session? h with
  | none => exact Or.inr (Or.inl ⟨rfl, by simp only [push, hx]⟩)
  | some x =>
    cases ho : x.isClosed with
    | true => exact Or.inr (Or.inr ⟨x, rfl, Or.inl ⟨ho, by simp only [push, hx, ho, ↓reduceIte]⟩⟩)
    | false =>
      cases hc : s.isConnected with
      | true =>
        refine Or.inl ⟨x, rfl, ho, rfl, ?_⟩
        simp [push, hx, ho, hc]
      | false =>
        refine Or.inr (Or.inr ⟨x, rfl, Or.inr ⟨ho, rfl, ?_⟩⟩)
        simp [push, hx, ho, hc]

theorem work_push_of_ne (hk : k ≠ task) (after : After) :
    (s.push task h after).work k = s.work k := by
  rcases push_cases s task h after with ⟨x, _, _, _, he⟩ | ⟨_, he⟩ | ⟨x, _, ⟨_, he⟩ | ⟨_, _, he⟩⟩
  · rw [he, work_ask, if_neg hk]
    rfl
  · rw [he, work_drop, if_neg hk]
  · rw [he, work_afterPush_of_ne hk]
  · rw [he, work_afterPush_of_ne hk]

theorem outline_prepare : ((s.disarm h).bump h).outline = s.outline := by
  rw [outline_bump, outline_disarm]

theorem flush_cases (s : Service) (task h : Nat) (after : After) :
    (∃ x, s.session? h = some x ∧ x.isClosed = false ∧
        s.flush task h after = ((s.disarm h).bump h).push task h after) ∨
      s.session? h = none ∧ s.flush task h after = s.drop task ∨
      ∃ x, s.session? h = some x ∧ x.isClosed = true ∧
        s.flush task h after = s.afterPush task (.ok ()) after := by
  cases hx : s.session? h with
  | none => exact Or.inr (Or.inl ⟨rfl, by simp only [flush, hx]⟩)
  | some x =>
    cases ho : x.isClosed with
    | true => exact Or.inr (Or.inr ⟨x, rfl, ho, by simp only [flush, hx, ho, ↓reduceIte]⟩)
    | false => exact Or.inl ⟨x, rfl, ho, by simp [flush, hx, ho]⟩

theorem work_flush_of_ne (hk : k ≠ task) (after : After) :
    (s.flush task h after).work k = s.work k := by
  rcases flush_cases s task h after with ⟨x, _, _, he⟩ | ⟨_, he⟩ | ⟨x, _, _, he⟩
  · rw [he, work_push_of_ne hk, work_of_outline outline_prepare]
  · rw [he, work_drop, if_neg hk]
  · rw [he, work_afterPush_of_ne hk]

/-- The time, and the delay of a push after an edit. -/
def clock (s : Service) : Nat × Nat := (s.now, s.syncDelay)

/-- The tasks, the questions for completions, and the clock. -/
def ledger (s : Service) :
    List (Nat × Work) × List (Nat × DocumentId × ServerPosition) × Nat × Nat :=
  (s.tasks, s.asked, s.clock)

theorem clock_of_outline (ho : t.outline = s.outline) : t.clock = s.clock := by
  have hc := congrArg clock ho
  exact hc

theorem ledger_of_outline (ho : t.outline = s.outline) : t.ledger = s.ledger := by
  have ht := congrArg Service.tasks ho
  exact Prod.ext ht (Prod.ext (asked_of_outline ho) (clock_of_outline ho))

theorem ledger_closeSession : (s.closeSession h).ledger = s.ledger :=
  ledger_of_outline (s := { s with channels := (s.closeSession h).channels }) outline_closeSession

theorem ledger_of_outlineKept (ho : s.OutlineKept t) : t.ledger = s.ledger := by
  rcases ho with ho | ho
  · exact ledger_of_outline ho
  · exact ledger_of_outline (s := { s with wait := s.wait.cancel }) ho

theorem ledger_beginOpen {id : DocumentId} {document : Document} {channel : String}
    (hb : s.beginOpen id document channel = .ok (t, h)) : t.ledger = s.ledger := by
  simp only [beginOpen] at hb
  split at hb
  · cases hb
  · split at hb
    · cases hb
    · split at hb
      · cases hb
      · cases hb
        have ht := ledger_of_outline (outline_syncIn (s := { s with
          sessions := s.sessions ++ [Session.opened id document channel
            ((s.channel channel).attach s.sessions.length).2]
          opening := s.opening ++ [s.sessions.length]
          channels := Keyed.put channel ((s.channel channel).attach s.sessions.length).1
            s.channels }) (h := s.sessions.length) 0)
        exact ht

theorem ledger_finishOpen : (s.finishOpen h).1.ledger = s.ledger := by
  simp only [finishOpen]
  split
  · rfl
  · split
    · exact ledger_closeSession (s := { s with opening := s.opening.erase h })
    · rfl

theorem ledger_openDocument (id : DocumentId) (document : Document) (channel : String) :
    (s.openDocument id document channel).1.ledger = s.ledger := by
  simp only [openDocument]
  split
  · rfl
  · next hb => exact ledger_finishOpen.trans (ledger_beginOpen hb)

theorem ledger_retire (id : DocumentId) : (s.retire id h).ledger = s.ledger :=
  ledger_closeSession

theorem nextTask_retire (id : DocumentId) : (s.retire id h).nextTask = s.nextTask := by
  have ht := congrArg Service.nextTask (outline_retire (s := s) (h := h) id)
  exact ht

theorem ledger_retireEach (documents : List (DocumentId × Nat)) :
    (s.retireEach documents).ledger = s.ledger ∧
      (s.retireEach documents).nextTask = s.nextTask := by
  simp only [retireEach]
  induction documents generalizing s with
  | nil => exact ⟨rfl, rfl⟩
  | cons e documents ih =>
    have ih := ih (s := s.retire e.1 e.2)
    exact ⟨ih.1.trans (ledger_retire e.1), ih.2.trans (nextTask_retire e.1)⟩

theorem ledger_closeDocument (id : DocumentId) : (s.closeDocument id).1.ledger = s.ledger := by
  simp only [closeDocument]
  split
  · rfl
  · exact ledger_retire id

theorem ledger_receive (event : ServerEvent) : (s.receive event).ledger = s.ledger := by
  have hmarkers (updates : List MarkerUpdate) (t : Service) :
      (updates.foldl (fun s u => s.note (.markers u)) t).ledger = t.ledger := by
    induction updates generalizing t with
    | nil => rfl
    | cons u updates ih => exact ih _
  simp only [receive]
  split
  · split
    · exact hmarkers _ _
    · rfl
  · rfl

/-- The task that an event can move: the one whose turn it is, the one that is answered, or the
next new one. -/
def actor (s : Service) : Event → Option Nat
  | .run task => some task
  | .answer task _ => some task
  | .fire _ => some s.nextTask
  | .flush _ _ => some s.nextTask
  | .complete _ _ _ => some s.nextTask
  | .info _ _ _ _ => some s.nextTask
  | .connect _ => some s.nextTask
  | .shutdown _ => some s.nextTask
  | _ => none

theorem work_spawn_of_ne (hk : k ≠ s.nextTask) : (s.spawn w).work k = s.work k := by
  rw [work_spawn, if_neg hk, Option.or_none]

theorem work_ask_of_ne (hk : k ≠ task) (c : Call) : (s.ask task w c).work k = s.work k := by
  rw [work_ask, if_neg hk]

theorem work_finish_of_ne (hk : k ≠ task) (request : Nat) (o : Outcome) :
    (s.finish task request o).work k = s.work k := by
  rw [work_finish, if_neg hk]

theorem work_run_of_ne (hk : k ≠ task) : (s.run task w).work k = s.work k := by
  cases w with
  | start h => exact work_push_of_ne hk _
  | debounce request h id p generation deadline =>
    simp only [run, runDebounce]
    split
    · rfl
    · exact work_finish_of_ne (s := { s with wait := _ }) hk _ _
    · exact work_flush_of_ne (s := { s with wait := _ }) hk _
  | connectTurn request =>
    simp only [run, runConnectTurn]
    split
    · exact work_finish_of_ne hk _ _
    · rfl
    · exact work_ask_of_ne (s := { s with link := .busy }) hk _
  | sync | complete | info | connect | shutdown => rfl

theorem work_answer_of_ne (hk : k ≠ task) (a : Answer) :
    (s.answer task w a).work k = s.work k := by
  have hfail (request : Nat) (id : DocumentId) (e : Failure) (o : Outcome) :
      (s.fail task request id e o).work k = s.work k :=
    work_finish_of_ne (s := s.report (some id) e.message) hk _ _
  simp only [Service.answer]
  split
  · next h ticket after result =>
    rw [work_afterPush_of_ne hk, work_of_outline (outline_completePush _ _)]
    rfl
  · exact hfail _ _ _ _
  · exact work_finish_of_ne hk _ _
  · exact hfail _ _ _ _
  · exact work_finish_of_ne hk _ _
  · next request result stream =>
    simp only [completeConnect]
    split
    · exact work_finish_of_ne (s := { s with link := .absent }) hk _ _
    · split
      · exact work_finish_of_ne
          (s := { s.note (.called task .subscribe) with link := .absent }) hk _ _
      · exact work_finish_of_ne
          (s := { s.note (.called task .subscribe) with
            link := .made, isListening := true, isConnected := true }) hk _ _
  · exact work_finish_of_ne hk _ _
  · rfl

/-- An event that moves no task leaves the ledger alone, but that the clock may move. -/
theorem ledger_next (ha : s.actor e = none) (hp : ∀ n, e ≠ .pass n) :
    (s.next e).ledger = s.ledger := by
  cases e with
  | openDocument => exact ledger_openDocument _ _ _
  | beginOpen =>
    simp only [next]
    split
    · next hb => exact ledger_beginOpen hb
    · rfl
  | finishOpen =>
    simp only [next]
    split
    · exact ledger_finishOpen
    · rfl
  | closeDocument => exact ledger_closeDocument _
  | change => exact ledger_of_outlineKept (outlineKept_fireChannel _ _)
  | setText => exact ledger_of_outlineKept (outlineKept_setText _)
  | setContext => exact ledger_of_outline (outline_setContext _ _)
  | closeSession => exact ledger_closeSession
  | receive => exact ledger_receive _
  | endStream => rfl
  | pass n => exact absurd rfl (hp n)
  | flush | complete | info | connect | shutdown | answer | fire | run => cases ha

theorem actor_turn (hne : task ≠ s.nextTask) (ha : s.actor e = some task) :
    e = .run task ∨ ∃ a, e = .answer task a := by
  cases e with
  | run k => exact Or.inl (congrArg Event.run (Option.some.inj ha))
  | answer k a =>
    obtain rfl : k = task := Option.some.inj ha
    exact Or.inr ⟨a, rfl⟩
  | flush | complete | info | connect | shutdown | fire =>
    exact absurd (Option.some.inj ha).symm hne
  | _ => cases ha

/-- An event moves no task but its own. -/
theorem work_next_of_ne (hk : s.actor e ≠ some k) : (s.next e).work k = s.work k := by
  have htasks {t : Service} (ht : t.ledger = s.ledger) : t.work k = s.work k :=
    congrArg (fun l => l.1.lookup k) ht
  cases e with
  | flush request h =>
    have hk : k ≠ s.nextTask := fun he => hk (congrArg some he.symm)
    exact work_flush_of_ne (s := s.fresh.1) hk _
  | complete request id p =>
    have hk : k ≠ s.nextTask := fun he => hk (congrArg some he.symm)
    simp only [next, requestCompletion]
    split
    · rfl
    · exact work_spawn_of_ne (s := { s with wait := s.wait.start.1 }) hk
  | info request id p use =>
    have hk : k ≠ s.nextTask := fun he => hk (congrArg some he.symm)
    simp only [next, requestInfo]
    split
    · rfl
    · split
      · rfl
      · exact work_ask_of_ne (s := s.fresh.1) hk _
  | connect request =>
    have hk : k ≠ s.nextTask := fun he => hk (congrArg some he.symm)
    simp only [next, requestConnect]
    split
    · rfl
    · split
      · rfl
      · exact work_spawn_of_ne hk
      · split
        · exact work_spawn_of_ne hk
        · exact work_ask_of_ne (s := { s.fresh.1 with link := .busy }) hk _
  | shutdown request =>
    have hk : k ≠ s.nextTask := fun he => hk (congrArg some he.symm)
    simp only [next, requestShutdown]
    split
    · rfl
    · obtain ⟨ht, hn⟩ := ledger_retireEach (s := { s with
        isStopped := true, wait := s.wait.cancel, registry := [] }) s.registry
      have hk : k ≠ (Service.retireEach _ s.registry).nextTask := hn.symm ▸ hk
      exact (work_ask_of_ne hk _).trans (htasks ht)
  | answer task a =>
    have hk : k ≠ task := fun he => hk (congrArg some he.symm)
    simp only [next]
    split
    · rfl
    · exact work_answer_of_ne hk a
  | pass => rfl
  | fire i =>
    have hk : k ≠ s.nextTask := fun he => hk (congrArg some he.symm)
    simp only [next]
    split
    · rfl
    · split
      · simp only [fire]
        split
        · rfl
        · split
          · rfl
          · exact work_spawn_of_ne hk
      · rfl
  | run task =>
    have hk : k ≠ task := fun he => hk (congrArg some he.symm)
    simp only [next]
    split
    · rfl
    · exact work_run_of_ne hk
  | openDocument | beginOpen | finishOpen | closeDocument | change | setText | setContext |
    closeSession | receive | endStream => exact htasks (ledger_next rfl fun _ => Event.noConfusion)

theorem require_ok {id : DocumentId} (hr : s.require id = .ok h) :
    s.isStopped = false ∧ s.isConnected = true ∧ s.open? id = some h := by
  simp only [require] at hr
  split at hr
  · cases hr
  · next hs =>
    split at hr
    · cases hr
    · next hc =>
      split at hr
      · cases hr
      · next ho =>
        cases hr
        exact ⟨by simpa using hs, by simpa using hc, ho⟩

/-- What an event makes its task wait for. -/
inductive Begins (s : Service) : Event → Work → Prop where
  | start {i : Nat} {sleeper : Sleeper Debounce} (hf : s.agenda.find? i = some sleeper)
      (hd : sleeper.deadline ≤ s.now) : Begins s (.fire i) (.start sleeper.job.session)
  | push {task h : Nat} {x : Session} (hw : s.work task = some (.start h))
      (hx : s.session? h = some x) (ho : x.isClosed = false) :
      Begins s (.run task) (.sync h x.ticket .nothing)
  | flush {request h : Nat} {x : Session} (hx : s.session? h = some x) (ho : x.isClosed = false) :
      Begins s (.flush request h) (.sync h ⟨x.version + 1⟩ (.flush request))
  | debounce {request h : Nat} {id : DocumentId} {p : EditorPosition} (hr : s.require id = .ok h) :
      Begins s (.complete request id p)
        (.debounce request h id p (s.wait.generation + 1) (s.now + s.completionDelay))
  | elapse {task request h g d : Nat} {id : DocumentId} {p : EditorPosition} {x : Session}
      (hw : s.work task = some (.debounce request h id p g d))
      (hr : s.wait.rejections.lookup g = none) (hd : d ≤ s.now) (hx : s.session? h = some x)
      (ho : x.isClosed = false) :
      Begins s (.run task) (.sync h ⟨x.version + 1⟩ (.completion request h id p))
  /-- The session of a completion was closed when its debounce elapsed. -/
  | skip {task request h g d : Nat} {id : DocumentId} {p : EditorPosition} {x : Session}
      (hw : s.work task = some (.debounce request h id p g d))
      (hr : s.wait.rejections.lookup g = none) (hd : d ≤ s.now) (hx : s.session? h = some x)
      (ho : x.isClosed = true) : Begins s (.run task) (.complete request id p)
  | complete {task h request k : Nat} {t : Ticket} {id : DocumentId} {p : EditorPosition}
      (hw : s.work task = some (.sync h t (.completion request k id p))) :
      Begins s (.answer task (.synced (.ok ()))) (.complete request id p)
  | info {request h : Nat} {id : DocumentId} {p : EditorPosition} {use : InfoUse}
      (hr : s.require id = .ok h) : Begins s (.info request id p use) (.info request id use)
  | turn {request : Nat} (hs : s.isStopped = false) :
      Begins s (.connect request) (.connectTurn request)
  | connect {request : Nat} (hs : s.isStopped = false) :
      Begins s (.connect request) (.connect request)
  | reconnect {task request : Nat} (hw : s.work task = some (.connectTurn request)) :
      Begins s (.run task) (.connect request)
  | shutdown {request : Nat} (hs : s.isStopped = false) :
      Begins s (.shutdown request) (.shutdown request)

theorem work_afterPush (result : Except Failure Unit) (after : After)
    (hw : (s.afterPush task result after).work task = some w) :
    result = .ok () ∧ ∃ request h id p, after = .completion request h id p ∧
      w = .complete request id p := by
  rcases afterPush_cases s task result after with ⟨r, h, id, p, _, ha, hr, _, he⟩ | ⟨hnone, _⟩
  · rw [he, work_ask, if_pos rfl] at hw
    exact ⟨hr, r, h, id, p, ha, (Option.some.inj hw).symm⟩
  · rw [hnone, if_pos rfl] at hw
    cases hw

theorem work_push (after : After) (hw : (s.push task h after).work task = some w) :
    ∃ x, s.session? h = some x ∧
      (x.isClosed = false ∧ w = .sync h x.ticket after ∨
        x.isClosed = true ∧ ∃ request h' id p, after = .completion request h' id p ∧
          w = .complete request id p) := by
  rcases push_cases s task h after with
    ⟨x, hx, ho, _, he⟩ | ⟨_, he⟩ | ⟨x, hx, ⟨ho, he⟩ | ⟨_, _, he⟩⟩
  · rw [he, work_ask, if_pos rfl] at hw
    exact ⟨x, hx, Or.inl ⟨ho, (Option.some.inj hw).symm⟩⟩
  · rw [he, work_drop, if_pos rfl] at hw
    cases hw
  · rw [he] at hw
    exact ⟨x, hx, Or.inr ⟨ho, (work_afterPush _ _ hw).2⟩⟩
  · rw [he] at hw
    cases (work_afterPush _ _ hw).1

theorem session?_prepare (hx : s.session? h = some x) :
    ((s.disarm h).bump h).session? h =
      some { x.bump with timer := (x.timer.cancel s.agenda).1 } :=
  session?_bump (session?_disarm hx)

theorem work_flush (after : After) (hw : (s.flush task h after).work task = some w) :
    ∃ x, s.session? h = some x ∧
      (x.isClosed = false ∧ w = .sync h ⟨x.version + 1⟩ after ∨
        x.isClosed = true ∧ ∃ request h' id p, after = .completion request h' id p ∧
          w = .complete request id p) := by
  rcases flush_cases s task h after with ⟨x, hx, ho, he⟩ | ⟨_, he⟩ | ⟨x, hx, ho, he⟩
  · rw [he] at hw
    obtain ⟨y, hy, hw⟩ := work_push _ hw
    obtain rfl := Option.some.inj ((session?_prepare hx).symm.trans hy)
    rcases hw with ⟨_, hw⟩ | ⟨hc, _⟩
    · exact ⟨x, hx, Or.inl ⟨ho, hw⟩⟩
    · exact absurd (ho.symm.trans hc) Bool.false_ne_true
  · rw [he, work_drop, if_pos rfl] at hw
    cases hw
  · rw [he] at hw
    exact ⟨x, hx, Or.inr ⟨ho, (work_afterPush _ _ hw).2⟩⟩

theorem runDebounce_cases (s : Service) (task request h : Nat) (id : DocumentId)
    (p : EditorPosition) (g d : Nat) :
    s.wait.rejections.lookup g = none ∧ s.now < d ∧ s.runDebounce task request h id p g d = s ∨
      (∃ reason, s.wait.rejections.lookup g = some reason ∧
        s.runDebounce task request h id p g d =
          { s with wait := { s.wait with rejections := Keyed.remove g s.wait.rejections } }.finish
            task request (.completion (.ok .cancelled))) ∨
      s.wait.rejections.lookup g = none ∧ d ≤ s.now ∧
        s.runDebounce task request h id p g d =
          { s with wait := s.wait.elapse g }.flush task h (.completion request h id p) := by
  cases hr : s.wait.rejections.lookup g with
  | some reason =>
    refine Or.inr (Or.inl ⟨reason, rfl, ?_⟩)
    simp only [runDebounce, Wait.poll?, hr]
  | none =>
    by_cases hd : d ≤ s.now
    · refine Or.inr (Or.inr ⟨rfl, hd, ?_⟩)
      simp only [runDebounce, Wait.poll?, hr, hd, decide_true, ↓reduceIte]
    · refine Or.inl ⟨rfl, Nat.lt_of_not_le hd, ?_⟩
      simp [runDebounce, Wait.poll?, hr, hd]

theorem begins_run {v : Work} (hv : s.work task = some v)
    (hw : (s.run task v).work task = some w) :
    s.work task = some w ∨ Begins s (.run task) w := by
  cases v with
  | start h =>
    obtain ⟨x, hx, ⟨ho, rfl⟩ | ⟨_, _, _, _, _, ha, _⟩⟩ := work_push _ hw
    · exact Or.inr (.push hv hx ho)
    · cases ha
  | debounce request h id p g d =>
    change (s.runDebounce task request h id p g d).work task = some w at hw
    rcases runDebounce_cases s task request h id p g d with
      ⟨_, _, he⟩ | ⟨_, _, he⟩ | ⟨hr, hd, he⟩
    · rw [he] at hw
      exact Or.inl hw
    · rw [he, work_finish, if_pos rfl] at hw
      cases hw
    · rw [he] at hw
      obtain ⟨x, hx, ⟨ho, rfl⟩ | ⟨ho, _, _, _, _, ha, rfl⟩⟩ := work_flush _ hw
      · exact Or.inr (.elapse hv hr hd hx ho)
      · cases ha
        exact Or.inr (.skip hv hr hd hx ho)
  | connectTurn request =>
    change (s.runConnectTurn task request).work task = some w at hw
    simp only [runConnectTurn] at hw
    split at hw
    · rw [work_finish, if_pos rfl] at hw
      cases hw
    · exact Or.inl hw
    · rw [beginConnect, work_ask, if_pos rfl] at hw
      obtain rfl := Option.some.inj hw
      exact Or.inr (.reconnect hv)
  | sync | complete | info | connect | shutdown => exact Or.inl hw

theorem begins_answer {v : Work} {a : Answer} (hv : s.work task = some v)
    (hw : (s.answer task v a).work task = some w) :
    s.work task = some w ∨ Begins s (.answer task a) w := by
  have hfinish {t : Service} {request : Nat} {o : Outcome}
      (hw : (t.finish task request o).work task = some w) : False := by
    rw [work_finish, if_pos rfl] at hw
    cases hw
  simp only [Service.answer] at hw
  split at hw
  · next h t after result =>
    obtain ⟨hr, request, k, id, p, rfl, rfl⟩ := work_afterPush _ _ hw
    obtain rfl : result = .ok () := by
      cases result with
      | ok u => rfl
      | error e =>
        simp only [completePush] at hr
        split at hr
        · cases hr
        · split at hr <;> cases hr
    exact Or.inr (.complete hv)
  · exact (hfinish hw).elim
  · exact (hfinish hw).elim
  · exact (hfinish hw).elim
  · exact (hfinish hw).elim
  · simp only [completeConnect] at hw
    split at hw
    · exact (hfinish hw).elim
    · split at hw
      · exact (hfinish hw).elim
      · exact (hfinish hw).elim
  · exact (hfinish hw).elim
  · exact Or.inl (hv ▸ hw)

theorem work_spawn_self (hn : s.work s.nextTask = none) {v : Work}
    (hw : (s.spawn v).work s.nextTask = some w) : w = v := by
  rw [work_spawn, hn, if_pos rfl] at hw
  exact (Option.some.inj hw).symm

/-- A task waits for what it waited for, or its event made it begin. -/
theorem work_next (hn : s.work s.nextTask = none) (hw : (s.next e).work k = some w) :
    s.work k = some w ∨ s.actor e = some k ∧ Begins s e w := by
  by_cases hk : s.actor e = some k
  case neg =>
    rw [work_next_of_ne hk] at hw
    exact Or.inl hw
  cases e with
  | openDocument | beginOpen | finishOpen | closeDocument | change | setText | setContext |
    closeSession | receive | endStream | pass => cases hk
  | flush request h =>
    obtain rfl : s.nextTask = k := Option.some.inj hk
    obtain ⟨x, hx, ⟨ho, rfl⟩ | ⟨_, _, _, _, _, ha, _⟩⟩ := work_flush (s := s.fresh.1) _ hw
    · exact Or.inr ⟨rfl, .flush hx ho⟩
    · cases ha
  | complete request id p =>
    obtain rfl : s.nextTask = k := Option.some.inj hk
    simp only [next, requestCompletion] at hw
    split at hw
    · exact Or.inl hw
    · next hr =>
      obtain rfl := work_spawn_self (s := { s with wait := s.wait.start.1 }) hn hw
      refine Or.inr ⟨rfl, ?_⟩
      have hg : s.wait.start.2 = s.wait.generation + 1 := by
        simp only [Wait.start, Wait.reject]
        split <;> rfl
      rw [hg]
      exact .debounce hr
  | info request id p use =>
    obtain rfl : s.nextTask = k := Option.some.inj hk
    simp only [next, requestInfo] at hw
    split at hw
    · exact Or.inl hw
    · next hr =>
      split at hw
      · exact Or.inl hw
      · simp only [fresh] at hw
        rw [work_ask, if_pos rfl] at hw
        obtain rfl := Option.some.inj hw
        exact Or.inr ⟨rfl, .info hr⟩
  | connect request =>
    obtain rfl : s.nextTask = k := Option.some.inj hk
    simp only [next, requestConnect] at hw
    split at hw
    · exact Or.inl hw
    · next hs =>
      have hs : s.isStopped = false := by simpa using hs
      split at hw
      · exact Or.inl hw
      · obtain rfl := work_spawn_self hn hw
        exact Or.inr ⟨rfl, .turn hs⟩
      · split at hw
        · obtain rfl := work_spawn_self hn hw
          exact Or.inr ⟨rfl, .turn hs⟩
        · simp only [fresh, beginConnect] at hw
          rw [work_ask, if_pos rfl] at hw
          obtain rfl := Option.some.inj hw
          exact Or.inr ⟨rfl, .connect hs⟩
  | shutdown request =>
    obtain rfl : s.nextTask = k := Option.some.inj hk
    simp only [next, requestShutdown] at hw
    split at hw
    · exact Or.inl hw
    · next hs =>
      have hs : s.isStopped = false := by simpa using hs
      obtain ⟨_, hnext⟩ := ledger_retireEach (s := { s with
        isStopped := true, wait := s.wait.cancel, registry := [] }) s.registry
      have hself : s.nextTask = (Service.retireEach _ s.registry).nextTask := hnext.symm
      simp only [fresh] at hw
      rw [work_ask, if_pos hself] at hw
      obtain rfl := Option.some.inj hw
      exact Or.inr ⟨rfl, .shutdown hs⟩
  | answer task a =>
    obtain rfl : task = k := Option.some.inj hk
    simp only [next] at hw
    split at hw
    · exact Or.inl hw
    · next hv => exact (begins_answer hv hw).imp_right fun hb => ⟨rfl, hb⟩
  | fire i =>
    obtain rfl : s.nextTask = k := Option.some.inj hk
    simp only [next] at hw
    split at hw
    · exact Or.inl hw
    · next hf =>
      split at hw
      · next hd =>
        simp only [fire] at hw
        split at hw
        · exact Or.inl hw
        · split at hw
          · exact Or.inl hw
          · obtain rfl := work_spawn_self hn hw
            exact Or.inr ⟨rfl, .start hf hd⟩
      · exact Or.inl hw
  | run task =>
    obtain rfl : task = k := Option.some.inj hk
    simp only [next] at hw
    split at hw
    · exact Or.inl hw
    · next hv => exact (begins_run hv hw).imp_right fun hb => ⟨rfl, hb⟩

theorem Run.unused (r : Run) (k : Nat) : (r.state k).work (r.state k).nextTask = none :=
  (r.invariant k).numbered _ (Nat.le_refl _)

end DocSync.Service
