import DocSync.Proofs.BusyMarks
import DocSync.Proofs.TaskSteps

/-!
A completion asks the server about a text that it was sent before. The task of a completion request
pushes its document when the debounce elapsed, and asks once the push was accepted. A session that
is closed by then pushes nothing, and the question comes at once.
-/

namespace DocSync.Service

variable {s t : Service} {e : Event} {h i j k n task : Nat} {x y : Session} {id : DocumentId}

/-- What an event asks for: the task that asks, the document, the place. -/
inductive Asks (s : Service) : Event → Nat × DocumentId × ServerPosition → Prop where
  /-- The session of a completion was closed when its debounce elapsed. -/
  | atOnce {task request h g d : Nat} {id : DocumentId} {p : EditorPosition} {x : Session}
      (hw : s.work task = some (.debounce request h id p g d))
      (hr : s.wait.rejections.lookup g = none) (hd : d ≤ s.now) (hx : s.session? h = some x)
      (ho : x.isClosed = true) : Asks s (.run task) (task, id, x.document.shift.toServer p)
  | afterPush {task h request k : Nat} {t : Ticket} {id : DocumentId} {p : EditorPosition}
      {x : Session} (hw : s.work task = some (.sync h t (.completion request k id p)))
      (hx : s.session? k = some x) :
      Asks s (.answer task (.synced (.ok ()))) (task, id, x.document.shift.toServer p)

theorem asked_afterPush (result : Except Failure Unit) (after : After) :
    (s.afterPush task result after).asked = s.asked ∨
      ∃ request h id p x, after = .completion request h id p ∧ result = .ok () ∧
        s.session? h = some x ∧ (s.afterPush task result after).asked =
          (task, id, x.document.shift.toServer p) :: s.asked := by
  rcases afterPush_cases s task result after with ⟨r, h, id, p, x, ha, hr, hx, he⟩ | ⟨_, hs⟩
  · refine Or.inr ⟨r, h, id, p, x, ha, hr, hx, ?_⟩
    rw [he]
    rfl
  · exact Or.inl hs

theorem asked_push (after : After) :
    (s.push task h after).asked = s.asked ∨
      ∃ y request k id p x, s.session? h = some y ∧ y.isClosed = true ∧
        after = .completion request k id p ∧ s.session? k = some x ∧
        (s.push task h after).asked = (task, id, x.document.shift.toServer p) :: s.asked := by
  rcases push_cases s task h after with
    ⟨y, _, _, _, he⟩ | ⟨_, he⟩ | ⟨y, hy, ⟨ho, he⟩ | ⟨_, _, he⟩⟩
  · exact Or.inl (he ▸ rfl)
  · exact Or.inl (he ▸ rfl)
  · rw [he]
    refine (asked_afterPush _ _).imp_right ?_
    rintro ⟨r, k, id, p, x, ha, _, hx, hs⟩
    exact ⟨y, r, k, id, p, x, hy, ho, ha, hx, hs⟩
  · rw [he]
    refine Or.inl ((asked_afterPush _ _).resolve_right ?_)
    rintro ⟨_, _, _, _, _, _, hr, _⟩
    cases hr

theorem asked_flush (after : After) :
    (s.flush task h after).asked = s.asked ∨
      ∃ y request k id p x, s.session? h = some y ∧ y.isClosed = true ∧
        after = .completion request k id p ∧ s.session? k = some x ∧
        (s.flush task h after).asked = (task, id, x.document.shift.toServer p) :: s.asked := by
  rcases flush_cases s task h after with ⟨y, hy, ho, he⟩ | ⟨_, he⟩ | ⟨y, hy, ho, he⟩
  · rw [he, ← asked_of_outline (outline_prepare (s := s) (h := h))]
    refine Or.inl ((asked_push after).resolve_right ?_)
    rintro ⟨z, _, _, _, _, _, hz, hc, _⟩
    obtain rfl := Option.some.inj ((session?_prepare hy).symm.trans hz)
    exact absurd (ho.symm.trans hc) Bool.false_ne_true
  · exact Or.inl (he ▸ rfl)
  · rw [he]
    refine (asked_afterPush _ _).imp_right ?_
    rintro ⟨r, k, id, p, x, ha, _, hx, hs⟩
    exact ⟨y, r, k, id, p, x, hy, ho, ha, hx, hs⟩

theorem asked_run {v : Work} (hv : s.work task = some v) :
    (s.run task v).asked = s.asked ∨
      ∃ q, Asks s (.run task) q ∧ (s.run task v).asked = q :: s.asked := by
  cases v with
  | start h =>
    refine Or.inl ((asked_push .nothing).resolve_right ?_)
    rintro ⟨_, _, _, _, _, _, _, _, ha, _⟩
    cases ha
  | debounce request h id p g d =>
    change (s.runDebounce task request h id p g d).asked = s.asked ∨
      ∃ q, Asks s (.run task) q ∧ (s.runDebounce task request h id p g d).asked = q :: s.asked
    rcases runDebounce_cases s task request h id p g d with
      ⟨_, _, he⟩ | ⟨_, _, he⟩ | ⟨hr, hd, he⟩
    · exact Or.inl (congrArg asked he)
    · exact Or.inl (he ▸ rfl)
    · rw [he]
      refine (asked_flush _).imp_right ?_
      rintro ⟨y, r, k, id, p, x, hy, ho, ha, hx, hs⟩
      cases ha
      obtain rfl := Option.some.inj (hy.symm.trans hx)
      exact ⟨_, .atOnce hv hr hd hy ho, hs⟩
  | connectTurn request =>
    refine Or.inl ?_
    simp only [run, runConnectTurn]
    split <;> rfl
  | sync | complete | info | connect | shutdown => exact Or.inl rfl

theorem completePush_result (t : Ticket) (result : Except Failure Unit) :
    (s.completePush h t result).2 = result := by
  simp only [completePush]
  split
  · rfl
  · split
    · rfl
    · split
      · split <;> rfl
      · rfl

/-- An answer to a push changes no document. -/
theorem document_completePush (t : Ticket) (result : Except Failure Unit)
    (hx : (s.completePush h t result).1.session? k = some x) :
    ∃ y, s.session? k = some y ∧ y.document = x.document := by
  have hset {y : Session} (hy : s.session? h = some y)
      (hx : (s.setSession h (y.settle t)).session? k = some x) :
      ∃ y, s.session? k = some y ∧ y.document = x.document := by
    change (s.setSession h (y.settle t)).pushState.session k = some x at hx
    rw [pushState_setSession hy] at hx
    rcases update_cases hx with ⟨rfl, rfl⟩ | ⟨_, hk⟩
    · exact ⟨y, hy, (settle_document y t).symm⟩
    · exact ⟨x, hk, rfl⟩
  simp only [completePush] at hx
  split at hx
  · exact ⟨x, hx, rfl⟩
  · next y hy =>
    split at hx
    · exact ⟨x, hx, rfl⟩
    · split at hx
      · split at hx
        · refine hset hy ?_
          change (Service.markIdle _ y.id).pushState.session k = some x at hx
          rw [pushState_markIdle] at hx
          exact hx
        · exact ⟨x, hx, rfl⟩
      · exact hset hy hx

theorem asked_answer {v : Work} (hv : s.work task = some v) (a : Answer) :
    (s.answer task v a).asked = s.asked ∨
      ∃ q, Asks s (.answer task a) q ∧ (s.answer task v a).asked = q :: s.asked := by
  simp only [Service.answer]
  split
  · next h t after result =>
    generalize hs : s.note (.answered task h t.version (isOk result)) = u
    have hu : u.asked = s.asked := by
      rw [← hs]
      rfl
    have hsession (k : Nat) : u.session? k = s.session? k := by
      rw [← hs]
      rfl
    rw [← hu, ← asked_of_outline (outline_completePush (s := u) (h := h) t result)]
    refine (asked_afterPush _ _).imp_right ?_
    rintro ⟨r, k, id, p, x, rfl, hr, hx, hq⟩
    obtain rfl : result = .ok () := (completePush_result t result).symm.trans hr
    obtain ⟨y, hy, hd⟩ := document_completePush t _ hx
    rw [← hd] at hq
    exact ⟨_, .afterPush hv ((hsession k).symm.trans hy), hq⟩
  · exact Or.inl rfl
  · exact Or.inl rfl
  · exact Or.inl rfl
  · exact Or.inl rfl
  · refine Or.inl ?_
    simp only [completeConnect]
    split
    · rfl
    · split <;> rfl
  · exact Or.inl rfl
  · exact Or.inl rfl

/-- An event asks for one completion, or for none. -/
theorem asked_next (s : Service) (e : Event) :
    (s.next e).asked = s.asked ∨ ∃ q, Asks s e q ∧ (s.next e).asked = q :: s.asked := by
  have hledger {t : Service} (ht : t.ledger = s.ledger) : t.asked = s.asked :=
    congrArg (fun l => l.2.1) ht
  cases e with
  | openDocument | beginOpen | finishOpen | closeDocument | change | setText | setContext |
    closeSession | receive | endStream =>
    exact Or.inl (hledger (ledger_next rfl (fun _ => nofun)))
  | flush request h =>
    refine Or.inl ((asked_flush (s := s.fresh.1) (.flush request)).resolve_right ?_)
    rintro ⟨_, _, _, _, _, _, _, _, ha, _⟩
    cases ha
  | complete =>
    refine Or.inl ?_
    simp only [next, requestCompletion]
    split <;> rfl
  | info =>
    refine Or.inl ?_
    simp only [next, requestInfo]
    split
    · rfl
    · split <;> rfl
  | connect =>
    refine Or.inl ?_
    simp only [next, requestConnect]
    split
    · rfl
    · split
      · rfl
      · rfl
      · split <;> rfl
  | shutdown =>
    refine Or.inl ?_
    simp only [next, requestShutdown]
    split
    · rfl
    · exact congrArg (fun l => l.2.1) (ledger_retireEach (s := { s with
        isStopped := true, wait := s.wait.cancel, registry := [] }) s.registry).1
  | answer task a =>
    simp only [next]
    split
    · exact Or.inl rfl
    · next hv => exact asked_answer hv a
  | pass => exact Or.inl rfl
  | fire i =>
    refine Or.inl ?_
    simp only [next]
    split
    · rfl
    · split
      · simp only [fire]
        split
        · rfl
        · split <;> rfl
      · rfl
  | run task =>
    simp only [next]
    split
    · exact Or.inl rfl
    · next hv => exact asked_run hv

/-- Who owns a document has a session of it. -/
def PushState.Registered (v : PushState) : Prop :=
  ∀ {id h}, v.owner id = some h → ∃ x, v.session h = some x ∧ x.id = id

theorem Part.registered {v w : PushState} {d : Deed} (hp : Part .inside v d w) (hv : v.Registered) :
    w.Registered := by
  have hkeep {id : DocumentId} {h : Nat} (ho : v.owner id = some h) :
      ∃ x, w.session h = some x ∧ x.id = id := by
    obtain ⟨x, hx, rfl⟩ := hv ho
    obtain ⟨y, hy, he⟩ := hp.evolves hx
    exact ⟨y, hy, he.id⟩
  intro id h ho
  cases hp with
  | disown hd =>
    rcases hd id with he | ⟨hn, _⟩
    · exact hkeep (he.symm.trans ho)
    · exact absurd (ho.symm.trans hn) (Option.some_ne_none h)
  | @«open» k id' document channel subscription deadline =>
    by_cases hid : id = id'
    · subst id'
      obtain rfl : k = h := Option.some.inj ((Function.update_self id _ _).symm.trans ho)
      exact ⟨_, Function.update_self k _ _, rfl⟩
    · exact hkeep ((Function.update_of_ne hid _ _).symm.trans ho)
  | _ => exact hkeep ho

theorem Run.registered (r : Run) (k : Nat) : (r.state k).pushState.Registered := by
  induction k with
  | zero =>
    intro id h ho
    cases ho
  | succ k ih => exact ((r.step k).parts trivial).keep Part.registered ih

theorem journal_flush (hx : s.session? h = some x) (ho : x.isClosed = false)
    (hc : s.isConnected = true) (after : After) :
    ∃ l, s.journal <:+ l ∧ (s.flush task h after).journal =
      .called task (.sync h (x.version + 1) x.id x.document.fullText) :: l := by
  have hy := session?_prepare hx
  have hconn : ((s.disarm h).bump h).isConnected = true :=
    (congrArg Service.isConnected outline_prepare).trans hc
  refine ⟨((s.disarm h).bump h).journal, ?_, ?_⟩
  · have hd : (s.disarm h).journal = s.journal := by
      simp only [disarm, hx]
      rfl
    simp only [bump, session?_disarm hx, Service.markBusy]
    split
    · exact hd ▸ List.suffix_cons _ _
    · exact hd ▸ List.suffix_refl _
  · have hopen : x.bump.isClosed = false := ho
    simp only [flush, hx, ho, push, hy, hopen, hconn, Bool.false_eq_true, ↓reduceIte,
      Bool.not_true]
    rfl

/-- A completion request, the task that runs it, and the session that it was made for. -/
structure CompletionTask where
  request : Nat
  task : Nat
  session : Nat
  document : DocumentId
  position : EditorPosition

structure Run.Makes (r : Run) (j : Nat) (c : CompletionTask) : Prop where
  event : r.event j = .complete c.request c.document c.position
  required : (r.state j).require c.document = .ok c.session
  task : (r.state j).nextTask = c.task

/-- The debounce of a completion request elapses, and its task gets its turn. -/
structure Run.Elapses (r : Run) (i : Nat) (c : CompletionTask) : Prop where
  made : ∃ j < i, r.Makes j c
  turn : r.event i = .run c.task
  elapsed : ∃ g d, d ≤ (r.state i).now ∧ (r.state i).wait.rejections.lookup g = none ∧
    (r.state i).work c.task = some (.debounce c.request c.session c.document c.position g d)

/-- An event calls the push of a completion request, with the text of its session. -/
def Run.PushesFor (r : Run) (i : Nat) (c : CompletionTask) (y : Session) : Prop :=
  (r.state i).IsOpen c.session y ∧ ∃ l, (r.state i).journal <:+ l ∧ (r.state (i + 1)).journal =
    .called c.task (.sync c.session (y.version + 1) c.document y.document.fullText) :: l

/-- What the task of a completion request waits for once its push is called. -/
def CompletionTask.pushed (c : CompletionTask) (y : Session) : Work :=
  .sync c.session ⟨y.version + 1⟩ (.completion c.request c.session c.document c.position)

/-- A completion request asks in event `k`, and its debounce elapsed in event `i`. `y` and `x` are
its session at these two times. -/
structure Run.AsksFor (r : Run) (c : CompletionTask) (place : ServerPosition) (i k : Nat)
    (y x : Session) : Prop where
  elapses : r.Elapses i c
  before : (r.state i).session? c.session = some y
  current : (r.state k).session? c.session = some x
  document : y.id = c.document
  /-- The place is found with the hidden text that the session has by now. -/
  placed : place = x.document.shift.toServer c.position
  /-- It is the place in the pushed text if the hidden text above did not change since. -/
  kept : x.document.before = y.document.before → place = y.document.shift.toServer c.position
  /-- A session that is still open when the debounce elapsed was pushed then, and the question comes
  when that push was accepted. -/
  pushed : y.isClosed = false → i < k ∧ r.PushesFor i c y ∧
    (r.state k).work c.task = some (c.pushed y) ∧ r.event k = .answer c.task (.synced (.ok ()))
  /-- A session that was closed by then is not pushed, and the question comes at once. -/
  unpushed : y.isClosed = true → i = k

/-- What the tasks of completion requests wait for. -/
structure Run.Tracked (r : Run) (k : Nat) : Prop where
  debounced : ∀ {task request h id p g d},
    (r.state k).work task = some (.debounce request h id p g d) →
      ∃ j < k, r.Makes j ⟨request, task, h, id, p⟩
  pushing : ∀ {task h t request h' id p},
    (r.state k).work task = some (.sync h t (.completion request h' id p)) →
      ∃ i < k, ∃ y, r.Elapses i ⟨request, task, h', id, p⟩ ∧
        r.PushesFor i ⟨request, task, h', id, p⟩ y ∧
        Work.sync h t (.completion request h' id p) =
          CompletionTask.pushed ⟨request, task, h', id, p⟩ y

theorem Run.Makes.session {r : Run} {c : CompletionTask} (hm : r.Makes j c) (hjk : j ≤ k)
    (hx : (r.state k).session? c.session = some x) : x.id = c.document := by
  obtain ⟨_, _, ho⟩ := require_ok hm.required
  obtain ⟨y, hy, hid⟩ := r.registered j ho
  obtain ⟨z, hz, he⟩ := r.evolves hjk hy
  obtain rfl : x = z := Option.some.inj (hx.symm.trans hz)
  exact he.id.trans hid

theorem Run.tracked (r : Run) (k : Nat) : r.Tracked k := by
  induction k with
  | zero => exact ⟨fun hw => absurd hw (by simp [Run.state, work, initial]),
      fun hw => absurd hw (by simp [Run.state, work, initial])⟩
  | succ k ih =>
    constructor
    · intro task request h id p g d hw
      rcases work_next (r.unused k) hw with hw | ⟨ha, hb⟩
      · obtain ⟨j, hj, hm⟩ := ih.debounced hw
        exact ⟨j, Nat.lt_succ_of_lt hj, hm⟩
      · generalize he : r.event k = e at ha hb
        cases hb with
        | debounce hr =>
          exact ⟨k, Nat.lt_succ_self k, he, hr, Option.some.inj ha⟩
    · intro task h t request h' id p hw
      rcases work_next (r.unused k) hw with hw | ⟨ha, hb⟩
      · obtain ⟨i, hi, hp⟩ := ih.pushing hw
        exact ⟨i, Nat.lt_succ_of_lt hi, hp⟩
      · generalize he : r.event k = e at ha hb
        cases hb with
        | @elapse task' _ _ g d _ _ x hv hr hd hx ho =>
          obtain rfl : task' = task := Option.some.inj ha
          obtain ⟨j, hj, hm⟩ := ih.debounced hv
          have hid : x.id = id := hm.session (Nat.le_of_lt hj) hx
          refine ⟨k, Nat.lt_succ_self k, x, ⟨⟨j, hj, hm⟩, he, g, d, hd, hr, hv⟩,
            ⟨⟨hx, ho⟩, ?_⟩, rfl⟩
          have hc : (r.state k).isConnected = true := (r.invariant k).owned.connected ⟨hx, ho⟩
          have hs : r.state (k + 1) = { r.state k with wait := (r.state k).wait.elapse g }.flush
              task' h (.completion request h id p) := by
            have hv' : (r.state k).tasks.lookup task' = some _ := hv
            simp [Run.state, he, next, hv', run, runDebounce, Wait.poll?, hr, hd]
          rw [hs, ← hid]
          exact journal_flush (s := { r.state k with wait := (r.state k).wait.elapse g }) hx ho hc _

theorem shift_eq {d d' : Document} (hb : d.before = d'.before) : d.shift = d'.shift := by
  simp only [Document.shift, Document.lineOffset, hb]

/-- Every question for a completion is that of a request, after the push of its document, unless the
session was closed before the debounce elapsed. -/
theorem completion_asks_after_push (r : Run) (k : Nat) :
    (r.state (k + 1)).asked = (r.state k).asked ∨
      ∃ c place i y x, r.AsksFor c place i k y x ∧
        (r.state (k + 1)).asked = (c.task, c.document, place) :: (r.state k).asked := by
  refine (asked_next (r.state k) (r.event k)).imp_right ?_
  rintro ⟨q, hq, he⟩
  generalize hevent : r.event k = e at hq
  cases hq with
  | @atOnce task request h g d id p x hw hr hd hx ho =>
    obtain ⟨j, hj, hm⟩ := (r.tracked k).debounced hw
    have hid := hm.session (Nat.le_of_lt hj) hx
    refine ⟨⟨request, task, h, id, p⟩, _, k, x, x, ?_, he⟩
    exact {
      elapses := ⟨⟨j, hj, hm⟩, hevent, g, d, hd, hr, hw⟩
      before := hx
      current := hx
      document := hid
      placed := rfl
      kept := fun _ => rfl
      pushed := fun hopen => absurd (ho.symm.trans hopen) (by simp)
      unpushed := fun _ => rfl }
  | @afterPush task h request h' t id p x hw hx =>
    obtain ⟨i, hi, y, hel, hpush, hpushed⟩ := (r.tracked k).pushing hw
    obtain ⟨j, hj, hm⟩ := hel.made
    have hid := hm.session (Nat.le_of_lt hj) hpush.1.1
    refine ⟨⟨request, task, h', id, p⟩, _, i, y, x, ?_, he⟩
    exact {
      elapses := hel
      before := hpush.1.1
      current := hx
      document := hid
      placed := rfl
      kept := fun hb => by rw [shift_eq hb]
      pushed := fun _ => ⟨hi, hpush, hpushed ▸ hw, hevent⟩
      unpushed := fun hc => absurd (hpush.1.2.symm.trans hc) (by simp) }

/-- A document is closed while a completion of it waits for its debounce. -/
def closedWhileTyping : Run where
  syncDelay := 300
  completionDelay := 100
  input := ⟨⟨[]⟩, []⟩
  event
    | 0 => .connect 0
    | 1 => .answer 0 (.connected (.ok ()) (.ok ()))
    | 2 => .openDocument ⟨"a"⟩ (.standalone ['x']) "a"
    | 3 => .complete 1 ⟨"a"⟩ ⟨1, 2⟩
    | 4 => .closeDocument ⟨"a"⟩
    | 5 => .pass 1000
    | 6 => .run 1
    | _ => .endStream
  whole k := by
    split <;> rfl

/-- The server is asked about a document that is closed and was never sent. -/
theorem completion_asks_without_push :
    (closedWhileTyping.state 6).asked = [] ∧
      (closedWhileTyping.state 7).asked = [(1, ⟨"a"⟩, ⟨1, 1⟩)] ∧
      (closedWhileTyping.state 7).registry = [] ∧
      (closedWhileTyping.state 7).sessions.map Session.isClosed = [true] ∧
      (closedWhileTyping.state 7).journal.filter Notice.isPush = [] := by
  decide

/-- A line comes to be hidden above a document while the push of a completion is under way. -/
def shiftedWhilePushing : Run where
  syncDelay := 300
  completionDelay := 100
  input := ⟨⟨[]⟩, []⟩
  event
    | 0 => .connect 0
    | 1 => .answer 0 (.connected (.ok ()) (.ok ()))
    | 2 => .openDocument ⟨"a"⟩ (.standalone ['x']) "a"
    | 3 => .complete 1 ⟨"a"⟩ ⟨1, 2⟩
    | 4 => .pass 1000
    | 5 => .run 1
    | 6 => .setContext 0 ['h', '\n'] []
    | 7 => .answer 1 (.synced (.ok ()))
    | _ => .endStream
  whole k := by
    split <;> rfl

example :
    (shiftedWhilePushing.state 8).asked = [(1, ⟨"a"⟩, ⟨2, 1⟩)] ∧
      (syncs 0 (shiftedWhilePushing.state 8).journal).map Prod.snd = [['x']] := by
  decide

end DocSync.Service
