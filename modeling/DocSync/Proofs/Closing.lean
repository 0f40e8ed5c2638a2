import DocSync.Proofs.BusyMarks
import DocSync.Proofs.PushOrder
import DocSync.Proofs.Sleepers
import DocSync.Proofs.TaskSteps

/-!
Closing is final. A session that is closed stays as it is and pushes nothing, and no event about it
is felt anywhere else: not by the other sessions, not in the busy marks, and no failure is reported
for it.
-/

namespace DocSync.Service

variable {s t : Service} {e : Event} {h i j k task : Nat} {x : Session}

/-- The failures that were published, newest first. -/
def failures (s : Service) : List (Option DocumentId × String) :=
  s.journal.filterMap fun
    | .failed document message => some (document, message)
    | _ => none

/-- Sessions and busy marks stay, nothing is pushed and no failure is published. -/
structure Untouched (s t : Service) : Prop where
  sessions : t.sessions = s.sessions
  running : t.running = s.running
  failures : t.failures = s.failures
  pushes : ∀ h, t.pushes h = s.pushes h

/-- The event is about a session: a call for it, a task of its timer, a task that is about to push
it, or an answer to a push of it. -/
inductive Concerns (s : Service) (h : Nat) : Event → Prop where
  | setText (text : List Char) : Concerns s h (.setText h text)
  | setContext (before after : List Char) : Concerns s h (.setContext h before after)
  | flush (request : Nat) : Concerns s h (.flush request h)
  | closeSession : Concerns s h (.closeSession h)
  | closeDocument {id : DocumentId} (ho : s.open? id = some h) : Concerns s h (.closeDocument id)
  | timer {i : Nat} {sleeper : Sleeper Debounce} (hf : s.agenda.find? i = some sleeper)
      (hs : sleeper.job.session = h) : Concerns s h (.fire i)
  | start {task : Nat} (hw : s.work task = some (.start h)) : Concerns s h (.run task)
  | completion {task request g d : Nat} {id : DocumentId} {p : EditorPosition}
      (hw : s.work task = some (.debounce request h id p g d)) : Concerns s h (.run task)
  | answer {task : Nat} {t : Ticket} {after : After} {a : Answer}
      (hw : s.work task = some (.sync h t after)) : Concerns s h (.answer task a)

theorem Untouched.refl (s : Service) : s.Untouched s := ⟨rfl, rfl, rfl, fun _ => rfl⟩

theorem untouched_afterPush (s : Service) (task : Nat) (result : Except Failure Unit)
    (after : After) : s.Untouched (s.afterPush task result after) := by
  cases after with
  | nothing => exact ⟨rfl, rfl, rfl, fun _ => rfl⟩
  | flush => exact ⟨rfl, rfl, rfl, fun _ => rfl⟩
  | completion request h id p =>
    simp only [afterPush]
    split <;> exact ⟨rfl, rfl, rfl, fun _ => rfl⟩

theorem closeSession_closed (hx : s.session? h = some x) (hc : x.isClosed = true) :
    s.closeSession h = s := by
  simp only [closeSession, hx, hc, ↓reduceIte]

theorem push_closed (hx : s.session? h = some x) (hc : x.isClosed = true) (after : After) :
    s.push task h after = s.afterPush task (.ok ()) after := by
  simp only [push, hx, hc, ↓reduceIte]

theorem flush_closed (hx : s.session? h = some x) (hc : x.isClosed = true) (after : After) :
    s.flush task h after = s.afterPush task (.ok ()) after := by
  simp only [flush, hx, hc, ↓reduceIte]

theorem completePush_closed (hx : s.session? h = some x) (hc : x.isClosed = true) (t : Ticket)
    (result : Except Failure Unit) : s.completePush h t result = (s, result) := by
  simp only [completePush, hx, hc, ↓reduceIte]

theorem contentChange_closed (hx : s.session? h = some x) (hc : x.isClosed = true)
    (change : ContentChange) (place : Place := .inside) : s.contentChange change h place = s := by
  simp only [contentChange, hx, hc, ↓reduceIte]

theorem untouched_answer (hx : s.session? h = some x) (hc : x.isClosed = true) (t : Ticket)
    (after : After) (a : Answer) : s.Untouched (s.answer task (.sync h t after) a) := by
  cases a with
  | synced result =>
    let u := s.note (.answered task h t.version (isOk result))
    have hu : u.completePush h t result = (u, result) :=
      completePush_closed (s := u) hx hc t result
    obtain ⟨hs, hr, hf, hp⟩ := untouched_afterPush u task result after
    simp only [Service.answer]
    rw [hu]
    exact ⟨hs, hr, hf, hp⟩
  | connected | completed | informed | stopped => exact .refl s

/-- Nothing else feels an event that is about a closed session. -/
theorem untouched_next (hs : s.pushState.Sleeping) (hx : s.session? h = some x)
    (hc : x.isClosed = true) (he : s.Concerns h e) : s.Untouched (s.next e) := by
  cases he with
  | setText =>
    simp only [next, setText, hx, hc, ↓reduceIte]
    exact .refl s
  | setContext =>
    simp only [next, setContext, hx, hc, ↓reduceIte]
    exact .refl s
  | flush request =>
    simp only [next, requestFlush]
    rw [flush_closed (s := s.fresh.1) hx hc]
    obtain ⟨hs, hr, hf, hp⟩ := untouched_afterPush s.fresh.1 s.nextTask (.ok ()) (.flush request)
    exact ⟨hs, hr, hf, hp⟩
  | closeSession =>
    simp only [next]
    rw [closeSession_closed hx hc]
    exact .refl s
  | @closeDocument id ho =>
    simp only [next, closeDocument, ho, retire]
    rw [closeSession_closed (s := { s with registry := Keyed.remove id s.registry }) hx hc]
    exact ⟨rfl, rfl, rfl, fun _ => rfl⟩
  | timer hf hsession =>
    obtain ⟨y, hy, _⟩ := hs hf
    rw [hsession] at hy
    exact absurd hy (not_isOpen hx hc)
  | start hw =>
    rw [next_run hw, run, push_closed hx hc]
    exact untouched_afterPush s _ _ _
  | @completion task request g d id p hw =>
    rw [next_run hw, run]
    rcases runDebounce_cases s task request h id p g d with
      ⟨_, _, he⟩ | ⟨_, _, he⟩ | ⟨_, _, he⟩
    · rw [he]
      exact .refl s
    · rw [he]
      exact ⟨rfl, rfl, rfl, fun _ => rfl⟩
    · rw [he, flush_closed (s := { s with wait := s.wait.elapse g }) hx hc]
      obtain ⟨hs, hr, hf, hp⟩ := untouched_afterPush { s with wait := s.wait.elapse g } task
        (.ok ()) (.completion request h id p)
      exact ⟨hs, hr, hf, hp⟩
  | @answer task t after a hw =>
    rw [next_answer hw]
    exact untouched_answer hx hc t after a

theorem fireChannel_closed (hx : s.session? h = some x) (hc : x.isClosed = true) (name : String)
    (change : ContentChange) :
    s.fireChannel name change =
      (((s.channel name).handlers.map Prod.snd).filter (· != h)).foldl
        (fun s k => s.contentChange change k) s := by
  simp only [fireChannel]
  generalize (s.channel name).handlers.map Prod.snd = handlers
  -- the changes before leave the session closed
  induction handlers generalizing s x with
  | nil => rfl
  | cons k handlers ih =>
    rw [List.foldl_cons]
    by_cases hk : k = h
    · subst hk
      rw [contentChange_closed hx hc, List.filter_cons_of_neg (by simp)]
      exact ih hx hc
    · obtain ⟨y, hy, hxy⟩ := (contentChange_parts (s := s) (h := k) change).evolves hx
      rw [List.filter_cons_of_pos (by simpa using hk), List.foldl_cons]
      exact ih hy (hxy.closed hc).1

theorem Run.closed_stays (r : Run) (hjk : j ≤ k) (hx : (r.state j).session? h = some x)
    (hc : x.isClosed = true) : (r.state k).session? h = some x := by
  induction hjk with
  | refl => exact hx
  | @step k _ ih =>
    have hkeep : ∀ {v d w}, Part .inside v d w → v.Sleeping ∧ v.session h = some x →
        w.Sleeping ∧ w.session h = some x :=
      fun hp hv => ⟨hp.sleeping hv.1, hp.closed_stays hv.1 hv.2 hc⟩
    exact (((r.step k).parts trivial).keep hkeep ⟨r.sleeping k, ih⟩).2

theorem Run.closed_pushes (r : Run) (hjk : j ≤ k) (hx : (r.state j).session? h = some x)
    (hc : x.isClosed = true) : (r.state k).pushes h = (r.state j).pushes h := by
  induction hjk with
  | refl => rfl
  | @step k hjk ih =>
    have hk := r.closed_stays hjk hx hc
    have hkeep : ∀ {v d w}, Part .inside v d w →
        v.Sleeping ∧ v.session h = some x ∧ syncs h v.log = (r.state k).pushes h →
        w.Sleeping ∧ w.session h = some x ∧ syncs h w.log = (r.state k).pushes h := by
      rintro v d w hp ⟨hs, hv, hlog⟩
      have hw := hp.closed_stays hs hv hc
      refine ⟨hp.sleeping hs, hw, ?_⟩
      rcases hp.syncs h with he | ⟨_, y, hy, _⟩
      · exact he.trans hlog
      · exact absurd hy (not_isOpen hw hc)
    have hend := ((r.step k).parts trivial).keep hkeep ⟨r.sleeping k, hk, pushes_eq.symm⟩
    exact pushes_eq.trans (hend.2.2.trans ih)

theorem Run.mark_changed (r : Run) (k : Nat) {id : DocumentId}
    (hb : (r.state (k + 1)).running.isBusy id ≠ (r.state k).running.isBusy id) :
    ∃ h x, x.id = id ∧ ((r.state k).IsOpen h x ∨ (r.state (k + 1)).IsOpen h x) := by
  cases hold : (r.state k).running.isBusy id with
  | true =>
    obtain ⟨h, x, hx, hid⟩ := (r.invariant k).marked.owner hold
    exact ⟨h, x, hid, Or.inl hx⟩
  | false =>
    have hnew : (r.state (k + 1)).running.isBusy id = true := by simpa [hold] using hb
    obtain ⟨h, x, hx, hid⟩ := (r.invariant (k + 1)).marked.owner hnew
    exact ⟨h, x, hid, Or.inr hx⟩

/-- What a session, closed with `x`, is and does in a later state. -/
structure ClosedForGood (r : Run) (h k : Nat) (x : Session) (pushed : List (Nat × List Char)) :
    Prop where
  kept : (r.state k).session? h = some x
  idle : x.phase = .idle
  silent : (r.state k).pushes h = pushed
  unfelt : ∀ e, (r.state k).Concerns h e → (r.state k).Untouched ((r.state k).next e)
  /-- A change of the editor is taken in by the other sessions only. -/
  deaf : ∀ name change, (r.state k).next (.change name change) =
    ((((r.state k).channel name).handlers.map Prod.snd).filter (· != h)).foldl
      (fun s j => s.contentChange change j) (r.state k)
  /-- A busy mark is set or cleared by another session. -/
  unmarked : ∀ id, (r.state (k + 1)).running.isBusy id ≠ (r.state k).running.isBusy id →
    ∃ j y, j ≠ h ∧ y.id = id ∧ ((r.state k).IsOpen j y ∨ (r.state (k + 1)).IsOpen j y)

theorem closing_is_final (r : Run) {h j k : Nat} {x : Session}
    (hx : (r.state j).session? h = some x) (hc : x.isClosed = true) (hjk : j ≤ k) :
    ClosedForGood r h k x ((r.state j).pushes h) := by
  have hk := r.closed_stays hjk hx hc
  have hnext := r.closed_stays (Nat.le_succ_of_le hjk) hx hc
  refine ⟨hk, (r.resting k hk hc).1, r.closed_pushes hjk hx hc, ?_, ?_, ?_⟩
  · intro e he
    exact untouched_next (r.sleeping k) hk hc he
  · intro name change
    exact fireChannel_closed hk hc name change
  · intro id hb
    obtain ⟨i, y, hid, hy⟩ := r.mark_changed k hb
    refine ⟨i, y, ?_, hid, hy⟩
    rintro rfl
    rcases hy with hy | hy
    · exact not_isOpen (v := (r.state k).pushState) hk hc hy
    · exact not_isOpen (v := (r.state (k + 1)).pushState) hnext hc hy

/-- A document is closed while a push of it is under way, and opened again before the answer. -/
def reopenedRun : Run where
  syncDelay := 300
  completionDelay := 100
  input := ⟨⟨[]⟩, []⟩
  event
    | 0 => .connect 0
    | 1 => .answer 0 (.connected (.ok ()) (.ok ()))
    | 2 => .openDocument ⟨"a"⟩ (.standalone ['x']) "a"
    | 3 => .fire 0
    | 4 => .run 1
    | 5 => .closeDocument ⟨"a"⟩
    | 6 => .openDocument ⟨"a"⟩ (.standalone ['y']) "a"
    | 7 => .answer 1 (.synced (.error .notConnected))
    | _ => .endStream
  whole k := by
    split <;> rfl

/-- The late answer to the push of the old session leaves the new one alone. -/
theorem late_answer_unfelt :
    (reopenedRun.state 6).session? 0 = some ⟨⟨"a"⟩, .standalone ['x'], 1, .idle, true, ⟨1, none⟩,
        "a", none⟩ ∧ 6 ≤ 7 ∧
      ClosedForGood reopenedRun 0 7 ⟨⟨"a"⟩, .standalone ['x'], 1, .idle, true, ⟨1, none⟩, "a", none⟩
        ((reopenedRun.state 6).pushes 0) :=
  ⟨by decide, by decide, closing_is_final reopenedRun (by decide) rfl (by decide)⟩

end DocSync.Service
