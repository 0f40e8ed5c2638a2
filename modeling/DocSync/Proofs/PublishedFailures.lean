import DocSync.Proofs.Interruptions

/-!
Failures are published exactly once. Every failure of the service has one of four origins: a change
that does not fit the text of an open session, a push of an open session that the server refused, a
question that it refused, and an error that it told of by itself. What an event publishes follows
from the service before it, and a run has published just what its events did, in their order.
-/

namespace DocSync.Service

open PushState

variable {s t : Service} {e : Event} {h k request task : Nat} {w : Work} {x : Session}
  {id : DocumentId} {change : ContentChange}

/-- A session that is open publishes that a change does not fit its text. -/
def rejection? (s : Service) (change : ContentChange) (h : Nat) :
    Option (Option DocumentId × String) :=
  ((s.session? h).filter fun x => !x.isClosed).bind fun x =>
    match x.document.applyAll change.changes with
    | .ok _ => none
    | .error e => some (some x.id, e.message)

/-- The document that an answer to a task fails, and why. A push fails no document once its session
is closed. -/
def refused? (s : Service) : Work → Answer → Option (DocumentId × Failure)
  | .sync h _ _, .synced (.error e) =>
    ((s.session? h).filter fun x => !x.isClosed).map fun x => (x.id, e)
  | .complete _ id _, .completed (.error e) => some (id, e)
  | .info _ id _, .informed (.error e) => some (id, e)
  | _, _ => none

/-- The failures that an event publishes, in their order. -/
def publishes (s : Service) : Event → List (Option DocumentId × String)
  | .change name change =>
    ((s.channel name).handlers.map Prod.snd).filterMap (s.rejection? change)
  | .answer task a =>
    (((s.work task).bind fun w => s.refused? w a).map fun f => (some f.1, f.2.message)).toList
  | .receive (.error message) => if s.isListening then [(none, message)] else []
  | _ => []

/-- The text of an open session rejects a change, and why. -/
def Rejects (s : Service) (change : ContentChange) (h : Nat) (x : Session) (e : EditError) : Prop :=
  s.IsOpen h x ∧ x.document.FailsWith change.changes e

theorem rejection?_eq_some {f : Option DocumentId × String} :
    s.rejection? change h = some f ↔
      ∃ x e, s.Rejects change h x e ∧ f = (some x.id, e.message) := by
  constructor
  · intro hf
    obtain ⟨x, hx, hf⟩ := Option.bind_eq_some_iff.mp hf
    obtain ⟨hx, ho⟩ := Option.filter_eq_some_iff.mp hx
    have ho : x.isClosed = false := by simpa using ho
    cases hd : x.document.applyAll change.changes with
    | ok document =>
      rw [hd] at hf
      cases hf
    | error e =>
      rw [hd] at hf
      exact ⟨x, e, ⟨⟨hx, ho⟩, Document.applyAll_error_iff.mp hd⟩, (Option.some.inj hf).symm⟩
  · rintro ⟨x, e, ⟨hx, hd⟩, rfl⟩
    have hopen : (s.session? h).filter (fun x => !x.isClosed) = some x :=
      Option.filter_eq_some_iff.mpr ⟨hx.1, by simp [hx.2]⟩
    rw [rejection?, hopen, Option.bind_some, Document.applyAll_error_iff.mpr hd]

theorem session?_contentChange_of_ne (hk : k ≠ h) :
    (s.contentChange change h).session? k = s.session? k := by
  simp only [contentChange]
  split
  · rfl
  · next x hx =>
    split
    · rfl
    · split
      · rfl
      · next document _ =>
        have hp := pushState_edit (s := { s with wait := s.wait.cancel }) hx document s.syncDelay
        refine (congrArg (fun v => v.session k) hp).trans ?_
        exact Function.update_of_ne hk _ _

theorem rejection?_of_session (hs : t.session? k = s.session? k) :
    t.rejection? change k = s.rejection? change k := by
  rw [rejection?, hs, rejection?]

theorem failures_report (document : Option DocumentId) (message : String) :
    (s.report document message).failures = (document, message) :: s.failures := rfl

theorem failures_contentChange :
    (s.contentChange change h).failures = (s.rejection? change h).toList ++ s.failures := by
  cases hx : s.session? h with
  | none =>
    have hnone : s.rejection? change h = none := by rw [rejection?, hx]; rfl
    simp only [contentChange, hx, hnone]
    rfl
  | some x =>
    cases ho : x.isClosed with
    | true =>
      have hnone : s.rejection? change h = none := by
        rw [rejection?, hx, Option.filter_some, ho]
        rfl
      rw [contentChange_closed hx ho, hnone]
      rfl
    | false =>
      cases hd : x.document.applyAll change.changes with
      | ok document =>
        have hnone : s.rejection? change h = none := by
          rw [rejection?, hx, Option.filter_some, ho]
          simp [hd]
        rw [contentChange_ok hx ho hd, failures_edited, hnone]
        rfl
      | error e =>
        have hd := Document.applyAll_error_iff.mp hd
        rw [contentChange_misfits hx ho hd, failures_report,
          rejection?_eq_some.mpr ⟨x, e, ⟨⟨hx, ho⟩, hd⟩, rfl⟩]
        rfl

theorem failures_hear {sessions : List Nat} (hn : sessions.Nodup) :
    (s.hear change sessions).failures =
      (sessions.filterMap (s.rejection? change)).reverse ++ s.failures := by
  induction sessions generalizing s with
  | nil => rfl
  | cons h sessions ih =>
    obtain ⟨hh, hn⟩ := List.nodup_cons.mp hn
    have hrest : sessions.filterMap ((s.contentChange change h).rejection? change) =
        sessions.filterMap (s.rejection? change) := by
      refine List.filterMap_congr fun k hk => rejection?_of_session ?_
      exact session?_contentChange_of_ne fun he => hh (he ▸ hk)
    have hcons : s.hear change (h :: sessions) = (s.contentChange change h).hear change sessions :=
      rfl
    rw [hcons, ih hn, hrest, failures_contentChange]
    cases hf : s.rejection? change h with
    | none => rw [List.filterMap_cons_none hf]; rfl
    | some f => rw [List.filterMap_cons_some hf, List.reverse_cons, List.append_assoc]; rfl

theorem Attached.nodup (hs : s.Attached) (name : String) :
    ((s.channel name).handlers.map Prod.snd).Nodup :=
  (hs.listeners name).nodup_iff.mpr (nodup_numbers _ _)

theorem failures_afterPush (result : Except Failure Unit) (after : After) :
    (s.afterPush task result after).failures = s.failures :=
  (untouched_afterPush s task result after).failures

theorem failures_markIdle (id : DocumentId) : (s.markIdle id).failures = s.failures := by
  simp only [markIdle]
  split <;> rfl

theorem failures_completePush (t : Ticket) (after : After) (result : Except Failure Unit) :
    (s.completePush h t result).1.failures =
      ((s.refused? (.sync h t after) (.synced result)).map
        fun f => (some f.1, f.2.message)).toList ++ s.failures := by
  cases hx : s.session? h with
  | none =>
    simp only [completePush, hx]
    cases result <;> simp [refused?, hx]
  | some x =>
    cases ho : x.isClosed with
    | true =>
      rw [completePush_closed hx ho]
      cases result <;> simp [refused?, hx, ho]
    | false =>
      rcases result with e | u
      · simp only [completePush, hx, ho, Bool.false_eq_true, ↓reduceIte]
        rw [failures_report]
        simp only [refused?, hx, Option.filter_some, ho]
        rfl
      · cases u
        simp only [completePush, hx, ho, Bool.false_eq_true, ↓reduceIte]
        split
        · rw [failures_markIdle]
          rfl
        · rfl

theorem failures_answer (w : Work) (a : Answer) :
    (s.answer task w a).failures =
      ((s.refused? w a).map fun f => (some f.1, f.2.message)).toList ++ s.failures := by
  cases w with
  | sync h t after =>
    cases a with
    | synced result =>
      exact (failures_afterPush _ after).trans (failures_completePush t after result)
    | _ => rfl
  | complete request id p =>
    cases a with
    | completed result => cases result <;> rfl
    | _ => rfl
  | info request id use =>
    cases a with
    | informed result => cases result <;> rfl
    | _ => rfl
  | connect request =>
    cases a with
    | connected result stream =>
      simp only [answer, completeConnect]
      split
      · rfl
      · split <;> rfl
    | _ => rfl
  | shutdown request =>
    cases a <;> rfl
  | start | debounce | connectTurn => cases a <;> rfl

/-- The failures of the service grow by what the event publishes. -/
theorem failures_next (hs : s.Attached) (e : Event) :
    (s.next e).failures = (s.publishes e).reverse ++ s.failures := by
  have hkept (hf : ∀ document message, ¬Tells s e (.failed document message)) :
      (s.next e).failures = s.failures := by
    refine (tells_next s e).filterMap fun n hn => ?_
    cases n with
    | failed document message => exact absurd hn (hf document message)
    | _ => rfl
  cases e with
  | change name change => exact failures_hear (hs.nodup name)
  | answer task a =>
    simp only [publishes]
    cases hw : s.work task with
    | none =>
      have hw : s.tasks.lookup task = none := hw
      simp only [next, hw]
      rfl
    | some w =>
      rw [next_answer hw, failures_answer, Option.bind_some]
      cases s.refused? w a <;> rfl
  | receive event =>
    cases event with
    | allMessages messages => exact hkept (by rintro _ _ ⟨⟩)
    | error message =>
      simp only [next, receive, publishes]
      split <;> rfl
  | _ => exact hkept (by rintro _ _ ⟨⟩)

/-- An unending run of any events, openings in one go and interrupted ones alike. -/
structure Course where
  syncDelay : Nat
  completionDelay : Nat
  input : AbbreviationInput
  event : Nat → Event

def Course.state (c : Course) : Nat → Service
  | 0 => initial c.syncDelay c.completionDelay c.input
  | k + 1 => (c.state k).next (c.event k)

theorem Course.reachable (c : Course) (k : Nat) : Reachable (c.state k) := by
  induction k with
  | zero => exact .initial _ _ _
  | succ k ih => exact ih.next _

theorem Course.published (c : Course) (k : Nat) :
    (c.state k).failures.reverse =
      (List.range k).flatMap fun j => (c.state j).publishes (c.event j) := by
  induction k with
  | zero => rfl
  | succ k ih =>
    rw [state, failures_next (c.reachable k).coherent.attached, List.reverse_append,
      List.reverse_reverse, ih, List.range_succ, List.flatMap_append, List.flatMap_singleton]

/-- A push that follows on a completion's delay is refused: the failure is published, and the
request ends with it. -/
theorem journal_refused {t : Ticket} {j : Nat} {p : EditorPosition} {e : Failure}
    (hw : s.work task = some (.sync h t (.completion request j id p))) (hx : s.IsOpen h x) :
    (s.next (.answer task (.synced (.error e)))).journal =
      .finished request (.completion (.error e)) :: .failed (some x.id) e.message ::
        .answered task h t.version false :: s.journal := by
  have hx' : (s.note (.answered task h t.version false)).session? h = some x := hx.1
  rw [next_answer hw]
  simp only [answer, isOk, completePush, hx', hx.2, Bool.false_eq_true, ↓reduceIte]
  rfl

/-- Events that end requests, refuse them or take answers in, and publish nothing. -/
inductive Silent (s : Service) : Event → Prop where
  /-- A completion's delay is over or was cancelled, or a push finds no connection. -/
  | turn {task : Nat} : Silent s (.run task)
  | accepted {task : Nat} : Silent s (.answer task (.synced (.ok ())))
  | closed {task h : Nat} {t : Ticket} {after : After} {x : Session}
      {result : Except Failure Unit} (hw : s.work task = some (.sync h t after))
      (hx : s.session? h = some x) (hc : x.isClosed = true) :
      Silent s (.answer task (.synced result))
  | connected {task : Nat} {result stream : Except Failure Unit} :
      Silent s (.answer task (.connected result stream))
  | stopped {task : Nat} {result : Except Failure Unit} :
      Silent s (.answer task (.stopped result))
  | openDocument {id : DocumentId} {document : Document} {channel : String} :
      Silent s (.openDocument id document channel)
  | closeDocument {id : DocumentId} : Silent s (.closeDocument id)
  | flush {request h : Nat} : Silent s (.flush request h)
  | complete {request : Nat} {id : DocumentId} {p : EditorPosition} :
      Silent s (.complete request id p)
  | info {request : Nat} {id : DocumentId} {p : EditorPosition} {use : InfoUse} :
      Silent s (.info request id p use)
  | connect {request : Nat} : Silent s (.connect request)
  | shutdown {request : Nat} : Silent s (.shutdown request)

theorem Silent.publishes (he : s.Silent e) : s.publishes e = [] := by
  have hnone {task : Nat} {a : Answer} (hr : ∀ w, s.work task = some w → s.refused? w a = none) :
      s.publishes (.answer task a) = [] := by
    cases hw : s.work task with
    | none => simp only [Service.publishes, hw]; rfl
    | some w => simp only [Service.publishes, hw, Option.bind_some, hr w hw]; rfl
  cases he with
  | accepted => exact hnone fun w _ => by cases w <;> rfl
  | @closed task h t after x result hw hx hc =>
    refine hnone fun w' hw' => ?_
    obtain rfl := Option.some.inj (hw.symm.trans hw')
    cases result with
    | ok => rfl
    | error e => simp only [refused?, hx, Option.filter_some, hc]; rfl
  | connected | stopped => exact hnone fun w _ => by cases w <;> rfl
  | _ => rfl

/-- What a run publishes. -/
structure Course.PublishesExactly (c : Course) : Prop where
  /-- Of each event the failures that it publishes, in order, and nothing else. -/
  published : ∀ k, (c.state k).failures.reverse =
    (List.range k).flatMap fun j => (c.state j).publishes (c.event j)
  /-- A change is heard by each open session of its channel, once. -/
  heard : ∀ k name change, ∃ sessions : List Nat,
    sessions.Perm ((c.state k).listeners name) ∧
      (c.state k).publishes (.change name change) =
        sessions.filterMap ((c.state k).rejection? change)
  rejected : ∀ k change h f, (c.state k).rejection? change h = some f ↔
    ∃ x e, (c.state k).Rejects change h x e ∧ f = (some x.id, e.message)
  /-- A completion whose push is refused ends with the failure, which is published once. -/
  returned : ∀ k task request h j x t id p e, (c.state k).IsOpen h x →
    (c.state k).work task = some (.sync h t (.completion request j id p)) →
    ((c.state k).next (.answer task (.synced (.error e)))).journal =
      .finished request (.completion (.error e)) :: .failed (some x.id) e.message ::
        .answered task h t.version false :: (c.state k).journal
  silent : ∀ k, (c.state k).Silent (c.event k) →
    (c.state (k + 1)).failures = (c.state k).failures

theorem failures_published_exactly (c : Course) : c.PublishesExactly where
  published := c.published
  heard k name _ := ⟨_, (c.reachable k).coherent.attached.listeners name, rfl⟩
  rejected _ _ _ _ := rejection?_eq_some
  returned _ _ _ _ _ _ _ _ _ _ hx hw := journal_refused hw hx
  silent k he := by
    rw [Course.state, failures_next (c.reachable k).coherent.attached, he.publishes]
    rfl

/-- A push is under way when a completion pushes too; both are refused, and a change misfits. -/
def refusedCourse : Course where
  syncDelay := 300
  completionDelay := 100
  input := ⟨⟨[]⟩, []⟩
  event
    | 0 => .connect 0
    | 1 => .answer 0 (.connected (.ok ()) (.ok ()))
    | 2 => .openDocument ⟨"a"⟩ (.standalone ['x']) "a"
    | 3 => .fire 0
    | 4 => .run 1
    | 5 => .complete 1 ⟨"a"⟩ ⟨1, 1⟩
    | 6 => .pass 100
    | 7 => .run 2
    | 8 => .answer 2 (.synced (.error .notConnected))
    | 9 => .answer 1 (.synced (.error .serviceStopped))
    | 10 => .change "a" strayChange
    | 11 => .receive (.error "lost")
    | _ => .endStream

theorem refusals_published_once :
    (refusedCourse.state 12).failures.reverse =
        [(some ⟨"a"⟩, "not connected to the analysis server"), (some ⟨"a"⟩, "service stopped"),
          (some ⟨"a"⟩, "position 2:1 is outside the document"), (none, "lost")] ∧
      refusedCourse.PublishesExactly :=
  ⟨by decide, failures_published_exactly refusedCourse⟩

end DocSync.Service
