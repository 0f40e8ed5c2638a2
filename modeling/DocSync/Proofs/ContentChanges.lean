import DocSync.Proofs.Closing
import DocSync.Proofs.DocumentEdits
import DocSync.Proofs.Notices
import DocSync.Proofs.Shutdown
import DocSync.Proofs.TimerSteps

/-!
A change of the editor is taken in as a whole or not at all. Its edits are meant for one text after
the other; where all of them fit, the session starts a version, and where one does not, the session
only reports it.

The push of the new version is scheduled by the change, which takes a runtime to be made in. Outside
of one the change is taken in all the same, and the session reports that nothing will push it.
-/

namespace DocSync

namespace Service

variable {s t u : Service} {g h k : Nat} {x y : Session} {id : DocumentId} {document : Document}
  {change : ContentChange} {place : Place}

/-- The failures that name a document, newest first. -/
def failuresOf (s : Service) (id : DocumentId) : List String :=
  s.failures.filterMap fun f => if f.1 = some id then some f.2 else none

theorem failuresOf_report (id' : DocumentId) (message : String) :
    (s.report (some id') message).failuresOf id =
      if id' = id then message :: s.failuresOf id else s.failuresOf id := by
  have hcons : (s.report (some id') message).failures = (some id', message) :: s.failures := rfl
  by_cases hid : id' = id
  · subst hid
    simp [failuresOf, hcons]
  · simp [failuresOf, hcons, hid]

/-- What becomes of the debounce timer of a session whose text changed: it is armed for the delay
from now on, or left without a task where none can be started. -/
def Rearms (s t : Service) (h : Nat) (timer : Timer) : Place → Prop
  | .inside => ∃ i, timer.pending = some i ∧
      t.agenda.find? i = some ⟨i, s.now + s.syncDelay, ⟨h, timer.generation⟩⟩
  | .outside => timer.pending = none

/-- What is reported where a timer is armed. -/
def refusals : Place → List String
  | .inside => []
  | .outside => [(Failure.runtime "coalesced_timer").message]

/-- A session took a change in: it has the new text as a new version, whose push comes after the
delay, and no completion waits any more. -/
structure TakesIn (s t : Service) (h : Nat) (x : Session) (document : Document) (place : Place) :
    Prop where
  session : ∃ timer, t.session? h = some
    { x with
      document := document
      version := x.version + 1
      phase := .pending (x.version + 1)
      timer := timer } ∧ s.Rearms t h timer place
  /-- No other timer task of the session is left. -/
  timer : ∀ i sleeper, t.agenda.find? i = some sleeper → sleeper.job.session = h →
    place = .inside ∧ sleeper.deadline = s.now + s.syncDelay
  marked : t.running.isBusy x.id = true
  cancelled : t.wait.outstanding = none ∧
    ∀ g, s.wait.outstanding = some g → t.wait.rejections.lookup g = some .cancelled
  failures : t.failuresOf x.id = refusals place ++ s.failuresOf x.id

theorem contentChange_fits (hx : s.session? h = some x) (ho : x.isClosed = false)
    (hd : x.document.Becomes change.changes document) (place : Place := .inside) :
    s.contentChange change h place =
      (s.setSession h { x with document := document }).edited h place :=
  contentChange_ok hx ho (Document.applyAll_ok_iff.mpr hd) place

theorem contentChange_misfits {e : EditError} (hx : s.session? h = some x)
    (ho : x.isClosed = false) (hd : x.document.FailsWith change.changes e)
    (place : Place := .inside) :
    s.contentChange change h place = s.report (some x.id) e.message := by
  simp only [contentChange, hx, ho, Document.applyAll_error_iff.mpr hd, Bool.false_eq_true,
    ↓reduceIte]
  rfl

theorem failures_edited : (s.edited h).failures = s.failures := by
  have hadds : Adds (fun n => ∃ members, n = .running members) s (s.edited h) :=
    adds_edited fun members => ⟨members, rfl⟩
  refine hadds.filterMap ?_
  rintro n ⟨members, rfl⟩
  rfl

theorem failuresOf_edited (hx : s.session? h = some x) (place : Place) (id : DocumentId) :
    (s.edited h place).failuresOf id =
      (if x.id = id then refusals place else []) ++ s.failuresOf id := by
  cases place with
  | inside =>
    simp only [failuresOf, failures_edited, refusals, ite_self]
    rfl
  | outside =>
    -- but for the report, an edit outside a runtime tells what one inside tells
    let c : Service := { s with wait := s.wait.cancel }
    have hbump : (c.bump h).session? h = some x.bump := session?_bump hx
    have htold : (s.edited h .outside).failures =
        (some x.id, (Failure.runtime "coalesced_timer").message) :: (s.edited h).failures := by
      simp only [edited, syncIn, arm]
      rw [hbump]
      rfl
    by_cases hid : x.id = id
    · simp [failuresOf, htold, failures_edited, refusals, hid]
    · simp [failuresOf, htold, failures_edited, hid]

theorem find?_arm (v : PushState) (h : Nat) (x : Session) (deadline i : Nat) :
    (v.arm h x deadline place).agenda.find? i =
      (if x.timer.pending = some i then none else v.agenda.find? i).or
        (if place = .inside ∧ i = v.agenda.nextId then
          some ⟨v.agenda.nextId, deadline, ⟨h, x.timer.generation + 1⟩⟩ else none) := by
  cases place with
  | inside =>
    refine (Timer.find?_schedule x.timer v.agenda deadline (fun g => ⟨h, g⟩) i).trans ?_
    simp
  | outside =>
    refine (Timer.find?_abort x.timer v.agenda i).trans ?_
    simp

theorem takesIn_edited (hv : PushInvariant s.pushState) (hs : s.pushState.Sleeping)
    (hw : s.wait.Tidy) (hx : s.pushState.IsOpen h x) (document : Document) (place : Place) :
    s.TakesIn ((s.setSession h { x with document := document }).edited h place) h x document
      place := by
  let c : Service := { s with wait := s.wait.cancel }
  have hsession : s.session? h = some x := hx.1
  have hp : ((s.setSession h { x with document := document }).edited h place).pushState =
      (s.pushState.arm h { x.bump with document := document } (s.now + s.syncDelay)
        place).markBusy x.id := pushState_edit (s := c) hsession document s.syncDelay place
  have hwait : ((s.setSession h { x with document := document }).edited h place).wait =
      s.wait.cancel := congrArg Service.wait (outline_edited place)
  have hfailures := failuresOf_edited
    (session?_setSession hsession { x with document := document }) place x.id
  have hsleeping :
      ((s.setSession h { x with document := document }).edited h place).pushState.Sleeping :=
    (edited_part hsession hx.2 document place).sleeping hs
  generalize (s.setSession h { x with document := document }).edited h place = t at *
  have hfind (i : Nat) : t.agenda.find? i = _ :=
    (congrArg (fun v => v.agenda.find? i) hp).trans (find?_arm s.pushState h _ _ i)
  have hrearmed : ∃ timer, t.session? h = some
      { x with
        document := document
        version := x.version + 1
        phase := .pending (x.version + 1)
        timer := timer } ∧ s.Rearms t h timer place := by
    refine ⟨_, (congrArg (fun v => v.session h) hp).trans (Function.update_self _ _ _), ?_⟩
    cases place with
    | outside => rfl
    | inside =>
      have hfree : s.pushState.agenda.find? s.agenda.nextId = none := nextId_free hv
      have hnext : (x.timer.abort s.agenda).nextId = s.agenda.nextId := Timer.nextId_abort _ _
      refine ⟨s.agenda.nextId, congrArg some hnext, ?_⟩
      rw [hfind, hfree, ite_self, Option.none_or, if_pos ⟨rfl, rfl⟩]
      rfl
  constructor
  · exact hrearmed
  · -- a sleeping task is the pending one of its session
    intro i sleeper hi hjob
    obtain ⟨timer, hself, hrearms⟩ := hrearmed
    obtain ⟨y, hy, hpending, _⟩ := hsleeping hi
    rw [hjob] at hy
    obtain rfl := Option.some.inj (hself.symm.trans hy.1)
    cases place with
    | outside => exact absurd (hrearms.symm.trans hpending) (Option.some_ne_none i).symm
    | inside =>
      obtain ⟨j, hj, hnext⟩ := hrearms
      obtain rfl : j = i := Option.some.inj (hj.symm.trans hpending)
      exact ⟨rfl, congrArg Sleeper.deadline (Option.some.inj (hi.symm.trans hnext))⟩
  · have hr : t.running = (s.running.markBusy x.id).1 := congrArg PushState.running hp
    rw [hr, isBusy_markBusy, beq_self_eq_true, Bool.true_or]
  · rw [hwait]
    refine ⟨Wait.reject_outstanding _ _, fun g hg => ?_⟩
    exact (Wait.lookup_reject hw .cancelled g).trans (if_pos hg)
  · rw [hfailures, if_pos rfl]
    rfl

/-- What can be told of one session, and the failures that name its document, stay. -/
structure Spares (s t : Service) (h : Nat) (id : DocumentId) : Prop where
  session : t.session? h = s.session? h
  timer : ∀ i sleeper, sleeper.job.session = h →
    (t.agenda.find? i = some sleeper ↔ s.agenda.find? i = some sleeper)
  marked : t.running.isBusy id = s.running.isBusy id
  failures : t.failuresOf id = s.failuresOf id

theorem Spares.refl (s : Service) (h : Nat) (id : DocumentId) : s.Spares s h id :=
  ⟨rfl, fun _ _ _ => Iff.rfl, rfl, rfl⟩

theorem Spares.trans (hst : s.Spares t h id) (htu : t.Spares u h id) : s.Spares u h id where
  session := htu.session.trans hst.session
  timer i sleeper hj := (htu.timer i sleeper hj).trans (hst.timer i sleeper hj)
  marked := htu.marked.trans hst.marked
  failures := htu.failures.trans hst.failures

theorem spares_report (h : Nat) {id' : DocumentId} (hid : id' ≠ id) (message : String) :
    s.Spares (s.report (some id') message) h id :=
  ⟨rfl, fun _ _ _ => Iff.rfl, rfl, (failuresOf_report id' message).trans (if_neg hid)⟩

/-- An edit of another session drops no timer task but that session's own. -/
theorem spares_edited (hv : PushInvariant s.pushState) (hx : s.pushState.IsOpen h x)
    (hy : s.pushState.IsOpen k y) (hk : k ≠ h) (document : Document) (place : Place) :
    s.Spares ((s.setSession k { y with document := document }).edited k place) h x.id := by
  let c : Service := { s with wait := s.wait.cancel }
  have hp : ((s.setSession k { y with document := document }).edited k place).pushState =
      (s.pushState.arm k { y.bump with document := document } (s.now + s.syncDelay)
        place).markBusy y.id := pushState_edit (s := c) hy.1 document s.syncDelay place
  have hsession : s.session? k = some y := hy.1
  have hfailures := failuresOf_edited
    (session?_setSession hsession { y with document := document }) place x.id
  have hid : y.id ≠ x.id := fun he => hk (hv.owned.unique hx hy he)
  generalize (s.setSession k { y with document := document }).edited k place = t at hp hfailures ⊢
  constructor
  · refine (congrArg (fun v => v.session h) hp).trans ?_
    exact Function.update_of_ne (Ne.symm hk) _ _
  · intro i sleeper hjob
    have hfind : t.agenda.find? i = (if y.timer.pending = some i then none
        else s.agenda.find? i).or (if place = .inside ∧ i = s.agenda.nextId then
          some ⟨s.agenda.nextId, s.now + s.syncDelay, ⟨k, y.timer.generation + 1⟩⟩ else none) :=
      (congrArg (fun v => v.agenda.find? i) hp).trans (find?_arm s.pushState k _ _ i)
    rw [hfind]
    have hother : y.timer.pending = some i → s.agenda.find? i ≠ some sleeper := by
      intro hpend hi
      obtain ⟨sleeper', hi', hjob'⟩ := hv.timed.armed hy hpend
      obtain rfl := Option.some.inj (hi.symm.trans hi')
      rw [hjob'] at hjob
      exact hk hjob
    constructor
    · intro hi
      rcases Option.or_eq_some_iff.mp hi with hi | ⟨_, hi⟩
      · split at hi
        · cases hi
        · exact hi
      · split at hi
        · cases hi
          exact absurd hjob hk
        · cases hi
    · intro hi
      rw [if_neg fun hpend => hother hpend hi, hi, Option.some_or]
  · have hr : t.running = (s.running.markBusy y.id).1 := congrArg PushState.running hp
    rw [hr, isBusy_markBusy, beq_eq_false_iff_ne.mpr (Ne.symm hid), Bool.false_or]
  · rw [hfailures, if_neg hid]
    rfl

/-- A session does not feel that another one hears a change. -/
theorem spares_contentChange (hv : PushInvariant s.pushState) (hx : s.pushState.IsOpen h x)
    (hk : k ≠ h) (change : ContentChange) (place : Place) :
    s.Spares (s.contentChange change k place) h x.id := by
  cases hy : s.session? k with
  | none =>
    have he : s.contentChange change k place = s := by simp only [contentChange, hy]
    rw [he]
    exact .refl s h _
  | some y =>
    cases ho : y.isClosed with
    | true =>
      rw [contentChange_closed hy ho change place]
      exact .refl s h _
    | false =>
      have hid : y.id ≠ x.id := fun he => hk (hv.owned.unique hx ⟨hy, ho⟩ he)
      cases hd : y.document.applyAll change.changes with
      | error e =>
        rw [contentChange_misfits hy ho (Document.applyAll_error_iff.mp hd) place]
        exact spares_report h hid _
      | ok document =>
        rw [contentChange_ok hy ho hd place]
        exact spares_edited hv hx ⟨hy, ho⟩ hk document place

theorem spares_hear (hv : PushInvariant s.pushState) (hx : s.pushState.IsOpen h x)
    (change : ContentChange) {sessions : List Nat} (hh : h ∉ sessions) (place : Place) :
    s.Spares (s.hear change sessions place) h x.id := by
  simp only [hear]
  induction sessions generalizing s with
  | nil => exact .refl s h _
  | cons k sessions ih =>
    obtain ⟨hk, hh⟩ := not_or.mp (mt List.mem_cons.mpr hh)
    have hspares := spares_contentChange hv hx (Ne.symm hk) change place
    have hp := contentChange_parts (s := s) (h := k) change place
    have hx' : (s.contentChange change k place).pushState.IsOpen h x :=
      ⟨hspares.session.trans hx.1, hx.2⟩
    exact hspares.trans (ih (hp.keep Part.invariant hv) hx' hh)

theorem wait_of_outlineKept (ho : s.OutlineKept t) :
    t.wait = s.wait ∨ t.wait = s.wait.cancel := by
  rcases ho with ho | ho
  · have hwait := congrArg Service.wait ho
    exact Or.inl hwait
  · have hwait := congrArg Service.wait ho
    exact Or.inr hwait

theorem hear_keeps (change : ContentChange) (sessions : List Nat) (place : Place)
    (hv : PushInvariant s.pushState) (hs : s.pushState.Sleeping) (hw : s.wait.Tidy) :
    PushInvariant (s.hear change sessions place).pushState ∧
      (s.hear change sessions place).pushState.Sleeping ∧
      (s.hear change sessions place).wait.Tidy := by
  have hp := hear_parts (s := s) change sessions place
  refine ⟨hp.keep Part.invariant hv, hp.keep Part.sleeping hs, ?_⟩
  rcases wait_of_outlineKept (outlineKept_hear (s := s) change sessions place) with he | he
  · rw [he]
    exact hw
  · rw [he]
    exact hw.reject .cancelled

theorem hear_rejected {sessions : List Nat} (hr : ∀ k ∈ sessions, ∀ y, s.IsOpen k y →
    ∃ e, y.document.FailsWith change.changes e) (place : Place) :
    ∃ l, s.hear change sessions place = { s with journal := l ++ s.journal } := by
  simp only [hear]
  induction sessions generalizing s with
  | nil => exact ⟨[], rfl⟩
  | cons k sessions ih =>
    have hone : ∃ l, s.contentChange change k place = { s with journal := l ++ s.journal } := by
      cases hy : s.session? k with
      | none => exact ⟨[], by simp only [contentChange, hy]; rfl⟩
      | some y =>
        cases ho : y.isClosed with
        | true => exact ⟨[], contentChange_closed hy ho change place⟩
        | false =>
          obtain ⟨e, he⟩ := hr k List.mem_cons_self y ⟨hy, ho⟩
          exact ⟨[.failed (some y.id) e.message], contentChange_misfits hy ho he place⟩
    obtain ⟨l, hl⟩ := hone
    obtain ⟨m, hm⟩ := ih (s := { s with journal := l ++ s.journal }) fun j hj =>
      hr j (List.mem_cons_of_mem k hj)
    refine ⟨m ++ l, ?_⟩
    rw [List.foldl_cons, hl, hm, List.append_assoc]

theorem TakesIn.amid {v : Service} (hw : s.wait.Tidy) (hsu : s.Spares u h x.id)
    (hnow : u.now = s.now) (hdelay : u.syncDelay = s.syncDelay)
    (huv : u.TakesIn v h x document place) (hvt : v.Spares t h x.id)
    (hwait : t.wait = s.wait.cancel) : s.TakesIn t h x document place := by
  obtain ⟨⟨timer, hsession, hrearms⟩, htimer, hmarked, _, hfailures⟩ := huv
  rw [hnow, hdelay] at htimer
  constructor
  · refine ⟨timer, hvt.session.trans hsession, ?_⟩
    cases place with
    | outside => exact hrearms
    | inside =>
      obtain ⟨i, hpending, hfind⟩ := hrearms
      rw [hnow, hdelay] at hfind
      exact ⟨i, hpending, (hvt.timer i _ rfl).mpr hfind⟩
  · intro j sleeper hj hjob
    exact htimer j sleeper ((hvt.timer j sleeper hjob).mp hj) hjob
  · exact hvt.marked.trans hmarked
  · rw [hwait]
    refine ⟨Wait.reject_outstanding _ _, fun g hg => ?_⟩
    exact (Wait.lookup_reject hw .cancelled g).trans (if_pos hg)
  · rw [hvt.failures, hfailures, hsu.failures]

/-- A session turned a change down: nothing about it changed, and the failure was reported once. -/
structure TurnsDown (s t : Service) (h : Nat) (x : Session) (change : ContentChange)
    (e : EditError) : Prop where
  session : t.session? h = some x
  timer : ∀ i sleeper, sleeper.job.session = h →
    (t.agenda.find? i = some sleeper ↔ s.agenda.find? i = some sleeper)
  marked : t.running.isBusy x.id = s.running.isBusy x.id
  failures : t.failuresOf x.id = e.message :: s.failuresOf x.id
  /-- If no other session of the channel accepts it, the service only reports. -/
  alone : (∀ k y, k ≠ h → s.IsOpen k y → y.channel = x.channel →
    ∃ e, y.document.FailsWith change.changes e) → ∃ l, t = { s with journal := l ++ s.journal }

/-- What comes of a change of the editor, made at a place, for an open session on its channel. -/
structure AllOrNothing (s : Service) (h : Nat) (x : Session) (change : ContentChange)
    (place : Place) : Prop where
  /-- All edits fit, or there is a first one that does not. -/
  decided : (∃ document, x.document.Becomes change.changes document) ∨
    ∃ e, x.document.FailsWith change.changes e
  accepted : ∀ document, x.document.Becomes change.changes document →
    s.TakesIn (s.next (.change x.channel change) place) h x document place
  rejected : ∀ e, x.document.FailsWith change.changes e →
    s.TurnsDown (s.next (.change x.channel change) place) h x change e
  /-- By itself the session does the same, whichever sessions heard the change before: it takes the
  change in, or reports it and changes nothing at all. -/
  itself : ∀ sessions y, (s.hear change sessions place).IsOpen h y →
    (∀ document, y.document.Becomes change.changes document →
      (s.hear change sessions place).TakesIn
        ((s.hear change sessions place).contentChange change h place) h y document place) ∧
    ∀ e, y.document.FailsWith change.changes e →
      (s.hear change sessions place).contentChange change h place =
        (s.hear change sessions place).report (some y.id) e.message

/-- A session takes a change in amid others that hear it. -/
theorem hear_takesIn {before after : List Nat} (hs : s.Sound) (hw : s.wait.Tidy)
    (hx : s.pushState.IsOpen h x) (hbefore : h ∉ before) (hafter : h ∉ after)
    (hd : x.document.Becomes change.changes document) :
    s.TakesIn (((s.hear change before place).contentChange change h place).hear change after
      place) h x document place := by
  have hspares := spares_hear hs.invariant hx change hbefore place
  have hkeeps := hear_keeps change before place hs.invariant hs.sleeping hw
  obtain ⟨hnow, hdelay⟩ := clock_hear (s := s) change before place
  have hwu := wait_of_outlineKept (outlineKept_hear (s := s) change before place)
  have hxu : (s.hear change before place).pushState.IsOpen h x :=
    ⟨hspares.session.trans hx.1, hx.2⟩
  generalize s.hear change before place = u at *
  have hv := contentChange_fits hxu.1 hxu.2 hd place
  have htakes := takesIn_edited hkeeps.1 hkeeps.2.1 hkeeps.2.2 hxu document place
  have hwait : (u.contentChange change h place).wait = u.wait.cancel := by
    rw [hv]
    exact congrArg Service.wait (outline_edited place)
  rw [← hv] at htakes
  have hvi := (contentChange_parts (s := u) (h := h) change place).keep Part.invariant hkeeps.1
  generalize u.contentChange change h place = v at *
  obtain ⟨⟨timer, hself, _⟩, _⟩ := id htakes
  refine htakes.amid hw hspares hnow hdelay
    (spares_hear hvi ⟨hself, hx.2⟩ change hafter place) ?_
  -- whoever hears the change before or after, the wait is cancelled once
  have hcancelled : v.wait = s.wait.cancel := by
    rcases hwu with he | he
    · rw [hwait, he]
    · rw [hwait, he, cancel_cancel]
  rcases wait_of_outlineKept (outlineKept_hear (s := v) change after place) with he | he
  · rw [he, hcancelled]
  · rw [he, hcancelled, cancel_cancel]

theorem hear_alone (hs : s.Attached) (hx : s.pushState.IsOpen h x) {e : EditError}
    (hd : x.document.FailsWith change.changes e)
    (hr : ∀ k y, k ≠ h → s.IsOpen k y → y.channel = x.channel →
      ∃ e, y.document.FailsWith change.changes e) (place : Place) :
    ∃ l, s.hear change ((s.channel x.channel).handlers.map Prod.snd) place =
      { s with journal := l ++ s.journal } := by
  refine hear_rejected (fun k hk y hy => ?_) place
  by_cases hkh : k = h
  · subst hkh
    obtain rfl := Option.some.inj (hx.1.symm.trans hy.1)
    exact ⟨e, hd⟩
  · obtain ⟨z, hz, hchannel⟩ := hs.session_of_mem hk
    obtain rfl := Option.some.inj (hy.1.symm.trans hz.1)
    exact hr k y hkh hy hchannel

theorem hear_turnsDown {before after : List Nat} {e : EditError} (hs : s.Sound) (hw : s.wait.Tidy)
    (hx : s.pushState.IsOpen h x)
    (he : (s.channel x.channel).handlers.map Prod.snd = before ++ h :: after)
    (hbefore : h ∉ before) (hafter : h ∉ after) (hd : x.document.FailsWith change.changes e) :
    s.TurnsDown (s.hear change (before ++ h :: after) place) h x change e := by
  have hspares := spares_hear hs.invariant hx change hbefore place
  have hxu : (s.hear change before place).pushState.IsOpen h x :=
    ⟨hspares.session.trans hx.1, hx.2⟩
  have hv := contentChange_misfits hxu.1 hxu.2 hd place
  have hvx : ((s.hear change before place).contentChange change h place).pushState.IsOpen h x := by
    rw [hv]
    exact hxu
  have hvi := (contentChange_parts (s := s.hear change before place) (h := h) change place).keep
    Part.invariant (hear_keeps change before place hs.invariant hs.sleeping hw).1
  have hall : s.hear change (before ++ h :: after) place =
      ((s.hear change before place).contentChange change h place).hear change after place :=
    hear_append change before (h :: after) place
  have hrest := spares_hear hvi hvx change hafter place
  rw [← hall] at hrest
  refine ⟨hrest.session.trans hvx.1, ?_, ?_, ?_, ?_⟩
  · intro i sleeper hjob
    refine (hrest.timer i sleeper hjob).trans ?_
    rw [hv]
    exact hspares.timer i sleeper hjob
  · refine hrest.marked.trans ?_
    rw [hv]
    exact hspares.marked
  · refine hrest.failures.trans ?_
    rw [hv, failuresOf_report, if_pos rfl, hspares.failures]
  · rw [← he]
    exact fun hr => hear_alone hs.attached hx hd hr place

theorem all_or_nothing (hs : s.Sound) (hw : s.wait.Tidy) (hx : s.pushState.IsOpen h x)
    (change : ContentChange) (place : Place) : s.AllOrNothing h x change place := by
  obtain ⟨before, after, he, hbefore, hafter⟩ := hs.attached.handlers hx.1 hx.2
  have hnext : s.next (.change x.channel change) place =
      s.hear change (before ++ h :: after) place :=
    congrArg (fun sessions => s.hear change sessions place) he
  constructor
  · exact x.document.becomes_or_fails change.changes
  · intro document hd
    rw [hnext, hear_append change before (h :: after) place]
    exact hear_takesIn hs hw hx hbefore hafter hd
  · intro e hd
    rw [hnext]
    exact hear_turnsDown hs hw hx he hbefore hafter hd
  · intro sessions y hy
    obtain ⟨hv, hsl, hwu⟩ := hear_keeps change sessions place hs.invariant hs.sleeping hw
    constructor
    · intro document hd
      rw [contentChange_fits hy.1 hy.2 hd place]
      exact takesIn_edited hv hsl hwu hy document place
    · intro e hd
      exact contentChange_misfits hy.1 hy.2 hd place

/-- Two insertions of which the second is for a line that the first does not make. -/
def strayChange : ContentChange :=
  ⟨[⟨.point ⟨1, 1⟩, 0, "y"⟩, ⟨.point ⟨2, 1⟩, 0, "z"⟩]⟩

/-- The first of them. -/
def straightChange : ContentChange := ⟨[⟨.point ⟨1, 1⟩, 0, "y"⟩]⟩

theorem straight_change_fits :
    (Document.standalone ['x']).Becomes straightChange.changes (.standalone ['y', 'x']) :=
  .cons ⟨0, 0, by decide, by decide, by decide, by decide⟩ (.nil _)

theorem stray_change_fails : (Document.standalone ['x']).FailsWith strayChange.changes
    (.outOfBounds ⟨2, 1⟩) :=
  ⟨_, ⟨.point ⟨2, 1⟩, 0, "z"⟩, [], .standalone ['y', 'x'], rfl, straight_change_fits,
    .start (by decide)⟩

/-- The timer is armed and a completion waits. -/
def typingRun : Run where
  syncDelay := 300
  completionDelay := 100
  input := ⟨⟨[]⟩, []⟩
  event
    | 0 => .connect 0
    | 1 => .answer 0 (.connected (.ok ()) (.ok ()))
    | 2 => .openDocument ⟨"a"⟩ (.standalone ['x']) "a"
    | 3 => .complete 1 ⟨"a"⟩ ⟨1, 2⟩
    | _ => .endStream
  whole k := by
    split <;> rfl

def typedSession : Session :=
  ⟨⟨"a"⟩, .standalone ['x'], 1, .pending 1, false, ⟨1, some 0⟩, "a", some 0⟩

end Service

end DocSync
