import DocSync.Proofs.Attachments
import DocSync.Proofs.Sleepers

/-!
What an event does about the pushes of one open session: when the next one is due, which were
called, and what the text is. An accepted edit makes a push due after the delay; a flush pushes at
once; the timer fires, and the task that it starts pushes; every other event leaves the session
alone.
-/

namespace DocSync

/-- What an event makes of the document of a session that is attached to a channel, if the session
takes the event as an edit. -/
def Document.edit? (d : Document) (h : Nat) (channel : String) : Service.Event → Option Document
  | .change name change =>
    if name = channel then (d.applyAll change.changes).toOption else none
  | .setText k text => if k = h then some (d.setVisible text) else none
  | .setContext k before after => if k = h then some (d.setContext before after) else none
  | _ => none

def Session.edit? (x : Session) (h : Nat) (e : Service.Event) : Option Document :=
  x.document.edit? h x.channel e

namespace Service

open PushState

variable {s t : Service} {v u w : PushState} {d : Deed} {e : Event} {h k i deadline task : Nat}
  {x y : Session}

/-- When the pending task of a session's timer is due. -/
def PushState.due (v : PushState) (h : Nat) : Option Nat :=
  (v.session h).bind fun x => x.timer.pending.bind fun i =>
    (v.agenda.find? i).map Sleeper.deadline

def PushState.document (v : PushState) (h : Nat) : Option Document :=
  (v.session h).map Session.document

/-- The next push of a session stays as it is, and so does its text. -/
structure PushState.Steady (v w : PushState) (h : Nat) : Prop where
  due : w.due h = v.due h
  calls : syncs h w.log = syncs h v.log
  document : w.document h = v.document h

theorem PushState.Steady.refl (v : PushState) (h : Nat) : v.Steady v h := ⟨rfl, rfl, rfl⟩

theorem PushState.Steady.trans (hv : v.Steady u h) (hu : u.Steady w h) : v.Steady w h :=
  ⟨hu.due.trans hv.due, hu.calls.trans hv.calls, hu.document.trans hv.document⟩

theorem steady_of (hx : v.session h = some x) (hy : w.session h = some y)
    (ht : y.timer = x.timer) (hd : y.document = x.document)
    (hf : ∀ i, x.timer.pending = some i → w.agenda.find? i = v.agenda.find? i)
    (hlog : syncs h w.log = syncs h v.log) : v.Steady w h := by
  refine ⟨?_, hlog, ?_⟩
  · simp only [PushState.due, hx, hy, Option.bind_some, ht]
    cases hp : x.timer.pending with
    | none => rfl
    | some i => simp only [Option.bind_some, hf i hp]
  · simp only [PushState.document, hx, hy, Option.map_some, hd]

/-- The part pushes the session, changes its text or fires its timer. -/
def Deed.Disturbs (h : Nat) : Deed → Prop
  | .edited k => k = h
  | .pushed k => k = h
  | .fired k => k = h
  | _ => False

theorem find?_cancel_other (hv : v.Timed) (hx : v.IsOpen h x) (hy : v.IsOpen k y)
    (hk : k ≠ h) (hi : x.timer.pending = some i) :
    (y.timer.cancel v.agenda).2.find? i = v.agenda.find? i := by
  rw [Timer.cancel_agenda, Timer.find?_abort, if_neg (hv.apart hy hx hk.symm hi)]

theorem find?_schedule_other {timer : Timer} (hv : v.Timed) (hx : v.IsOpen h x)
    (hi : x.timer.pending = some i) (hne : timer.pending ≠ some i) (deadline : Nat)
    (job : Nat → Debounce) :
    (timer.schedule v.agenda deadline job).2.find? i = v.agenda.find? i := by
  obtain ⟨sleeper, hf, _⟩ := hv.armed hx hi
  rw [Timer.find?_schedule, if_neg hne, hf]
  rfl

theorem steady_other (hx : v.session h = some x) (hk : k ≠ h)
    (hs : w.session = Function.update v.session k (some y))
    (hf : ∀ i, x.timer.pending = some i → w.agenda.find? i = v.agenda.find? i)
    (hlog : syncs h w.log = syncs h v.log) : v.Steady w h := by
  refine steady_of hx ?_ rfl rfl hf hlog
  rw [hs, Function.update_of_ne hk.symm]
  exact hx

theorem steady_settle {z : Session} {t : Ticket} (hx : v.session h = some x)
    (hz : v.session k = some z) (hs : w.session = Function.update v.session k (some (z.settle t)))
    (ha : w.agenda = v.agenda) (hlog : syncs h w.log = syncs h v.log) : v.Steady w h := by
  have hf : ∀ i, x.timer.pending = some i → w.agenda.find? i = v.agenda.find? i :=
    fun _ _ => ha ▸ rfl
  by_cases hk : k = h
  · subst hk
    obtain rfl := Option.some.inj (hx.symm.trans hz)
    refine steady_of hx ?_ (settle_timer x t) (settle_document x t) hf hlog
    rw [hs]
    exact Function.update_self _ _ _
  · exact steady_other hx hk hs hf hlog

theorem Part.steady (hp : Part .inside v d w) (hv : PushInvariant v) (hs : v.Sleeping)
    (hx : v.IsOpen h x) (hy : w.IsOpen h y) (hd : ¬d.Disturbs h) : v.Steady w h := by
  cases hp with
  | tasks | connect | disconnect | disown | forgo | ignore => exact ⟨rfl, rfl, rfl⟩
  | @«open» k _ _ _ _ _ hnone =>
    have hk : k ≠ h := by
      rintro rfl
      exact Option.some_ne_none _ (hx.1.symm.trans hnone)
    refine steady_other hx.1 hk rfl ?_ rfl
    intro i hi
    exact find?_schedule_other hv.timed hx hi (Option.some_ne_none _).symm _ _
  | @edit k z document deadline hz ho =>
    have hk : k ≠ h := hd
    refine steady_other hx.1 hk rfl ?_ rfl
    intro i hi
    exact find?_schedule_other hv.timed hx hi (hv.timed.apart ⟨hz, ho⟩ hx hk.symm hi) _ _
  | @flush k z task after hz ho =>
    have hk : k ≠ h := hd
    refine steady_other hx.1 hk rfl ?_ (syncs_push_other _ task _ after hk.symm)
    intro i hi
    exact find?_cancel_other hv.timed hx ⟨hz, ho⟩ hk hi
  | @stall k z hz ho =>
    have hk : k ≠ h := hd
    refine steady_other hx.1 hk rfl ?_ rfl
    intro i hi
    exact find?_cancel_other hv.timed hx ⟨hz, ho⟩ hk hi
  | @start k z task hw hz ho =>
    have hk : k ≠ h := hd
    exact steady_other hx.1 hk rfl (fun _ _ => rfl) (syncs_push_other _ task _ .nothing hk.symm)
  | @fire j sleeper z timer hj hz =>
    have hk : sleeper.job.session ≠ h := hd
    refine steady_other hx.1 hk rfl ?_ rfl
    intro i hi
    obtain ⟨other, hf, hjob⟩ := hv.timed.armed hx hi
    have hij : i ≠ j := by
      rintro rfl
      obtain rfl := Option.some.inj (hj.symm.trans hf)
      exact hk (congrArg Debounce.session hjob)
    exact (Agenda.find?_drop _ _ _).trans (if_neg hij)
  | @expire j sleeper hj hz =>
    obtain ⟨z, hz', _, hg⟩ := hs hj
    have hnone := hz z hz'.1
    simp [Timer.fire?, hg] at hnone
  | accept _ _ hz => exact steady_settle hx.1 hz rfl rfl rfl
  | refuse _ _ hz => exact steady_settle hx.1 hz rfl rfl rfl
  | @close k z hz ho =>
    have hk : k ≠ h := by
      rintro rfl
      obtain rfl := Option.some.inj ((Function.update_self k _ _).symm.trans hy.1)
      exact absurd hy.2 (by simp)
    refine steady_other hx.1 hk rfl ?_ rfl
    intro i hi
    exact find?_cancel_other hv.timed hx ⟨hz, ho⟩ hk hi

theorem Parts.steady {P : Deed → Prop} (hp : Parts .inside P v w) (hv : PushInvariant v)
    (hs : v.Sleeping) (hx : v.IsOpen h x) (hy : w.IsOpen h y) (hP : ∀ d, P d → ¬d.Disturbs h) :
    v.Steady w h := by
  induction hp generalizing y with
  | refl => exact .refl v h
  | @tail u w d hu hq hd ih =>
    obtain ⟨z, hz, he⟩ := hu.evolves hx.1
    have hzo : u.IsOpen h z := by
      rcases hq.origin_open hy with ⟨z', hz', _⟩ | ⟨_, hnone⟩
      · exact Option.some.inj (hz'.1.symm.trans hz) ▸ hz'
      · exact absurd (hz.symm.trans hnone) (Option.some_ne_none z)
    have hkeep : ∀ {v d w}, Part .inside v d w → PushInvariant v ∧ v.Sleeping →
        PushInvariant w ∧ w.Sleeping := fun hp hv => ⟨hp.invariant hv.1, hp.sleeping hv.2⟩
    obtain ⟨hui, hus⟩ := hu.keep hkeep ⟨hv, hs⟩
    exact (ih hzo).trans (hq.steady hui hus hzo hy (hP d hd))

theorem nextId_free (hv : PushInvariant v) : v.agenda.find? v.agenda.nextId = none := by
  cases hf : v.agenda.find? v.agenda.nextId with
  | none => rfl
  | some sleeper => exact absurd (hv.timed.fresh hf) (Nat.lt_irrefl _)

theorem session_arm (v : PushState) (h : Nat) (x : Session) (deadline : Nat) :
    (v.arm h x deadline).session h =
      some { x with timer := ⟨x.timer.generation + 1, some v.agenda.nextId⟩ } := by
  have hnext : (x.timer.abort v.agenda).nextId = v.agenda.nextId := Timer.nextId_abort _ _
  rw [← hnext]
  exact Function.update_self _ _ _

theorem due_arm (hfree : v.agenda.find? v.agenda.nextId = none) (x : Session) :
    (v.arm h x deadline).due h = some deadline := by
  have hfind : (v.arm h x deadline).agenda.find? v.agenda.nextId =
      some ⟨v.agenda.nextId, deadline, h, x.timer.generation + 1⟩ := by
    change (x.timer.schedule v.agenda deadline fun g => ⟨h, g⟩).2.find? _ = _
    rw [Timer.find?_schedule, hfree, if_pos rfl]
    split <;> rfl
  simp only [PushState.due, session_arm, Option.bind_some, hfind, Option.map_some]

theorem document_arm (v : PushState) (x : Session) :
    (v.arm h x deadline).document h = some x.document := by
  simp only [PushState.document, session_arm, Option.map_some]

/-- A push of a session's text comes to be due. -/
structure PushState.Armed (v w : PushState) (h deadline : Nat) (document : Document) : Prop where
  due : w.due h = some deadline
  calls : syncs h w.log = syncs h v.log
  document : w.document h = some document

theorem armed_edit (hv : PushInvariant s.pushState) (hx : s.session? h = some x)
    (document : Document) (delay : Nat) :
    s.pushState.Armed ((s.setSession h { x with document := document }).syncIn h delay).pushState h
      (s.now + delay) document := by
  rw [pushState_edit hx]
  exact ⟨due_arm (nextId_free hv) _, rfl, document_arm _ _⟩

theorem PushState.Armed.before {document : Document} (hu : v.Steady u h)
    (hw : u.Armed w h deadline document) : v.Armed w h deadline document :=
  ⟨hw.due, hw.calls.trans hu.calls, hw.document⟩

theorem PushState.Armed.after {document : Document} (hu : v.Armed u h deadline document)
    (hw : u.Steady w h) : v.Armed w h deadline document :=
  ⟨hw.due.trans hu.due, hw.calls.trans hu.calls, hw.document.trans hu.document⟩

/-- What holds of a service whose sessions can be told apart. -/
structure Sound (s : Service) : Prop where
  invariant : PushInvariant s.pushState
  sleeping : s.pushState.Sleeping
  attached : s.Attached

theorem Run.sound (r : Run) (k : Nat) (place : Nat → Place := fun _ => .inside) :
    (r.state k place).Sound :=
  ⟨r.invariant k place, r.sleeping k place, r.attached k place⟩

/-- A change is taken in by sessions in turn. -/
def hear (s : Service) (change : ContentChange) (sessions : List Nat)
    (place : Place := .inside) : Service :=
  sessions.foldl (fun s k => s.contentChange change k place) s

theorem hear_parts (change : ContentChange) (sessions : List Nat) (place : Place := .inside) :
    Parts place (fun d => ∃ k ∈ sessions, d = .edited k) s.pushState
      (s.hear change sessions place).pushState := by
  simp only [hear]
  induction sessions generalizing s with
  | nil => exact .refl _
  | cons k sessions ih =>
    have hk := (contentChange_parts (s := s) (h := k) change place).mono (Q := fun d =>
      ∃ j ∈ k :: sessions, d = .edited j) fun d hd => ⟨k, List.mem_cons_self, hd⟩
    refine hk.trans (ih.mono ?_)
    rintro d ⟨j, hj, rfl⟩
    exact ⟨j, List.mem_cons_of_mem _ hj, rfl⟩

/-- The session hears nothing of a change that others take in. -/
theorem hear_others (hv : PushInvariant s.pushState) (hs : s.pushState.Sleeping)
    (hx : s.pushState.IsOpen h x) (change : ContentChange) {sessions : List Nat}
    (hh : h ∉ sessions) :
    s.pushState.Steady (s.hear change sessions).pushState h ∧
      PushInvariant (s.hear change sessions).pushState ∧
      (s.hear change sessions).pushState.Sleeping ∧
      ∃ y, (s.hear change sessions).pushState.IsOpen h y ∧ y.document = x.document := by
  have hp := hear_parts (s := s) change sessions
  obtain ⟨y, hy, he⟩ := hp.evolves hx.1
  have hwire : (s.hear change sessions).pushState.wire = s.pushState.wire := by
    refine hp.wire ?_
    rintro d ⟨k, _, rfl⟩
    rfl
  have hyo : (s.hear change sessions).pushState.IsOpen h y :=
    ⟨hy, (eq_of_wire hwire hx.1 hy).2.trans hx.2⟩
  have hsteady := hp.steady hv hs hx hyo (by
    rintro d ⟨k, hk, rfl⟩ rfl
    exact hh hk)
  refine ⟨hsteady, hp.keep Part.invariant hv, hp.keep Part.sleeping hs, y, hyo, ?_⟩
  have hd := hsteady.document
  simp only [PushState.document, hx.1, hy, Option.map_some] at hd
  exact Option.some.inj hd

theorem outlineKept_hear (change : ContentChange) (sessions : List Nat)
    (place : Place := .inside) : s.OutlineKept (s.hear change sessions place) := by
  simp only [hear]
  induction sessions generalizing s with
  | nil => exact Or.inl rfl
  | cons k sessions ih => exact (outlineKept_contentChange change place).trans ih

theorem clock_hear (change : ContentChange) (sessions : List Nat) (place : Place := .inside) :
    (s.hear change sessions place).now = s.now ∧
      (s.hear change sessions place).syncDelay = s.syncDelay := by
  rcases outlineKept_hear (s := s) change sessions place with he | he
  · have hn := congrArg Service.now he
    have hd := congrArg Service.syncDelay he
    exact ⟨hn, hd⟩
  · have hn := congrArg Service.now he
    have hd := congrArg Service.syncDelay he
    exact ⟨hn, hd⟩

theorem hear_append (change : ContentChange) (before after : List Nat)
    (place : Place := .inside) :
    s.hear change (before ++ after) place =
      (s.hear change before place).hear change after place :=
  List.foldl_append

theorem contentChange_ok {document : Document} {change : ContentChange}
    (hx : s.session? h = some x) (ho : x.isClosed = false)
    (hd : x.document.applyAll change.changes = .ok document) (place : Place := .inside) :
    s.contentChange change h place =
      (s.setSession h { x with document := document }).edited h place := by
  simp only [contentChange, hx, ho, hd, Bool.false_eq_true, ↓reduceIte]

theorem contentChange_error {error : EditError} {change : ContentChange}
    (hx : s.session? h = some x) (ho : x.isClosed = false)
    (hd : x.document.applyAll change.changes = .error error) :
    (s.contentChange change h).pushState = s.pushState := by
  simp only [contentChange, hx, ho, hd, Bool.false_eq_true, ↓reduceIte]
  exact pushState_note rfl

/-- A session takes a change of its channel in as an edit, or not at all. -/
theorem fireChannel_own (hs : s.Sound) (hx : s.pushState.IsOpen h x) (change : ContentChange) :
    (∃ document, x.document.applyAll change.changes = .ok document ∧
        s.pushState.Armed (s.fireChannel x.channel change).pushState h (s.now + s.syncDelay)
          document) ∨
      (∃ error, x.document.applyAll change.changes = .error error) ∧
        s.pushState.Steady (s.fireChannel x.channel change).pushState h := by
  obtain ⟨before, after, he, hbefore, hafter⟩ := hs.attached.handlers hx.1 hx.2
  have hfire : s.fireChannel x.channel change =
      ((s.hear change before).contentChange change h).hear change after := by
    change s.hear change _ = _
    rw [he, hear_append]
    rfl
  rw [hfire]
  obtain ⟨hsteady, hinv, hsleep, y, hy, hdoc⟩ :=
    hear_others hs.invariant hs.sleeping hx change hbefore
  obtain ⟨hnow, hdelay⟩ := clock_hear (s := s) change before
  generalize s.hear change before = u at hsteady hinv hsleep hy hnow hdelay ⊢
  have hsession : u.session? h = some y := hy.1
  cases hd : x.document.applyAll change.changes with
  | error error =>
    refine Or.inr ⟨⟨error, rfl⟩, ?_⟩
    have hsame := contentChange_error hsession hy.2 (hdoc.symm ▸ hd)
    generalize u.contentChange change h = t at hsame ⊢
    rw [← hsame] at hinv hsleep hy hsteady
    exact hsteady.trans (hear_others hinv hsleep hy change hafter).1
  | ok document =>
    refine Or.inl ⟨document, rfl, ?_⟩
    rw [contentChange_ok hsession hy.2 (hdoc.symm ▸ hd)]
    let c : Service := { u with wait := u.wait.cancel }
    have harmed : u.pushState.Armed
        ((u.setSession h { y with document := document }).edited h).pushState h
        (u.now + u.syncDelay) document := armed_edit (s := c) hinv hsession document u.syncDelay
    have hpart := edited_part hsession hy.2 document
    generalize (u.setSession h { y with document := document }).edited h = t at harmed hpart ⊢
    obtain ⟨z, hz, hyz⟩ := hpart.evolves hy.1
    have hzo : t.pushState.IsOpen h z :=
      ⟨hz, (eq_of_wire (hpart.wire rfl) hy.1 hz).2.trans hy.2⟩
    have hrest := hear_others (hpart.invariant hinv) (hpart.sleeping hsleep) hzo change hafter
    rw [← hnow, ← hdelay]
    exact (harmed.before hsteady).after hrest.1

theorem setText_open (hx : s.session? h = some x) (ho : x.isClosed = false) (text : List Char) :
    s.setText h text =
      (s.setSession h { x with document := x.document.setVisible text }).edited h := by
  cases x with
  | mk => simp_all only [setText, Bool.false_eq_true, ↓reduceIte]

theorem setContext_open (hx : s.session? h = some x) (ho : x.isClosed = false)
    (before after : List Char) :
    s.setContext h before after =
      (s.setSession h { x with document := x.document.setContext before after }).syncIn h
        s.syncDelay := by
  cases x with
  | mk => simp_all only [setContext, Bool.false_eq_true, ↓reduceIte]

/-- An edit makes a push due after the delay. -/
theorem next_armed {document : Document} (hs : s.Sound) (hx : s.pushState.IsOpen h x)
    (hd : x.edit? h e = some document) :
    s.pushState.Armed (s.next e).pushState h (s.now + s.syncDelay) document := by
  have hsession : s.session? h = some x := hx.1
  cases e with
  | change name change =>
    simp only [Session.edit?, Document.edit?] at hd
    split at hd
    · next he =>
      subst he
      rcases fireChannel_own hs hx change with ⟨document', hok, harmed⟩ | ⟨⟨error, herr⟩, _⟩
      · rw [hok] at hd
        obtain rfl := Option.some.inj hd
        exact harmed
      · rw [herr] at hd
        cases hd
    · cases hd
  | setText k text =>
    simp only [Session.edit?, Document.edit?] at hd
    split at hd
    · next he =>
      subst he
      obtain rfl := Option.some.inj hd
      rw [next, setText_open hsession hx.2]
      exact armed_edit (s := { s with wait := s.wait.cancel }) hs.invariant hsession _ s.syncDelay
    · cases hd
  | setContext k before after =>
    simp only [Session.edit?, Document.edit?] at hd
    split at hd
    · next he =>
      subst he
      obtain rfl := Option.some.inj hd
      rw [next, setContext_open hsession hx.2]
      exact armed_edit hs.invariant hsession _ s.syncDelay
    · cases hd
  | _ => cases hd

theorem Parts.unopened {P : Deed → Prop} (hp : Parts .inside P v w) (hP : ∀ d, P d → d ≠ .opened h)
    (hnone : v.session h = none) : w.session h = none := by
  induction hp with
  | refl => exact hnone
  | @tail u w d _ hq hd ih =>
    cases hw : w.session h with
    | none => rfl
    | some z =>
      rcases hq.origin hw with ⟨y, hy, _⟩ | ⟨ho, _⟩
      · exact absurd (hy.symm.trans ih) (Option.some_ne_none y)
      · exact absurd ho (hP _ hd)

theorem Event.Admits.opened (ha : e.Admits (.opened h)) :
    ∃ id document channel, e = .openDocument id document channel := by
  cases e with
  | openDocument id document channel => exact ⟨id, document, channel, rfl⟩
  | _ => exact ha.elim

theorem opens_document (hn : s.pushState.Numbered) (he : e.isWhole = true)
    (hnone : s.session? h = none) (hx : (s.next e).session? h = some x) :
    ∃ id document channel, e = .openDocument id document channel := by
  by_cases ho : e.Admits (.opened h)
  · exact ho.opened
  · have hp := (next_parts hn he).parts trivial
    have hnext := hp.unopened (fun d hd hopened => ho (hopened ▸ hd)) hnone
    exact absurd (hx.symm.trans hnext) (Option.some_ne_none x)

theorem next_opened (hs : s.Sound) (he : e.isWhole = true) (hnone : s.session? h = none)
    (hx : (s.next e).session? h = some x) :
    x.isClosed = false ∧ ∃ id document channel, e = .openDocument id document channel ∧
      s.pushState.Armed (s.next e).pushState h s.now document ∧ x.channel = channel := by
  obtain ⟨id, document, channel, rfl⟩ := opens_document hs.invariant.numbered he hnone hx
  rcases openDocument_cases s id document channel with hsame | ⟨hlength, _, _, _, hp⟩
  · simp only [next, hsame] at hx
    exact absurd (hx.symm.trans hnone) (Option.some_ne_none x)
  · let v := s.pushState.setOwner (Function.update s.pushState.owner id (some s.sessions.length))
    have hnext : (s.next (.openDocument id document channel)).pushState = _ := hp
    have hx' : (s.next (.openDocument id document channel)).pushState.session h = some x := hx
    rw [hnext] at hx' ⊢
    have hlen : h = s.sessions.length := by
      by_contra hne
      have hold := (Function.update_of_ne hne _ _).symm.trans hx'
      exact Option.some_ne_none _ (hold.symm.trans hnone)
    subst hlen
    obtain rfl := Option.some.inj ((session_arm v _ _ _).symm.trans hx')
    have hfree : v.agenda.find? v.agenda.nextId = none :=
      nextId_free (v := s.pushState) hs.invariant
    exact ⟨rfl, id, document, channel, rfl, ⟨due_arm hfree _, rfl, document_arm v _⟩, rfl⟩

/-- The text of a session is pushed; its next push is due as told. -/
structure PushState.Pushed (v w : PushState) (h : Nat) (x : Session) (due : Option Nat) : Prop where
  due : w.due h = due
  calls : ∃ n, syncs h w.log = (n, x.document.fullText) :: syncs h v.log
  document : w.document h = some x.document

theorem due_of_pending (hx : v.session h = some x) (ht : x.timer.pending = none) :
    v.due h = none := by
  simp only [PushState.due, hx, Option.bind_some, ht, Option.bind_none]

theorem send_timer (x : Session) : x.send.timer = x.timer := by
  simp only [Session.send]
  split <;> rfl

theorem pushed_flush (hs : PushInvariant s.pushState) (hx : s.pushState.IsOpen h x)
    (after : After) : s.pushState.Pushed (s.flush task h after).pushState h x none := by
  rw [pushState_flush_open hx.1 hx.2 (hs.owned.connected hx) after]
  have hself := Function.update_self h
    (some (Session.send { x.bump with timer := (x.timer.cancel s.agenda).1 })) s.pushState.session
  refine ⟨?_, ⟨x.version + 1, ?_⟩, ?_⟩
  · refine due_of_pending hself ?_
    rw [send_timer]
    exact Timer.cancel_pending _ _
  · simp [PushState.push, PushState.note, syncs, Notice.sync?, PushState.setWork,
      PushState.setSession, PushState.markBusy, PushState.dropTimer, Session.bump]
  · refine (congrArg (Option.map Session.document) hself).trans ?_
    rw [Option.map_some, send_document]
    rfl

theorem pushed_start (hs : PushInvariant s.pushState) (hx : s.pushState.IsOpen h x) :
    s.pushState.Pushed (s.push task h .nothing).pushState h x (s.pushState.due h) := by
  rw [pushState_push hx.1 hx.2 (hs.owned.connected hx) .nothing]
  have hself := Function.update_self h (some x.send) s.pushState.session
  refine ⟨?_, ⟨x.version, ?_⟩, ?_⟩
  · have hsession : (s.pushState.push task h x .nothing).session h = some x.send := hself
    simp only [PushState.due, hx.1, hsession, Option.bind_some, send_timer]
    rfl
  · simp [PushState.push, PushState.note, syncs, Notice.sync?, PushState.setWork,
      PushState.setSession]
  · refine (congrArg (Option.map Session.document) hself).trans ?_
    rw [Option.map_some, send_document]

/-- A timer fires: its push is no longer due, but started. -/
structure PushState.Fired (v w : PushState) (h deadline : Nat) : Prop where
  before : v.due h = some deadline
  due : w.due h = none
  calls : syncs h w.log = syncs h v.log
  document : w.document h = v.document h

theorem fire_eq {sleeper : Sleeper Debounce} (hs : s.pushState.Sleeping)
    (hf : s.agenda.find? i = some sleeper) :
    ∃ x, s.pushState.IsOpen sleeper.job.session x ∧ x.timer.pending = some i ∧
      x.timer.fire? sleeper.job.generation = some { x.timer with pending := none } ∧
      s.fire sleeper = ({ s with agenda := s.agenda.drop sleeper.id }.setSession
        sleeper.job.session { x with timer := { x.timer with pending := none } }).spawn
          (.start sleeper.job.session) := by
  obtain ⟨x, hx, hp, hg⟩ := hs hf
  have hfire : x.timer.fire? sleeper.job.generation = some { x.timer with pending := none } :=
    if_pos hg.symm
  refine ⟨x, hx, hp, hfire, ?_⟩
  have hsession : ({ s with agenda := s.agenda.drop sleeper.id } : Service).session?
      sleeper.job.session = some x := hx.1
  simp only [fire]
  rw [hsession]
  simp only [hfire]

theorem fired_fire {sleeper : Sleeper Debounce} (hs : s.pushState.Sleeping)
    (hf : s.agenda.find? i = some sleeper) :
    s.pushState.Fired (s.fire sleeper).pushState sleeper.job.session sleeper.deadline := by
  obtain ⟨x, hx, hp, _, hfire⟩ := fire_eq hs hf
  have hf' : s.pushState.agenda.find? i = some sleeper := hf
  let t : Service := { s with agenda := s.agenda.drop sleeper.id }
  have hpush : (s.fire sleeper).pushState = (t.pushState.setSession sleeper.job.session
      { x with timer := { x.timer with pending := none } }).spawn
        (.start sleeper.job.session) := by
    rw [hfire, pushState_spawn, pushState_setSession (s := t) hx.1]
  rw [hpush]
  have hself := Function.update_self sleeper.job.session
    (some { x with timer := { x.timer with pending := none } }) s.pushState.session
  refine ⟨?_, due_of_pending hself rfl, rfl, ?_⟩
  · simp only [PushState.due, hx.1, Option.bind_some, hp, hf', Option.map_some]
  · refine (congrArg (Option.map Session.document) hself).trans ?_
    simp only [PushState.document, hx.1, Option.map_some]

/-- The event pushes a session at once, if it is open. -/
inductive Flushes (s : Service) (h : Nat) : Event → Prop where
  | call (request : Nat) : Flushes s h (.flush request h)
  /-- The debounce of a completion elapses. -/
  | elapse {task request g d : Nat} {id : DocumentId} {p : EditorPosition}
      (hw : s.work task = some (.debounce request h id p g d))
      (hr : s.wait.rejections.lookup g = none) (hd : d ≤ s.now) : Flushes s h (.run task)

theorem next_flushed (hs : PushInvariant s.pushState) (hx : s.pushState.IsOpen h x)
    (hf : s.Flushes h e) : s.pushState.Pushed (s.next e).pushState h x none := by
  cases hf with
  | call request =>
    have hfresh : PushInvariant s.fresh.1.pushState :=
      (fresh_part s.pushState : Part .inside _ _ _).invariant hs
    have hpushed : s.fresh.1.pushState.Pushed
        (s.fresh.1.flush s.nextTask h (.flush request)).pushState h x none :=
      pushed_flush (s := s.fresh.1) hfresh hx (.flush request)
    exact ⟨hpushed.due, hpushed.calls, hpushed.document⟩
  | @elapse task request g d id p hw hr hd =>
    rw [next_elapse hw hr hd]
    exact pushed_flush (s := { s with wait := s.wait.elapse g }) hs hx _

/-- What an event that is no edit and no flush of an open session can do about it. -/
inductive Rests (s : Service) (h : Nat) (x : Session) : Event → Service → Prop where
  | steady {e : Event} {t : Service} (hs : s.pushState.Steady t.pushState h) : Rests s h x e t
  | fired {i : Nat} {sleeper : Sleeper Debounce} {t : Service}
      (hf : s.agenda.find? i = some sleeper) (hh : sleeper.job.session = h)
      (hd : sleeper.deadline ≤ s.now)
      (hs : s.pushState.Fired t.pushState h sleeper.deadline) : Rests s h x (.fire i) t
  | started {task : Nat} {t : Service} (hw : s.work task = some (.start h))
      (hs : s.pushState.Pushed t.pushState h x (s.pushState.due h)) : Rests s h x (.run task) t

theorem rests_run {v : Work} (hs : s.Sound) (hx : s.pushState.IsOpen h x)
    (hw : s.work task = some v) (hy : (s.run task v).pushState.IsOpen h y)
    (hf : ¬s.Flushes h (.run task)) : Rests s h x (.run task) (s.run task v) := by
  by_cases ht : v.target? = some h
  · cases v with
    | start k =>
      obtain rfl : k = h := Option.some.inj ht
      exact .started hw (pushed_start hs.invariant hx)
    | debounce request k id p g d =>
      obtain rfl : k = h := Option.some.inj ht
      change Rests s k x (.run task) (s.runDebounce task request k id p g d)
      rcases runDebounce_cases s task request k id p g d with
        ⟨_, _, he⟩ | ⟨_, _, he⟩ | ⟨hr, hd, _⟩
      · rw [he]
        exact .steady (.refl _ _)
      · rw [he]
        refine .steady ?_
        rw [pushState_finish]
        exact ⟨rfl, rfl, rfl⟩
      · exact absurd (.elapse hw hr hd) hf
    | _ => cases ht
  · refine .steady ?_
    have hp : Parts .inside _ _ _ := (run_parts hs.invariant.numbered hw).parts (Or.inl rfl)
    refine hp.steady hs.invariant hs.sleeping hx hy ?_
    rintro d (rfl | ⟨k, hk, rfl | rfl⟩) hd
    · exact hd
    · obtain rfl : k = h := hd
      exact ht hk
    · obtain rfl : k = h := hd
      exact ht hk

theorem rests_change (hs : s.Sound) (hx : s.pushState.IsOpen h x) (name : String)
    (change : ContentChange) (hd : x.edit? h (.change name change) = none) :
    s.pushState.Steady (s.fireChannel name change).pushState h := by
  by_cases hn : name = x.channel
  · subst hn
    rcases fireChannel_own hs hx change with ⟨document, hok, _⟩ | ⟨_, hsteady⟩
    · simp [Session.edit?, Document.edit?, hok, Except.toOption] at hd
    · exact hsteady
  · exact (hear_others hs.invariant hs.sleeping hx change (hs.attached.unheard hx.1 hn)).1

/-- The event can be about the session. -/
def Event.IsOf (h : Nat) : Event → Prop
  | .setText k _ => k = h
  | .setContext k _ _ => k = h
  | .flush _ k => k = h
  | .change _ _ => True
  | .fire _ => True
  | .run _ => True
  | _ => False

theorem Event.Admits.undisturbed (ha : e.Admits d) (he : ¬e.IsOf h) : ¬d.Disturbs h := by
  intro hd
  cases d with
  | edited k =>
    obtain rfl : k = h := hd
    cases e <;> first | exact ha.elim | exact he trivial | exact he (Eq.symm ha)
  | pushed k =>
    obtain rfl : k = h := hd
    cases e <;> first | exact ha.elim | exact he trivial | exact he (Eq.symm ha)
  | fired k => cases e <;> first | exact ha.elim | exact he trivial
  | _ => exact hd

theorem next_rests (hs : s.Sound) (he : e.isWhole = true) (hx : s.pushState.IsOpen h x)
    (hy : (s.next e).pushState.IsOpen h y) (hd : x.edit? h e = none) (hf : ¬s.Flushes h e) :
    Rests s h x e (s.next e) := by
  by_cases hof : e.IsOf h
  case neg =>
    have hp := (next_parts hs.invariant.numbered he).parts trivial
    exact .steady (hp.steady hs.invariant hs.sleeping hx hy fun d ha => ha.undisturbed hof)
  cases e with
  | setText k text =>
    obtain rfl : k = h := hof
    simp [Session.edit?, Document.edit?] at hd
  | setContext k before after =>
    obtain rfl : k = h := hof
    simp [Session.edit?, Document.edit?] at hd
  | flush request k =>
    obtain rfl : k = h := hof
    exact absurd (.call request) hf
  | change name change => exact .steady (rests_change hs hx name change hd)
  | fire i =>
    cases hfind : s.agenda.find? i with
    | none =>
      have hnext : s.next (.fire i) = s := by simp only [next, hfind]
      rw [hnext]
      exact .steady (.refl _ _)
    | some sleeper =>
      by_cases hdue : sleeper.deadline ≤ s.now
      case neg =>
        have hnext : s.next (.fire i) = s := by simp only [next, hfind, if_neg hdue]
        rw [hnext]
        exact .steady (.refl _ _)
      rw [next_fire hfind hdue] at hy ⊢
      by_cases hk : sleeper.job.session = h
      · exact .fired hfind hk hdue (hk ▸ fired_fire hs.sleeping hfind)
      · refine .steady ((fire_parts hfind).steady hs.invariant hs.sleeping hx hy ?_)
        rintro d (rfl | rfl) hd
        · exact hd
        · exact hk hd
  | run task =>
    cases hw : s.work task with
    | none =>
      have hw' : s.tasks.lookup task = none := hw
      have hnext : s.next (.run task) = s := by simp only [next, hw']
      rw [hnext]
      exact .steady (.refl _ _)
    | some v =>
      rw [next_run hw] at hy ⊢
      exact rests_run hs hx hw hy hf
  | _ => exact hof.elim

end Service

end DocSync
