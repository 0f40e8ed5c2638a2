import DocSync.Proofs.Outline
import DocSync.Proofs.PushParts

/-! Every event that opens documents in one go is a sequence of parts. -/

namespace DocSync.Service

open PushState

variable {place : Place} {s : Service} {h task : Nat} {x : Session}

theorem pushState_note_push {n : Notice} (hn : n.isPush = true) :
    (s.note n).pushState = s.pushState.note n := by
  simp [pushState, Service.note, PushState.note, hn]

theorem pushState_note {n : Notice} (hn : n.isPush = false) :
    (s.note n).pushState = s.pushState := by
  simp [pushState, Service.note, hn]

theorem pushState_setSession (hx : s.session? h = some x) (y : Session) :
    (s.setSession h y).pushState = s.pushState.setSession h y := by
  have hlt : h < s.sessions.length := by
    obtain ⟨hlt, _⟩ := List.getElem?_eq_some_iff.mp hx
    exact hlt
  have hs : (fun k => (s.setSession h y).sessions[k]?) =
      Function.update (fun k => s.sessions[k]?) h (some y) := by
    funext k
    by_cases hk : k = h
    · subst k
      simp [Service.setSession, hlt]
    · simp [Service.setSession, hk, Ne.symm hk]
  simp only [pushState, PushState.setSession, hs]
  rfl

theorem pushState_hold (w : Work) :
    (s.hold task w).pushState = s.pushState.setWork task (some w) := by
  have hw : (fun k => (s.hold task w).tasks.lookup k) =
      Function.update (fun k => s.tasks.lookup k) task (some w) := by
    funext k
    simp [hold, Keyed.lookup_put, Function.update_apply]
  simp only [pushState, setWork, hw]
  rfl

theorem pushState_drop : (s.drop task).pushState = s.pushState.setWork task none := by
  have hw : (fun k => (s.drop task).tasks.lookup k) =
      Function.update (fun k => s.tasks.lookup k) task none := by
    funext k
    simp [drop, Keyed.lookup_remove, Function.update_apply]
  simp only [pushState, setWork, hw]
  rfl

theorem pushState_spawn (w : Work) : (s.spawn w).pushState = s.pushState.spawn w := by
  have hw : (fun k => (s.spawn w).tasks.lookup k) =
      fun k => (s.tasks.lookup k).or (if k = s.nextTask then some w else none) := by
    funext k
    exact Keyed.lookup_concat _ _ _ _
  simp only [pushState, PushState.spawn, hw]
  rfl

theorem pushState_markBusy (id : DocumentId) :
    (s.markBusy id).pushState = s.pushState.markBusy id := by
  simp only [Service.markBusy, PushState.markBusy]
  cases hb : s.running.isBusy id <;> simp [RunningSet.markBusy, hb, pushState, Service.note,
    Notice.isPush]

theorem pushState_markIdle (id : DocumentId) :
    (s.markIdle id).pushState = s.pushState.markIdle id := by
  simp only [Service.markIdle, PushState.markIdle]
  cases hb : s.running.isBusy id <;> simp [RunningSet.markIdle, hb, pushState, Service.note,
    Notice.isPush]

theorem pushState_finish (request : Nat) (o : Outcome) :
    (s.finish task request o).pushState = s.pushState.setWork task none := by
  rw [finish, pushState_note rfl, pushState_drop]

theorem pushState_ask (w : Work) {c : Call} (hc : (Notice.called task c).isPush = false) :
    (s.ask task w c).pushState = s.pushState.setWork task (some w) := by
  rw [ask, pushState_note hc, pushState_hold]

theorem pushState_bump (hx : s.session? h = some x) :
    (s.bump h).pushState = (s.pushState.setSession h x.bump).markBusy x.id := by
  simp only [bump, hx, pushState_markBusy, pushState_setSession hx]

theorem pushState_arm (hx : s.session? h = some x) (delay : Nat)
    (place : Place := .inside) :
    (s.arm h delay place).pushState = s.pushState.arm h x (s.now + delay) place := by
  let agenda := (x.timer.schedule s.agenda (s.now + delay) (fun g => ⟨h, g⟩) place).2
  have harm := pushState_setSession (s := { s with agenda := agenda }) hx
    { x with timer := (x.timer.schedule s.agenda (s.now + delay) (fun g => ⟨h, g⟩) place).1 }
  simp only [Service.arm, hx]
  cases place with
  | inside => exact harm
  | outside => exact (pushState_note rfl).trans harm

theorem pushState_disarm (hx : s.session? h = some x) :
    (s.disarm h).pushState = (s.pushState.dropTimer x).setSession h
      { x with timer := (x.timer.cancel s.agenda).1 } := by
  simp only [Service.disarm, hx]
  let agenda := (x.timer.cancel s.agenda).2
  exact pushState_setSession (s := { s with agenda := agenda }) hx _

theorem session?_setSession (hx : s.session? h = some x) (y : Session) :
    (s.setSession h y).session? h = some y := by
  change (s.setSession h y).pushState.session h = some y
  rw [pushState_setSession hx]
  exact Function.update_self h _ _

theorem session?_bump (hx : s.session? h = some x) : (s.bump h).session? h = some x.bump := by
  change (s.bump h).pushState.session h = some x.bump
  rw [pushState_bump hx]
  exact Function.update_self h _ _

theorem session?_disarm (hx : s.session? h = some x) :
    (s.disarm h).session? h = some { x with timer := (x.timer.cancel s.agenda).1 } := by
  change (s.disarm h).pushState.session h = _
  rw [pushState_disarm hx]
  exact Function.update_self h _ _

theorem now_bump : (s.bump h).now = s.now := by
  simp only [bump]
  split
  · rfl
  · simp only [Service.markBusy]
    split <;> rfl

theorem pushState_syncIn (hx : s.session? h = some x) (delay : Nat)
    (place : Place := .inside) :
    (s.syncIn h delay place).pushState =
      (s.pushState.arm h x.bump (s.now + delay) place).markBusy x.id := by
  rw [syncIn, pushState_arm (session?_bump hx) _ place, pushState_bump hx, now_bump]
  simp only [PushState.arm, PushState.markBusy, PushState.setSession, Function.update_idem]

theorem pushState_edit (hx : s.session? h = some x) (d : Document) (delay : Nat)
    (place : Place := .inside) :
    ((s.setSession h { x with document := d }).syncIn h delay place).pushState =
      (s.pushState.arm h { x.bump with document := d } (s.now + delay) place).markBusy x.id := by
  rw [pushState_syncIn (session?_setSession hx _) _ place, pushState_setSession hx]
  simp only [PushState.arm, PushState.markBusy, PushState.setSession, Function.update_idem]
  rfl

theorem edit_part (hx : s.session? h = some x) (ho : x.isClosed = false) (d : Document)
    (delay : Nat) (place : Place := .inside) :
    Part place s.pushState (.edited h)
      ((s.setSession h { x with document := d }).syncIn h delay place).pushState := by
  rw [pushState_edit hx _ _ place]
  exact .edit hx ho

theorem edited_part (hx : s.session? h = some x) (ho : x.isClosed = false) (d : Document)
    (place : Place := .inside) :
    Part place s.pushState (.edited h)
      ((s.setSession h { x with document := d }).edited h place).pushState :=
  edit_part (s := { s with wait := s.wait.cancel }) hx ho d s.syncDelay place

theorem setText_parts (text : List Char) (place : Place := .inside) :
    Parts place (fun d => d = .edited h) s.pushState (s.setText h text place).pushState := by
  simp only [setText]
  split
  · exact .refl _
  · split
    · exact .refl _
    · next hx ho => exact .single (edited_part hx (by simpa using ho) _ place) rfl

theorem setContext_parts (before after : List Char) (place : Place := .inside) :
    Parts place (fun d => d = .edited h) s.pushState
      (s.setContext h before after place).pushState := by
  simp only [setContext]
  split
  · exact .refl _
  · split
    · exact .refl _
    · next hx ho => exact .single (edit_part hx (by simpa using ho) _ _ place) rfl

theorem contentChange_parts (change : ContentChange) (place : Place := .inside) :
    Parts place (fun d => d = .edited h) s.pushState
      (s.contentChange change h place).pushState := by
  simp only [contentChange]
  split
  · exact .refl _
  · split
    · exact .refl _
    · split
      · rw [report, pushState_note rfl]
        exact .refl _
      · next hx ho _ _ _ => exact .single (edited_part hx (by simpa using ho) _ place) rfl

theorem fireChannel_parts (name : String) (change : ContentChange)
    (place : Place := .inside) :
    Parts place (fun d => ∃ k, d = .edited k) s.pushState
      (s.fireChannel name change place).pushState := by
  simp only [fireChannel]
  generalize (s.channel name).handlers.map Prod.snd = hs
  induction hs generalizing s with
  | nil => exact .refl _
  | cons k hs ih => exact ((contentChange_parts change place).mono fun d hd => ⟨k, hd⟩).trans ih

theorem pushState_unsubscribe (hx : s.session? h = some x) :
    (s.unsubscribe h).pushState = s.pushState.setSession h { x with subscription := none } := by
  simp only [unsubscribe]
  rw [hx]
  cases hs : x.subscription with
  | none =>
    have he : { x with subscription := none } = x := by rw [← hs]
    have hv : Function.update s.pushState.session h (some x) = s.pushState.session := by
      rw [← hx]
      exact Function.update_eq_self _ _
    simp only [hs, he, PushState.setSession, hv]
  | some id =>
    simp only [hs]
    let channels := Keyed.put x.channel ((s.channel x.channel).detach id) s.channels
    exact pushState_setSession (s := { s with channels := channels }) hx _

theorem session?_unsubscribe (hx : s.session? h = some x) :
    (s.unsubscribe h).session? h = some { x with subscription := none } := by
  change (s.unsubscribe h).pushState.session h = _
  rw [pushState_unsubscribe hx]
  exact Function.update_self h _ _

theorem pushState_closeSession (hx : s.session? h = some x) (ho : x.isClosed = false) :
    (s.closeSession h).pushState = s.pushState.close h x := by
  have hu := session?_unsubscribe (session?_setSession hx { x with isClosed := true })
  have hd := session?_disarm hu
  have ha : ((s.setSession h { x with isClosed := true }).unsubscribe h).agenda = s.agenda :=
    congrArg PushState.agenda (pushState_unsubscribe (session?_setSession hx _))
  rw [ha] at hd
  simp only [closeSession]
  simp only [hx, ho, hd, Bool.false_eq_true, ↓reduceIte]
  rw [pushState_markIdle, pushState_setSession hd, pushState_disarm hu,
    pushState_unsubscribe (session?_setSession hx _), pushState_setSession hx, ha]
  simp only [PushState.close, dropTimer, PushState.setSession, Function.update_idem]
  rfl

theorem closeSession_cases (s : Service) (h : Nat) :
    s.closeSession h = s ∧ (∀ x, s.session? h = some x → x.isClosed = true) ∨
      ∃ x, s.session? h = some x ∧ x.isClosed = false ∧
        (s.closeSession h).pushState = s.pushState.close h x := by
  cases hx : s.session? h with
  | none => exact Or.inl ⟨by simp [closeSession, hx], by simp⟩
  | some x =>
    cases ho : x.isClosed with
    | true => exact Or.inl ⟨by simp [closeSession, hx, ho], by simp [ho]⟩
    | false => exact Or.inr ⟨x, rfl, ho, pushState_closeSession hx ho⟩

theorem closeSession_parts :
    Parts place (fun d => d = .closed h) s.pushState (s.closeSession h).pushState := by
  rcases closeSession_cases s h with ⟨he, _⟩ | ⟨x, hx, ho, he⟩
  · rw [he]
    exact .refl _
  · rw [he]
    exact .single (.close hx ho) rfl

/-- Ending sessions does not depend on who owns the documents. -/
theorem retireEach_parts (documents : List (DocumentId × Nat)) (owner : DocumentId → Option Nat) :
    ∃ u, Parts place (fun d => ∃ k, d = .closed k) (s.pushState.setOwner owner) u ∧
      (s.retireEach documents).pushState = u.setOwner s.pushState.owner ∧ u.owner = owner ∧
      (∀ k y, u.session k = some y → s.session? k = some y ∨ y.isClosed = true) ∧
      ∀ e ∈ documents, ∀ y, u.session e.2 = some y → y.isClosed = true := by
  induction documents generalizing s with
  | nil => exact ⟨_, .refl _, rfl, rfl, fun k y hy => Or.inl hy, by simp⟩
  | cons e documents ih =>
    rcases e with ⟨document, h⟩
    obtain ⟨u, hu, hs, ho, hk, hd⟩ := ih (s := s.retire document h)
    have hr : (s.retire document h).pushState = (s.closeSession h).pushState := rfl
    have hsession : (s.retire document h).session? = (s.closeSession h).pushState.session := rfl
    rw [hr] at hu hs
    rw [hsession] at hk
    rcases closeSession_cases s h with ⟨he, hc⟩ | ⟨x, hx, hopen, he⟩
    · rw [he] at hu hs hk
      refine ⟨u, hu, hs, ho, hk, ?_⟩
      intro e' he' y hy
      rcases List.mem_cons.mp he' with rfl | he'
      · exact (hk h y hy).elim (hc y) id
      · exact hd e' he' y hy
    · rw [he] at hu hs hk
      have hclosed : ∀ k y, u.session k = some y → s.session? k = some y ∧ k ≠ h ∨
          y.isClosed = true := by
        intro k y hy
        rcases hk k y hy with hy | hy
        · by_cases hkh : k = h
          · subst k
            obtain rfl := Option.some.inj ((Function.update_self h _ _).symm.trans hy)
            exact Or.inr rfl
          · exact Or.inl ⟨(Function.update_of_ne hkh _ _).symm.trans hy, hkh⟩
        · exact Or.inr hy
      refine ⟨u, .trans (.single (.close hx hopen) ⟨h, rfl⟩) hu, hs, ho, ?_, ?_⟩
      · intro k y hy
        exact (hclosed k y hy).imp And.left id
      · intro e' he' y hy
        rcases List.mem_cons.mp he' with rfl | he'
        · exact (hclosed h y hy).elim (fun hn => absurd rfl hn.2) id
        · exact hd e' he' y hy

/-- An event that ends sessions, or does nothing about pushes. -/
def EndsOnly (d : Deed) : Prop := d = .aside ∨ ∃ k, d = .closed k

theorem closeDocument_parts (id : DocumentId) :
    Parts place EndsOnly s.pushState (s.closeDocument id).1.pushState := by
  simp only [closeDocument]
  split
  · exact .refl _
  · next h ho =>
    let t : Service := { s with registry := Keyed.remove id s.registry }
    obtain ⟨u, hu, hs, howner, _, hd⟩ := retireEach_parts (s := t) [(id, h)] s.pushState.owner
    have hu : Parts place EndsOnly s.pushState u := hu.mono fun d hd => Or.inr hd
    have hs : (t.retire id h).pushState = u.setOwner t.pushState.owner := hs
    refine .tail hu (hs ▸ .disown ?_) (Or.inl rfl)
    intro id'
    rw [howner]
    by_cases hid : id' = id
    · subst id'
      refine Or.inr ⟨?_, ?_⟩
      · exact (Keyed.lookup_remove id s.registry id).trans (if_pos rfl)
      · intro k x hk hx
        obtain rfl : h = k := Option.some.inj (ho.symm.trans hk)
        exact hd (id, h) (by simp) x hx
    · exact Or.inl ((Keyed.lookup_remove id s.registry id').trans (if_neg hid))

theorem isQuiet_none : IsQuiet none := by simp [IsQuiet]

theorem isQuiet_some {w : Work} (hw : w.isPush = false) : IsQuiet (some w) := by
  rintro v hv
  obtain rfl := Option.some.inj hv
  exact hw

/-- Tasks have smaller numbers than the next one. -/
def PushState.Numbered (v : PushState) : Prop := ∀ k, v.nextTask ≤ k → v.work k = none

theorem setWork_part {v : PushState} {task : Nat} {w : Option Work} (ht : task < v.nextTask)
    (hv : IsQuiet (v.work task)) (hw : IsQuiet w) : Part place v .aside (v.setWork task w) := by
  refine .tasks (Nat.le_refl _) ?_
  intro k
  by_cases hk : k = task
  · subst k
    exact Or.inr ⟨ht, hv, by simpa using hw⟩
  · exact Or.inl (Function.update_of_ne hk _ _)

theorem spawn_part {v : PushState} {w : Work} (hn : v.Numbered) (hw : w.isPush = false) :
    Part place v .aside (v.spawn w) := by
  refine .tasks (Nat.le_succ _) ?_
  intro k
  by_cases hk : k = v.nextTask
  · subst k
    have hnone := hn v.nextTask (Nat.le_refl _)
    refine Or.inr ⟨Nat.lt_succ_self _, hnone ▸ isQuiet_none, ?_⟩
    simpa [hnone] using isQuiet_some hw
  · simp [hk]

theorem fresh_part (v : PushState) : Part place v .aside { v with nextTask := v.nextTask + 1 } :=
  .tasks (Nat.le_succ _) fun _ => Or.inl rfl

theorem afterPush_quiet (s : Service) (task : Nat) (result : Except Failure Unit) (after : After) :
    ∃ w, IsQuiet w ∧ (s.afterPush task result after).pushState = s.pushState.setWork task w := by
  simp only [afterPush]
  split
  · exact ⟨none, isQuiet_none, pushState_drop⟩
  · exact ⟨none, isQuiet_none, pushState_finish _ _⟩
  · split
    · exact ⟨none, isQuiet_none, pushState_finish _ _⟩
    · exact ⟨none, isQuiet_none, pushState_drop⟩
    · exact ⟨_, isQuiet_some rfl, pushState_ask _ rfl⟩

theorem PushState.Numbered.lt {v : PushState} (hn : v.Numbered) {w : Work}
    (ht : v.work task = some w) : task < v.nextTask := by
  by_contra hlt
  simp [hn task (Nat.le_of_not_lt hlt)] at ht

theorem quiet_part {v : PushState} {w : Work} (hn : v.Numbered) (ht : v.work task = some w)
    (hw : w.isPush = false) {w' : Option Work} (hw' : IsQuiet w') :
    Part place v .aside (v.setWork task w') :=
  setWork_part (hn.lt ht) (ht ▸ isQuiet_some hw) hw'

theorem pushState_publish (id : DocumentId) (shift : LineShift) :
    (s.publish id shift).pushState = s.pushState :=
  pushState_note (s := { s with diagnostics := (s.diagnostics.publish id shift).1 }) rfl

theorem beginOpen_ok {id : DocumentId} {document : Document} {channel : String} {t : Service}
    (hb : s.beginOpen id document channel place = .ok (t, h)) :
    s.isConnected = true ∧ s.open? id = none ∧ h = s.sessions.length ∧
      ∃ opening, t = ({ s with
        sessions := s.sessions ++ [Session.opened id document channel (s.channel channel).nextId]
        opening := opening
        channels := Keyed.put channel ((s.channel channel).attach h).1 s.channels } :
          Service).syncIn h 0 place := by
  simp only [beginOpen] at hb
  split at hb
  · cases hb
  · split at hb
    · cases hb
    · split at hb
      · cases hb
      · next hc ho =>
        cases hb
        exact ⟨by simpa using hc, by simpa using ho, rfl, _, rfl⟩

theorem pushState_concat (y : Session) (opening : List Nat)
    (channels : List (String × Signal Nat)) :
    ({ s with sessions := s.sessions ++ [y], opening := opening, channels := channels } :
      Service).pushState = s.pushState.setSession s.sessions.length y := by
  have hs : (fun k => (s.sessions ++ [y])[k]?) =
      Function.update (fun k => s.sessions[k]?) s.sessions.length (some y) := by
    funext k
    by_cases hk : k = s.sessions.length
    · subst k
      simp
    · rw [Function.update_of_ne hk]
      by_cases hlt : k < s.sessions.length
      · exact List.getElem?_append_left hlt
      · have hle : s.sessions.length + 1 ≤ k := by omega
        rw [List.getElem?_eq_none (by simpa using hle), List.getElem?_eq_none (by omega)]
  simp only [pushState, PushState.setSession, hs]

theorem finishOpen_ok (hx : s.session? h = some x) (ho : s.open? x.id = none) :
    (s.finishOpen h).1.pushState =
      s.pushState.setOwner (Function.update s.pushState.owner x.id (some h)) := by
  have howner : (fun id => (s.registry ++ [(x.id, h)]).lookup id) =
      Function.update s.pushState.owner x.id (some h) := by
    funext id
    rw [Keyed.lookup_concat]
    by_cases hid : id = x.id
    · subst hid
      rw [Function.update_self, show s.registry.lookup x.id = none from ho]
      simp
    · rw [Function.update_of_ne hid, if_neg hid]
      exact Option.or_none
  have hopen : ({ s with opening := s.opening.erase h } : Service).open? x.id = none := ho
  simp only [finishOpen]
  simp only [hx, hopen, Option.isSome_none, Bool.false_eq_true, ↓reduceIte, pushState_publish]
  rw [← howner]
  rfl

theorem channels_finishOpen (hx : s.session? h = some x) (ho : s.open? x.id = none) :
    (s.finishOpen h).1.channels = s.channels := by
  have hopen : ({ s with opening := s.opening.erase h } : Service).open? x.id = none := ho
  simp only [finishOpen]
  simp only [hx, hopen, Option.isSome_none, Bool.false_eq_true, ↓reduceIte]
  rfl

theorem channels_syncIn (delay : Nat) (place : Place := .inside) :
    (s.syncIn h delay place).channels = s.channels := by
  have hc := congrArg Service.channels (outline_syncIn (s := s) (h := h) delay place)
  exact hc

/-- Opening a document is refused, or it starts a session that is attached to its channel and is to
be pushed right away. -/
theorem openDocument_cases (s : Service) (id : DocumentId) (document : Document)
    (channel : String) (place : Place := .inside) :
    (s.openDocument id document channel place).1 = s ∨
      s.session? s.sessions.length = none ∧ s.open? id = none ∧ s.isConnected = true ∧
        (s.openDocument id document channel place).1.channels =
          Keyed.put channel ((s.channel channel).attach s.sessions.length).1 s.channels ∧
        (s.openDocument id document channel place).1.pushState =
          ((s.pushState.setOwner
              (Function.update s.pushState.owner id (some s.sessions.length))).arm
            s.sessions.length
            (Session.opened id document channel (s.channel channel).nextId).bump s.now
            place).markBusy id := by
  simp only [openDocument]
  cases hb : s.beginOpen id document channel place with
  | error e => exact Or.inl rfl
  | ok p =>
    rcases p with ⟨t, h⟩
    obtain ⟨hc, ho, rfl, opening, rfl⟩ := beginOpen_ok hb
    let y := Session.opened id document channel (s.channel channel).nextId
    let channels := Keyed.put channel ((s.channel channel).attach s.sessions.length).1 s.channels
    let s₁ : Service :=
      { s with sessions := s.sessions ++ [y], opening := opening, channels := channels }
    have hy : s₁.session? s.sessions.length = some y := by simp [s₁, session?]
    have hp : (s₁.syncIn s.sessions.length 0 place).pushState =
        ((s.pushState.arm s.sessions.length y.bump s₁.now place).markBusy id) := by
      rw [pushState_syncIn hy _ place, pushState_concat]
      simp only [PushState.arm, PushState.setSession, Function.update_idem]
      rfl
    let timer := (y.timer.schedule s.agenda s₁.now (fun g => ⟨s.sessions.length, g⟩) place).1
    have hz : (s₁.syncIn s.sessions.length 0 place).session? s.sessions.length =
        some { y.bump with timer := timer } := by
      change (s₁.syncIn s.sessions.length 0 place).pushState.session s.sessions.length = _
      rw [hp]
      exact Function.update_self _ _ _
    have hf : (s₁.syncIn s.sessions.length 0 place).open? id = none := by
      change (s₁.syncIn s.sessions.length 0 place).pushState.owner id = none
      rw [hp]
      exact ho
    refine Or.inr ⟨List.getElem?_eq_none (Nat.le_refl _), ho, hc, ?_, ?_⟩
    · rw [channels_finishOpen hz hf, channels_syncIn _ place]
    · rw [finishOpen_ok hz hf, hp]
      rfl

theorem openDocument_parts (id : DocumentId) (document : Document) (channel : String)
    (place : Place := .inside) :
    Parts place (fun d => ∃ h, d = .opened h) s.pushState
      (s.openDocument id document channel place).1.pushState := by
  rcases openDocument_cases s id document channel place with he | ⟨hs, ho, hc, _, he⟩
  · rw [he]
    exact .refl _
  · rw [he]
    exact .single (.open hs ho hc) ⟨_, rfl⟩

theorem pushState_push (hx : s.session? h = some x) (ho : x.isClosed = false)
    (hc : s.isConnected = true) (after : After) :
    (s.push task h after).pushState = s.pushState.push task h x after := by
  simp only [Service.push]
  simp only [hx, ho, hc, Bool.false_eq_true, ↓reduceIte, Bool.not_true]
  rw [ask, pushState_note_push rfl, pushState_hold, pushState_setSession hx]
  rfl

theorem push_idle (hx : ∀ x, s.session? h = some x → x.isClosed = true ∨ s.isConnected = false)
    (after : After) :
    ∃ w, IsQuiet w ∧ (s.push task h after).pushState = s.pushState.setWork task w := by
  simp only [Service.push]
  split
  · exact ⟨none, isQuiet_none, pushState_drop⟩
  · next x hs =>
    cases ho : x.isClosed with
    | true => simpa using afterPush_quiet s task _ after
    | false =>
      have hc : s.isConnected = false := (hx x hs).resolve_left (by simp [ho])
      simpa [hc] using afterPush_quiet s task _ after

theorem pushState_flush (hx : s.session? h = some x) :
    ((s.disarm h).bump h).pushState = ((s.pushState.dropTimer x).markBusy x.id).setSession h
      { x.bump with timer := (x.timer.cancel s.agenda).1 } := by
  rw [pushState_bump (session?_disarm hx), pushState_disarm hx]
  simp only [PushState.markBusy, PushState.setSession, Function.update_idem]
  rfl

theorem pushState_flush_open (hx : s.session? h = some x) (ho : x.isClosed = false)
    (hc : s.isConnected = true) (after : After) :
    (s.flush task h after).pushState = ((s.pushState.dropTimer x).markBusy x.id).push task h
      { x.bump with timer := (x.timer.cancel s.agenda).1 } after := by
  have hp := pushState_flush hx
  have hy : ((s.disarm h).bump h).session? h =
      some { x.bump with timer := (x.timer.cancel s.agenda).1 } := by
    change ((s.disarm h).bump h).pushState.session h = _
    rw [hp]
    exact Function.update_self _ _ _
  have hconn : ((s.disarm h).bump h).isConnected = true :=
    (congrArg PushState.isConnected hp).trans hc
  simp only [Service.flush]
  simp only [hx, ho, Bool.false_eq_true, ↓reduceIte]
  rw [pushState_push hy ho hconn, hp]
  simp only [PushState.push, PushState.setSession, Function.update_idem]

theorem flush_parts (hn : task < s.nextTask) (hq : IsQuiet (s.pushState.work task))
    (after : After) :
    PushLast place (fun d => d = .aside ∨ d = .edited h ∨ d = .pushed h) s.pushState
      (s.flush task h after).pushState := by
  simp only [Service.flush]
  split
  · rw [pushState_drop]
    exact Or.inl (.single (setWork_part hn hq isQuiet_none) ⟨Or.inl rfl, rfl⟩)
  · next x hx =>
    cases ho : x.isClosed with
    | true =>
      obtain ⟨w, hw, he⟩ := afterPush_quiet s task (.ok ()) after
      simp only [↓reduceIte, he]
      exact Or.inl (.single (setWork_part hn hq hw) ⟨Or.inl rfl, rfl⟩)
    | false =>
      cases hc : s.isConnected with
      | true =>
        have hflush : (s.flush task h after).pushState = _ := pushState_flush_open hx ho hc after
        simp only [Service.flush, hx, ho, Bool.false_eq_true, ↓reduceIte] at hflush ⊢
        rw [hflush]
        exact Or.inr ⟨_, h, .refl _, .flush hx ho hc hn hq, Or.inr (Or.inr rfl)⟩
      | false =>
        have hp := pushState_flush hx
        have hconn : ((s.disarm h).bump h).isConnected = s.isConnected :=
          congrArg PushState.isConnected hp
        simp only [Bool.false_eq_true, ↓reduceIte]
        obtain ⟨w, hw, he⟩ := @push_idle ((s.disarm h).bump h) h task
          (fun _ _ => Or.inr (hconn.trans hc)) after
        rw [he, hp]
        refine Or.inl (.tail (.single (.stall hx ho hc) ⟨Or.inr (Or.inl rfl), rfl⟩) ?_
          ⟨Or.inl rfl, rfl⟩)
        exact setWork_part hn hq hw

theorem sync_answered_part {t : Ticket} {after : After}
    (hw : s.pushState.work task = some (.sync h t after)) (result : Except Failure Unit) :
    Part place s.pushState (.answered task)
      (s.answer task (.sync h t after) (.synced result)).pushState := by
  simp only [Service.answer]
  generalize hs₀ : s.note (.answered task h t.version (isOk result)) = s₀
  have hp : s₀.pushState = s.pushState.note (.answered task h t.version (isOk result)) := by
    rw [← hs₀, pushState_note_push rfl]
  have hsession : s₀.session? h = s.session? h := by rw [← hs₀]; rfl
  simp only [completePush]
  cases hx : s.session? h with
  | none =>
    simp only [hsession, hx]
    obtain ⟨w, hq, he⟩ := afterPush_quiet s₀ task result after
    rw [he, hp]
    exact .ignore hw hq fun x hx' => absurd (hx.symm.trans hx') (by simp)
  | some x =>
    simp only [hsession, hx]
    cases ho : x.isClosed with
    | true =>
      obtain ⟨w, hq, he⟩ := afterPush_quiet s₀ task result after
      simp only [↓reduceIte, he, hp]
      refine .ignore hw hq fun y hy => Or.inl ?_
      obtain rfl := Option.some.inj (hx.symm.trans hy)
      exact ho
    | false =>
      simp only [Bool.false_eq_true, ↓reduceIte]
      cases result with
      | ok u =>
        by_cases ht : t.version = x.version
        · have hcur : t.isCurrent x.version = true := by simp [Ticket.isCurrent, ht]
          simp only [hcur, ↓reduceIte]
          obtain ⟨w, hq, he⟩ := afterPush_quiet ((s₀.setSession h (x.settle t)).markIdle x.id) task
            (.ok ()) after
          rw [he, pushState_markIdle, pushState_setSession (hsession.trans hx), hp]
          exact .accept hw hq hx ho ht
        · have hcur : t.isCurrent x.version = false := by simp [Ticket.isCurrent, ht]
          simp only [hcur, Bool.false_eq_true, ↓reduceIte]
          obtain ⟨w, hq, he⟩ := afterPush_quiet s₀ task (.ok ()) after
          rw [he, hp]
          refine .ignore hw hq fun y hy => Or.inr ⟨rfl, ?_⟩
          obtain rfl := Option.some.inj (hx.symm.trans hy)
          exact ht
      | error e =>
        obtain ⟨w, hq, he⟩ := afterPush_quiet
          ((s₀.setSession h (x.settle t)).report (some x.id) e.message) task (.error e) after
        rw [he, report, pushState_note rfl, pushState_setSession (hsession.trans hx), hp]
        exact .refuse hw hq hx ho

theorem finish_part {w : Work} (hn : s.pushState.Numbered) (ht : s.pushState.work task = some w)
    (hw : w.isPush = false) (request : Nat) (o : Outcome) :
    Part place s.pushState .aside (s.finish task request o).pushState := by
  rw [pushState_finish]
  exact quiet_part hn ht hw isQuiet_none

theorem completeConnect_parts {w : Work} (hn : s.pushState.Numbered)
    (ht : s.pushState.work task = some w) (hw : w.isPush = false) (request : Nat)
    (result stream : Except Failure Unit) :
    Parts place (fun d => d = .aside) s.pushState
      (s.completeConnect task request result stream).pushState := by
  have hnote : (s.note (.called task .subscribe)).pushState = s.pushState := pushState_note rfl
  simp only [completeConnect]
  split
  · exact .single (finish_part (s := { s with link := .absent }) hn ht hw _ _) rfl
  · rw [← hnote] at hn ht ⊢
    split
    · let t : Service := { s.note (.called task .subscribe) with link := .absent }
      exact .single (finish_part (s := t) hn ht hw _ _) rfl
    · let t : Service :=
        { s.note (.called task .subscribe) with
          link := .made, isListening := true, isConnected := true }
      exact .tail (.single .connect rfl) (finish_part (s := t) hn ht hw _ _) rfl

theorem answer_parts {w : Work} (hn : s.pushState.Numbered)
    (ht : s.pushState.work task = some w) (a : Answer) :
    Parts place (fun d => d = .aside ∨ d = .answered task) s.pushState
      (s.answer task w a).pushState := by
  have hquiet (request : Nat) (o : Outcome) (hw : w.isPush = false) :
      Parts place (fun d => d = .aside ∨ d = .answered task) s.pushState
        (s.finish task request o).pushState :=
    .single (finish_part hn ht hw request o) (Or.inl rfl)
  have hfail (request : Nat) (id : DocumentId) (e : Failure) (o : Outcome)
      (hw : w.isPush = false) : Parts place (fun d => d = .aside ∨ d = .answered task) s.pushState
        (s.fail task request id e o).pushState := by
    have hr : (s.report (some id) e.message).pushState = s.pushState := pushState_note rfl
    rw [fail]
    rw [← hr] at hn ht ⊢
    exact .single (finish_part hn ht hw request o) (Or.inl rfl)
  simp only [Service.answer]
  split
  · exact .single (sync_answered_part ht _) (Or.inr rfl)
  · exact hfail _ _ _ _ rfl
  · exact hquiet _ _ rfl
  · exact hfail _ _ _ _ rfl
  · exact hquiet _ _ rfl
  · exact (completeConnect_parts hn ht rfl _ _ _).mono fun _ => Or.inl
  · exact hquiet _ _ rfl
  · exact .refl _

/-- The session that a task pushes in its turn. -/
def Work.target? : Work → Option Nat
  | .start h => some h
  | .debounce _ h _ _ _ _ => some h
  | _ => none

theorem run_parts {w : Work} (hn : s.pushState.Numbered) (ht : s.pushState.work task = some w) :
    PushLast place
      (fun d => d = .aside ∨ ∃ k, w.target? = some k ∧ (d = .edited k ∨ d = .pushed k))
      s.pushState (s.run task w).pushState := by
  have hquiet {v : PushState} (hp : Part place s.pushState .aside v) :
      PushLast place
        (fun d => d = .aside ∨ ∃ k, w.target? = some k ∧ (d = .edited k ∨ d = .pushed k))
        s.pushState v :=
    Or.inl (.single hp ⟨Or.inl rfl, rfl⟩)
  simp only [Service.run]
  split
  · next h =>
    by_cases hx : ∀ x, s.session? h = some x → x.isClosed = true ∨ s.isConnected = false
    · have he : (s.push task h .nothing).pushState = s.pushState.setWork task none := by
        simp only [Service.push]
        split
        · exact pushState_drop
        · next x hs =>
          cases ho : x.isClosed with
          | true => exact pushState_drop
          | false =>
            have hc := (hx x hs).resolve_left (by simp [ho])
            simpa [hc, afterPush] using pushState_drop
      rw [he]
      exact hquiet (.forgo ht hx)
    · simp only [not_forall, not_or, Bool.not_eq_true, Bool.not_eq_false] at hx
      obtain ⟨x, hx, ho, hc⟩ := hx
      rw [pushState_push hx ho hc]
      exact Or.inr ⟨_, h, .refl _, .start ht hx ho hc, Or.inr ⟨h, rfl, Or.inr rfl⟩⟩
  · next request h id p generation deadline =>
    simp only [runDebounce]
    split
    · exact Or.inl (.refl _)
    · next wait _ =>
      exact hquiet (finish_part (s := { s with wait := wait }) hn ht rfl _ _)
    · next wait _ =>
      refine (flush_parts (s := { s with wait := wait }) (hn.lt ht) ?_ _).mono ?_
      · exact ht ▸ isQuiet_some rfl
      · rintro d (hd | hd | hd)
        · exact Or.inl hd
        · exact Or.inr ⟨h, rfl, Or.inl hd⟩
        · exact Or.inr ⟨h, rfl, Or.inr hd⟩
  · simp only [runConnectTurn]
    split
    · exact hquiet (finish_part hn ht rfl _ _)
    · exact Or.inl (.refl _)
    · next request _ =>
      rw [beginConnect, pushState_ask (s := { s with link := .busy }) _ rfl]
      exact hquiet (quiet_part hn ht rfl (isQuiet_some rfl))
  all_goals exact Or.inl (.refl _)

theorem fire_parts {i : Nat} {sleeper : Sleeper Debounce} (hi : s.agenda.find? i = some sleeper) :
    Parts place (fun d => d = .aside ∨ d = .fired sleeper.job.session) s.pushState
      (s.fire sleeper).pushState := by
  have hid : sleeper.id = i := Agenda.find?_id hi
  subst hid
  simp only [fire]
  let t : Service := { s with agenda := s.agenda.drop sleeper.id }
  have ht : t.pushState = { s.pushState with agenda := s.agenda.drop sleeper.id } := rfl
  split
  · next hx =>
    refine .single (.expire hi fun x hx' => ?_) (Or.inl rfl)
    exact absurd (hx.symm.trans hx') (by simp)
  · next x hx =>
    split
    · next hf =>
      refine .single (.expire hi fun y hy => ?_) (Or.inl rfl)
      obtain rfl := Option.some.inj (hx.symm.trans hy)
      exact hf
    · next timer hf =>
      rw [pushState_spawn, pushState_setSession (s := t) hx]
      exact .single (.fire hi hx hf) (Or.inr rfl)

theorem Part.numbered {v w : PushState} {d : Deed} (hp : Part place v d w) (hn : v.Numbered) :
    w.Numbered := by
  have hset (u : PushState) (task : Nat) (w : Option Work) (hu : u.work = v.work)
      (hk : u.nextTask = v.nextTask) (ht : task < v.nextTask) : (u.setWork task w).Numbered := by
    intro k hle
    have hle : v.nextTask ≤ k := hk ▸ hle
    have hne : k ≠ task := by omega
    exact (Function.update_of_ne hne _ _).trans (hu ▸ hn k hle)
  cases hp with
  | tasks hle hw =>
    intro k hk
    rcases hw k with he | ⟨hlt, _⟩
    · exact he.trans (hn k (Nat.le_trans hle hk))
    · exact absurd hlt (Nat.not_lt.mpr hk)
  | connect | disconnect | disown | «open» | edit | stall | expire | close => exact hn
  | flush _ _ _ ht => exact hset _ _ _ rfl rfl ht
  | start hw => exact hset _ _ _ rfl rfl (hn.lt hw)
  | forgo hw => exact hset _ _ _ rfl rfl (hn.lt hw)
  | fire =>
    intro k hk
    have hlt : v.nextTask < k := hk
    change (v.work k).or (if k = v.nextTask then _ else none) = none
    rw [hn k (by omega), if_neg (by omega)]
    rfl
  | accept hw => exact hset _ _ _ rfl rfl (hn.lt hw)
  | refuse hw => exact hset _ _ _ rfl rfl (hn.lt hw)
  | ignore hw => exact hset _ _ _ rfl rfl (hn.lt hw)

theorem ask_part (hn : s.pushState.Numbered) {w : Work} (hw : w.isPush = false) {c : Call}
    (hc : (Notice.called s.nextTask c).isPush = false) :
    Part place s.pushState .aside (s.fresh.1.ask s.nextTask w c).pushState := by
  rw [pushState_ask (s := s.fresh.1) w hc]
  refine .tasks (Nat.le_succ _) ?_
  intro k
  by_cases hk : k = s.nextTask
  · subst k
    have hnone : s.pushState.work s.nextTask = none := hn _ (Nat.le_refl _)
    refine Or.inr ⟨Nat.lt_succ_self _, hnone ▸ isQuiet_none, ?_⟩
    simpa using isQuiet_some hw
  · exact Or.inl (Function.update_of_ne hk _ _)

theorem requestFlush_parts (hn : s.pushState.Numbered) (request : Nat) :
    PushLast place (fun d => d = .aside ∨ d = .edited h ∨ d = .pushed h) s.pushState
      (s.requestFlush request h).pushState := by
  refine .after (fresh_part s.pushState) (Or.inl rfl) ?_
  refine flush_parts (s := s.fresh.1) (Nat.lt_succ_self _) ?_ (.flush request)
  exact (hn s.nextTask (Nat.le_refl _)) ▸ isQuiet_none

theorem requestCompletion_parts (hn : s.pushState.Numbered) (request : Nat) (id : DocumentId)
    (p : EditorPosition) :
    Parts place (fun d => d = .aside) s.pushState (s.requestCompletion request id p).pushState := by
  simp only [requestCompletion]
  split
  · rw [pushState_note rfl]
    exact .refl _
  · rw [pushState_spawn (s := { s with wait := s.wait.start.1 })]
    exact .single (spawn_part hn rfl) rfl

theorem requestInfo_parts (hn : s.pushState.Numbered) (request : Nat) (id : DocumentId)
    (p : EditorPosition) (use : InfoUse) :
    Parts place (fun d => d = .aside) s.pushState (s.requestInfo request id p use).pushState := by
  simp only [requestInfo]
  split
  · rw [pushState_note rfl]
    exact .refl _
  · split
    · exact .refl _
    · exact .single (ask_part hn rfl rfl) rfl

theorem requestConnect_parts (hn : s.pushState.Numbered) (request : Nat) :
    Parts place (fun d => d = .aside) s.pushState (s.requestConnect request).pushState := by
  simp only [requestConnect]
  split
  · rw [pushState_note rfl]
    exact .refl _
  · split
    · rw [pushState_note rfl]
      exact .refl _
    · rw [pushState_spawn]
      exact .single (spawn_part hn rfl) rfl
    · split
      · rw [pushState_spawn]
        exact .single (spawn_part hn rfl) rfl
      · exact .single (ask_part (s := { s with link := .busy }) hn rfl rfl) rfl

theorem requestShutdown_parts (hn : s.pushState.Numbered) (request : Nat) :
    Parts place EndsOnly s.pushState (s.requestShutdown request).pushState := by
  simp only [requestShutdown]
  split
  · rw [pushState_note rfl]
    exact .refl _
  · let t : Service := { s with isStopped := true, wait := s.wait.cancel, registry := [] }
    let r : Service :=
      { t.retireEach s.registry with isConnected := false, isListening := false }
    obtain ⟨u, hu, hs, howner, _, hd⟩ := retireEach_parts (s := t) s.registry s.pushState.owner
    have hu : Parts place EndsOnly s.pushState u := hu.mono fun d hd => Or.inr hd
    have hnone : ∀ id, t.pushState.owner id = none := fun _ => rfl
    have hown : Part place u .aside (t.retireEach s.registry).pushState := by
      refine hs ▸ .disown fun id => Or.inr ⟨hnone id, fun k x hk hx => ?_⟩
      have hk : s.registry.lookup id = some k := (congrFun howner id).symm.trans hk
      have hmem : (id, k) ∈ s.registry := by
        obtain ⟨before, after, he, _⟩ := List.lookup_eq_some_iff.mp hk
        simp [he]
      exact hd (id, k) hmem x hx
    have hoff : Part place (t.retireEach s.registry).pushState .aside r.pushState := by
      refine .disconnect fun id => ?_
      rw [hs]
      exact hnone id
    have hr : Parts place EndsOnly s.pushState r.pushState :=
      .tail (.tail hu hown (Or.inl rfl)) hoff (Or.inl rfl)
    exact .tail hr (ask_part (hr.keep Part.numbered hn) rfl rfl) (Or.inl rfl)

theorem receive_pushState (e : ServerEvent) : (s.receive e).pushState = s.pushState := by
  have hmarkers (updates : List MarkerUpdate) (t : Service) :
      (updates.foldl (fun s u => s.note (.markers u)) t).pushState = t.pushState := by
    induction updates generalizing t with
    | nil => rfl
    | cons u updates ih => exact (ih _).trans (pushState_note rfl)
  simp only [receive]
  split
  · split
    · next messages =>
      refine (hmarkers _ _).trans ?_
      let t : Service :=
        { s with diagnostics := (s.diagnostics.replaceSnapshot messages s.shownDocuments).1 }
      exact pushState_note (s := t) rfl
    · exact pushState_note rfl
  · rfl

/-- An event is a sequence of parts that it admits, and only the last of them is a push. -/
theorem next_parts (hn : s.pushState.Numbered) {e : Event} (he : e.isWhole = true)
    (place : Place := .inside) :
    PushLast place e.Admits s.pushState (s.next e place).pushState := by
  have haside {e : Event} {d : Deed} (hd : d = .aside) : e.Admits d ∧ d.isPush = false := by
    subst hd
    exact ⟨trivial, rfl⟩
  cases e with
  | beginOpen | finishOpen => cases he
  | openDocument =>
    refine Or.inl ((openDocument_parts _ _ _ place).mono ?_)
    rintro d ⟨h, rfl⟩
    exact ⟨trivial, rfl⟩
  | closeDocument =>
    refine Or.inl ((closeDocument_parts _).mono ?_)
    rintro d (rfl | ⟨h, rfl⟩) <;> exact ⟨trivial, rfl⟩
  | change =>
    refine Or.inl ((fireChannel_parts _ _ place).mono ?_)
    rintro d ⟨h, rfl⟩
    exact ⟨trivial, rfl⟩
  | setText h =>
    refine Or.inl ((setText_parts _ place).mono ?_)
    rintro d rfl
    exact ⟨rfl, rfl⟩
  | setContext h =>
    refine Or.inl ((setContext_parts _ _ place).mono ?_)
    rintro d rfl
    exact ⟨rfl, rfl⟩
  | closeSession h =>
    refine Or.inl (closeSession_parts.mono ?_)
    rintro d rfl
    exact ⟨rfl, rfl⟩
  | flush request h =>
    refine (requestFlush_parts hn request).mono ?_
    rintro d (rfl | rfl | rfl)
    · trivial
    · rfl
    · rfl
  | complete => exact Or.inl ((requestCompletion_parts hn _ _ _).mono fun _ => haside)
  | info => exact Or.inl ((requestInfo_parts hn _ _ _ _).mono fun _ => haside)
  | connect => exact Or.inl ((requestConnect_parts hn _).mono fun _ => haside)
  | shutdown =>
    refine Or.inl ((requestShutdown_parts hn _).mono ?_)
    rintro d (rfl | ⟨h, rfl⟩) <;> exact ⟨trivial, rfl⟩
  | receive e =>
    rw [Service.next, receive_pushState]
    exact Or.inl (.refl _)
  | endStream => exact Or.inl (.refl _)
  | pass => exact Or.inl (.refl _)
  | answer task a =>
    simp only [Service.next]
    split
    · exact Or.inl (.refl _)
    · next w hw =>
      refine Or.inl ((answer_parts hn hw a).mono ?_)
      rintro d (rfl | rfl)
      · exact ⟨trivial, rfl⟩
      · exact ⟨rfl, rfl⟩
  | fire i =>
    simp only [Service.next]
    split
    · exact Or.inl (.refl _)
    · next sleeper hi =>
      split
      · refine Or.inl ((fire_parts hi).mono ?_)
        rintro d (rfl | rfl) <;> exact ⟨trivial, rfl⟩
      · exact Or.inl (.refl _)
  | run task =>
    simp only [Service.next]
    split
    · exact Or.inl (.refl _)
    · next w hw =>
      refine (run_parts hn hw).mono ?_
      rintro d (rfl | ⟨k, _, rfl | rfl⟩) <;> trivial

end DocSync.Service
