import DocSync.Proofs.DocumentRules

/-!
What a service shows of a document after an event about it is what the rule of the event says.
-/

namespace DocSync.Service

open PushState

variable {s t : Service} {names : Names} {id : DocumentId} {e : Event} {w : Work}
  {h i k n task request : Nat} {x y : Session} {document : Document}

/-- The outline stays, but for the completion debounce and who listens to which channel. -/
def Redrawn (s t : Service) : Prop :=
  ∃ wait channels, t.outline = { s.outline with wait := wait, channels := channels }

theorem Redrawn.view (ho : s.Redrawn t) (ht : t.titles = s.titles) :
    t.view names id =
      { s.view names id with
        sessions := t.looks id
        isBusy := t.running.isBusy id
        news := t.news names id } := by
  obtain ⟨wait, channels, ho⟩ := ho
  have hdesk := congrArg desk ho
  have htasks := congrArg Service.tasks ho
  have hnext := congrArg Service.nextTask ho
  change t.desk = s.desk at hdesk
  change t.tasks = s.tasks at htasks
  change t.nextTask = s.nextTask at hnext
  rw [view_of_desk hdesk ht, worksOf_of_tasks htasks hnext ht]
  rfl

theorem look?_arm {v : PushState} (hfree : v.agenda.find? v.agenda.nextId = none) (deadline : Nat) :
    (v.arm h x deadline).look? h = some (.of x (some deadline)) := by
  rw [PushState.look?, session_arm, due_arm hfree]
  rfl

theorem view_write (hs : s.Orderly names) (hn : (s.sessionsOf id)[n]? = some h)
    (hx : s.session? h = some x) (ho : x.isClosed = false)
    (hout : s.Redrawn t)
    (hp : t.pushState = (s.pushState.arm h { x.bump with document := document }
      (s.now + s.syncDelay)).markBusy x.id)
    (hnews : t.news names id = s.news names id) :
    t.view names id = (s.view names id).write n (.of x (s.pushState.due h)) document := by
  obtain ⟨_, hx', hid⟩ := session_of_number hn
  obtain rfl := Option.some.inj (hx.symm.trans hx')
  have hpart : Part .inside s.pushState (.edited h) t.pushState := hp ▸ .edit hx ho
  have ht : t.titles = s.titles := hpart.titles fun _ => nofun
  have hlook : t.pushState.look? h = some
      ((Look.of x (s.pushState.due h)).write document (some (s.now + s.syncDelay))) := by
    rw [hp]
    exact look?_arm (nextId_free hs.invariant) _
  have hbusy : t.running.isBusy id = true := by
    refine (congrArg (fun v => v.running.isBusy id) hp).trans ?_
    refine (isBusy_markBusy _ _ _).trans ?_
    rw [hid, beq_self_eq_true, Bool.true_or]
  rw [hout.view ht, hnews, hbusy,
    hpart.looks_set hs.ticking hn ht fun k hk => hk.symm, hlook]
  rfl

theorem view_edited (hs : s.Orderly names) (hn : (s.sessionsOf id)[n]? = some h)
    (hx : s.session? h = some x) (ho : x.isClosed = false) (document : Document) :
    ((s.setSession h { x with document := document }).edited h).view names id =
      (s.view names id).write n (.of x (s.pushState.due h)) document := by
  refine view_write hs hn hx ho ⟨s.wait.cancel, s.channels, outline_edited⟩ ?_ ?_
  · exact pushState_edit (s := { s with wait := s.wait.cancel }) hx document s.syncDelay
  · rw [news_edited]
    rfl

theorem view_setText (hs : s.Orderly names) (hn : (s.sessionsOf id)[n]? = some h)
    (text : List Char) :
    (s.setText h text).view names id =
      (s.view names id).edit n fun document => document.setVisible text := by
  obtain ⟨x, hx, _⟩ := session_of_number hn
  cases ho : x.isClosed with
  | true =>
    have hsame : s.setText h text = s := by
      simp only [setText, hx, ho, ↓reduceIte]
    rw [hsame, View.edit, view_closed hn hx ho]
  | false =>
    rw [setText_open hx ho, view_edited hs hn hx ho, View.edit, view_open? hn hx ho]
    rfl

theorem view_setContext (hs : s.Orderly names) (hn : (s.sessionsOf id)[n]? = some h)
    (before after : List Char) :
    (s.setContext h before after).view names id =
      (s.view names id).edit n fun document => document.setContext before after := by
  obtain ⟨x, hx, _⟩ := session_of_number hn
  cases ho : x.isClosed with
  | true =>
    have hsame : s.setContext h before after = s := by
      simp only [setContext, hx, ho, ↓reduceIte]
    rw [hsame, View.edit, view_closed hn hx ho]
  | false =>
    rw [View.edit, view_open? hn hx ho, setContext_open hx ho]
    refine view_write hs hn hx ho ⟨s.wait, s.channels, outline_syncIn _⟩ ?_ ?_
    · exact pushState_edit hx _ _
    · exact news_of_marks (adds_syncIn (fun members => ⟨members, rfl⟩) _)

theorem handlers_owner {channel : String} (hs : s.Orderly names) (hc : names.channel channel = id)
    (hk : k ∈ (s.channel channel).handlers.map Prod.snd) :
    s.open? id = some k ∧
      ∃ x, s.session? k = some x ∧ x.isClosed = false ∧ x.channel = channel := by
  obtain ⟨x, hx, hchannel⟩ := hs.attached.session_of_mem hk
  refine ⟨?_, x, hx.1, hx.2, hchannel⟩
  have hid : x.id = id := by
    rw [← hs.channels hx.1, hchannel, hc]
  exact hid ▸ hs.invariant.owned.owner hx

theorem handlers_own {channel : String} (hs : s.Orderly names) (hc : names.channel channel = id)
    (hx : s.session? h = some x) (ho : x.isClosed = false) (hchannel : x.channel = channel) :
    (s.channel channel).handlers.map Prod.snd = [h] := by
  obtain ⟨before, after, he, hbefore, hafter⟩ := hs.attached.handlers hx ho
  rw [hchannel] at he
  have hself : s.open? id = some h := (handlers_owner hs hc (he ▸ by simp)).1
  have hall : ∀ k ∈ before ++ h :: after, k = h := by
    intro k hk
    exact Option.some.inj ((handlers_owner hs hc (he ▸ hk)).1.symm.trans hself)
  have hbefore : before = [] := List.eq_nil_iff_forall_not_mem.mpr fun k hk =>
    hbefore (hall k (List.mem_append_left _ hk) ▸ hk)
  have hafter : after = [] := List.eq_nil_iff_forall_not_mem.mpr fun k hk =>
    hafter (hall k (List.mem_append_right _ (List.mem_cons_of_mem _ hk)) ▸ hk)
  rw [he, hbefore, hafter]
  rfl

theorem view_owner (names : Names) (ho : s.open? id = some h) :
    (s.view names id).owner = some (s.number id h) := by
  rw [view, ho]
  rfl

theorem view_owner_none (names : Names) (ho : s.open? id = none) :
    (s.view names id).owner = none := by
  rw [view, ho]
  rfl

theorem Orderly.owner (hs : s.Orderly names) (ho : s.open? id = some h) :
    (s.sessionsOf id)[s.number id h]? = some h ∧ ∃ x, s.session? h = some x ∧ x.id = id := by
  obtain ⟨x, hx, hid⟩ := hs.registered ho
  subst hid
  exact ⟨getElem?_number hx, x, hx, rfl⟩

theorem view_contentChange (hs : s.Orderly names) (hn : (s.sessionsOf id)[n]? = some h)
    (hx : s.session? h = some x) (ho : x.isClosed = false) (change : ContentChange) :
    (s.contentChange change h).view names id =
      match x.document.applyAll change.changes with
      | .error e => (s.view names id).tell [.failed (some id) (Failure.edit e).message]
      | .ok document => (s.view names id).write n (.of x (s.pushState.due h)) document := by
  obtain ⟨_, hx', hid⟩ := session_of_number hn
  obtain rfl := Option.some.inj (hx.symm.trans hx')
  cases hd : x.document.applyAll change.changes with
  | ok document => rw [contentChange_ok hx ho hd, view_edited hs hn hx ho]
  | error e =>
    have hreport : s.contentChange change h = s.report (some x.id) (Failure.edit e).message := by
      simp only [contentChange, hx, ho, hd, Bool.false_eq_true, ↓reduceIte]
    have hdrawn : s.Redrawn (s.report (some x.id) (Failure.edit e).message) :=
      ⟨s.wait, s.channels, outline_report _ _⟩
    rw [hreport, hdrawn.view rfl, news_report, if_pos hid]
    rfl

theorem view_change {channel : String} (hs : s.Orderly names) (hc : names.channel channel = id)
    (change : ContentChange) :
    (s.fireChannel channel change).view names id =
      (s.view names id).change id channel change := by
  have hdeaf (hnone : ∀ k, k ∉ (s.channel channel).handlers.map Prod.snd) :
      s.fireChannel channel change = s := by
    rw [fireChannel, List.eq_nil_iff_forall_not_mem.mpr hnone]
    rfl
  cases hopen : s.open? id with
  | none =>
    rw [View.change, view_owner_none names hopen, hdeaf]
    intro k hk
    exact Option.some_ne_none k ((handlers_owner hs hc hk).1.symm.trans hopen)
  | some h =>
    obtain ⟨hn, x, hx, hid⟩ := hs.owner hopen
    have hother (hx' : x.isClosed = false → x.channel ≠ channel) :
        ∀ k, k ∉ (s.channel channel).handlers.map Prod.snd := by
      intro k hk
      obtain ⟨hk, y, hy, ho, hchannel⟩ := handlers_owner hs hc hk
      obtain rfl := Option.some.inj (hopen.symm.trans hk)
      obtain rfl := Option.some.inj (hx.symm.trans hy)
      exact hx' ho hchannel
    simp only [View.change, view_owner names hopen]
    cases ho : x.isClosed with
    | true =>
      rw [view_closed hn hx ho, hdeaf (hother fun hf => Bool.noConfusion (ho.symm.trans hf))]
    | false =>
      rw [view_open? hn hx ho]
      change _ = if x.channel = channel then _ else _
      by_cases hchannel : x.channel = channel
      · rw [if_pos hchannel, fireChannel, handlers_own hs hc hx ho hchannel]
        exact view_contentChange hs hn hx ho change
      · rw [if_neg hchannel, hdeaf (hother fun _ => hchannel)]

theorem look?_close {v : PushState} (h : Nat) (x : Session) :
    (v.close h x).look? h = some (Look.of x (v.due h)).close := by
  have hself : (v.close h x).session h = some _ := Function.update_self _ _ _
  rw [PushState.look?, hself, due_of_pending hself (Timer.cancel_pending _ _)]
  rfl

theorem view_closeSession (hs : s.pushState.Ticking) (hn : (s.sessionsOf id)[n]? = some h) :
    (s.closeSession h).view names id = (s.view names id).closeSession n := by
  obtain ⟨x, hx, hid⟩ := session_of_number hn
  cases ho : x.isClosed with
  | true => rw [closeSession_closed hx ho, View.closeSession, view_closed hn hx ho]
  | false =>
    have hp := pushState_closeSession hx ho
    have hpart : Part .inside s.pushState (.closed h) (s.closeSession h).pushState :=
      hp ▸ .close hx ho
    have ht : (s.closeSession h).titles = s.titles := titles_closeSession
    have hbusy : (s.closeSession h).running.isBusy id = false := by
      refine (congrArg (fun v => v.running.isBusy id) hp).trans ?_
      refine (isBusy_markIdle _ _ _).trans ?_
      rw [hid, bne_self_eq_false, Bool.false_and]
    have hnews : (s.closeSession h).news names id = s.news names id :=
      news_of_marks (adds_closeSession fun members => ⟨members, rfl⟩)
    have hdrawn : s.Redrawn (s.closeSession h) := ⟨s.wait, _, outline_closeSession⟩
    rw [hdrawn.view ht, hnews, hbusy, hpart.looks_set hs hn ht fun k hk => hk.symm, hp,
      look?_close, View.closeSession, view_open? hn hx ho]
    rfl

theorem view_closeSession_other (hs : s.pushState.Ticking) (hx : s.session? h = some x)
    (hid : x.id ≠ id) : (s.closeSession h).view names id = s.view names id := by
  have hdrawn : s.Redrawn (s.closeSession h) := ⟨s.wait, _, outline_closeSession⟩
  have hpasses : s.pushState.Passes (s.closeSession h).pushState id := by
    refine closeSession_parts.passes hs ?_
    rintro d rfl
    exact Or.inr ⟨h, x, hx, hid, Or.inr (Or.inr (Or.inr rfl))⟩
  have ht : (s.closeSession h).titles = s.titles := titles_closeSession
  have hlooks : (s.closeSession h).looks id = s.looks id := by
    rw [looks, sessionsOf_of_titles ht]
    refine List.map_congr_left fun k hk => ?_
    obtain ⟨y, hy, hid⟩ := mem_sessionsOf.mp hk
    exact hpasses.look k y hy hid
  have hbusy : (s.closeSession h).running.isBusy id = s.running.isBusy id := hpasses.busy
  have hnews : (s.closeSession h).news names id = s.news names id :=
    news_of_marks (adds_closeSession fun members => ⟨members, rfl⟩)
  rw [hdrawn.view ht, hlooks, hbusy, hnews]
  rfl

theorem view_retire (hs : s.pushState.Ticking) (hn : (s.sessionsOf id)[n]? = some h) :
    (s.retire id h).view names id =
      { (s.view names id).closeSession n with markers := none } := by
  have hnone : ((s.closeSession h).diagnostics.forget id).markers.lookup id = none :=
    (Keyed.lookup_remove id _ id).trans (if_pos rfl)
  rw [← view_closeSession hs hn, ← hnone]
  rfl

theorem view_retire_other {other : DocumentId} (hs : s.pushState.Ticking)
    (hx : s.session? h = some x) (hid : x.id = other) (hne : other ≠ id) :
    (s.retire other h).view names id = s.view names id := by
  have hkept : ((s.closeSession h).diagnostics.forget other).markers.lookup id =
      (s.closeSession h).diagnostics.markers.lookup id :=
    (Keyed.lookup_remove other _ id).trans (if_neg hne.symm)
  rw [← view_closeSession_other hs hx (hid ▸ hne)]
  change { (s.closeSession h).view names id with
    markers := ((s.closeSession h).diagnostics.forget other).markers.lookup id } = _
  rw [hkept]
  rfl

theorem View.closeSession_comm {v : View} {f : View → View} (hf : (f v).sessions = v.sessions)
    (hsee : ∀ l, { (f v).see n l with isBusy := false } = f { v.see n l with isBusy := false }) :
    (f v).closeSession n = f (v.closeSession n) := by
  have hopen : (f v).open? n = v.open? n := by
    rw [View.open?, View.look?, hf]
    rfl
  simp only [View.closeSession, hopen]
  split
  · rfl
  · exact hsee _

theorem view_closeDocument (hs : s.Orderly names) :
    (s.closeDocument id).1.view names id = (s.view names id).closeDocument := by
  cases ho : s.open? id with
  | none => simp only [closeDocument, ho, View.closeDocument, view_owner_none names ho]
  | some h =>
    let u : Service := { s with registry := Keyed.remove id s.registry }
    obtain ⟨hn, _⟩ := hs.owner ho
    have hu : u.pushState.Ticking :=
      ⟨⟨hs.ticking.timed.fresh, hs.ticking.timed.armed⟩, hs.ticking.sleeping, hs.ticking.resting⟩
    have hretire : (u.retire id h).view names id = _ := view_retire (s := u) hu hn
    have hleft : u.view names id = { s.view names id with owner := none } := by
      have hnone : u.open? id = none := (Keyed.lookup_remove id s.registry id).trans (if_pos rfl)
      rw [← view_owner_none names hnone]
      rfl
    simp only [closeDocument, ho, View.closeDocument, view_owner names ho]
    rw [hretire, hleft, View.closeSession_comm (f := fun v => { v with owner := none }) rfl
      fun _ => rfl]

theorem view_refusal? (s : Service) (names : Names) (id : DocumentId) (document : Document)
    (channel : String) :
    (s.view names id).refusal? id =
      match s.beginOpen id document channel with
      | .error e => some e
      | .ok _ => none := by
  have hstopped : (s.view names id).isStopped = s.isStopped := rfl
  have hconnected : (s.view names id).isConnected = s.isConnected := rfl
  have howner : (s.view names id).owner.isSome = (s.open? id).isSome := Option.isSome_map
  simp only [View.refusal?, hstopped, hconnected, howner, beginOpen]
  split
  · rfl
  · split
    · rfl
    · split <;> rfl

theorem number_append (hl : t.sessionsOf id = s.sessionsOf id ++ [k])
    (hh : h ∈ s.sessionsOf id) : t.number id h = s.number id h := by
  rw [number, hl]
  exact List.idxOf_append_of_mem hh

theorem worksOf_append {P : Deed → Prop} (hs : s.Orderly names)
    (hp : Parts .inside P s.pushState t.pushState) (htasks : t.tasks = s.tasks)
    (hnext : t.nextTask = s.nextTask) (hl : t.sessionsOf id = s.sessionsOf id ++ [k]) :
    t.worksOf id = s.worksOf id := by
  have hwork := work_of_tasks htasks
  have hworks : t.worksFor id = s.worksFor id := by
    funext k
    simp only [worksFor, hwork]
    cases hw : s.work k with
    | none => rfl
    | some w => rw [Option.bind_some, Option.bind_some, documentOf_of_fits hp (hs.tasks hw)]
  have hnumber {h : Nat} (hd : (s.session? h).map Session.id = some id) :
      t.number id h = s.number id h := by
    exact number_append hl (mem_sessionsOf.mpr (Option.map_eq_some_iff.mp hd))
  rw [worksOf, worksOf, tasksOf, tasksOf, hworks, hnext, hwork]
  refine List.map_congr_left fun k hk => ?_
  obtain ⟨w, hw, hd⟩ := worksFor_iff.mp (mem_numbers.mp hk).2
  rw [hw, Option.map_some, Option.map_some]
  cases w with
  | start h => rw [Work.renumber, Work.renumber, hnumber hd]
  | sync h => rw [Work.renumber, Work.renumber, hnumber hd]
  | debounce | complete | info | connectTurn | connect | shutdown => rfl

theorem Opened.owner (ho : Opened s t names id x) (hfree : s.open? id = none)
    (ht : t.titles = s.titles ++ [id]) :
    (t.open? id).map (t.number id) = some (s.looks id).length := by
  have hlast : (t.sessionsOf id)[(s.sessionsOf id).length]? = some s.sessions.length := by
    rw [sessionsOf_append ht, if_pos rfl, List.getElem?_concat_length]
  have hopen : t.open? id = some s.sessions.length := by
    rw [open?, ho.registry, Keyed.lookup_concat, if_pos rfl]
    exact (congrArg (Option.or · _) hfree).trans rfl
  rw [hopen, Option.map_some, number_of_getElem? hlast, looks, List.length_map]

theorem view_openDocument (hs : s.Orderly names) (document : Document) (channel : String) :
    (s.openDocument id document channel).1.view names id =
      (s.view names id).openDocument id document channel := by
  have hrefusal := view_refusal? s names id document channel
  cases hb : s.beginOpen id document channel with
  | error error =>
    rw [hb] at hrefusal
    rw [openDocument_refused hb, View.openDocument, hrefusal]
  | ok p =>
    rw [hb] at hrefusal
    obtain ⟨_, x, ho⟩ := openDocument_opens hb names
    have hset := setting_of_base (base_openDocument (s := s) id document channel)
    have hledger := ledger_openDocument (s := s) id document channel
    have hcases := openDocument_cases s id document channel
    have htitles := titles_openDocument s id document channel
    generalize (s.openDocument id document channel).1 = t at ho hset hledger hcases htitles ⊢
    have hunused : s.session? s.sessions.length = none := List.getElem?_eq_none (Nat.le_refl _)
    obtain ⟨hnone, hfree, hconn, _, hp⟩ := hcases.resolve_left fun heq =>
      Option.some_ne_none x ((heq ▸ ho.session).symm.trans hunused)
    have ht : t.titles = s.titles ++ [id] := by
      refine htitles.resolve_left fun heq => ?_
      have hx := (title_eq t s.sessions.length).symm.trans
        (congrArg (Option.map Session.id) ho.session)
      rw [heq, ← title_eq, hunused] at hx
      cases hx
    have hl : t.sessionsOf id = s.sessionsOf id ++ [s.sessions.length] := by
      rw [sessionsOf_append ht, if_pos rfl]
    have hpart : Part .inside s.pushState (.opened s.sessions.length) t.pushState :=
      hp ▸ .open hnone hfree hconn
    have hlook : t.pushState.look? s.sessions.length =
        some ⟨document, 1, .pending 1, false, channel, some s.now⟩ := by
      rw [hp]
      exact look?_arm (nextId_free hs.invariant) _
    have hlooks : t.looks id =
        s.looks id ++ [some ⟨document, 1, .pending 1, false, channel, some s.now⟩] := by
      rw [hpart.looks_append hs.ticking ht, hlook]
    have hdocument : x.document = document := by
      have hd := congrArg (Option.map Look.document) hlook
      rw [look?_eq ho.session] at hd
      exact Option.some.inj hd
    have hnext : t.nextTask = s.nextTask := congrArg PushState.nextTask hp
    have htasks : t.tasks = s.tasks := congrArg Prod.fst hledger
    have hworks : t.worksOf id = s.worksOf id :=
      worksOf_append hs (.single (P := fun _ => True) hpart trivial) htasks hnext hl
    have hbusy : t.running.isBusy id = true := by
      refine (congrArg (fun v => v.running.isBusy id) hp).trans ?_
      refine (isBusy_markBusy _ _ _).trans ?_
      rw [beq_self_eq_true, Bool.true_or]
    have howner : (t.open? id).map (t.number id) = some (s.looks id).length :=
      ho.owner hfree ht
    have hmarkers : t.diagnostics.markers.lookup id =
        some (s.diagnostics.place id document.shift) := by
      rw [ho.diagnostics, hdocument]
      exact (Keyed.lookup_put _ _ _ _).trans (if_pos rfl)
    have hmessages : t.diagnostics.messages = s.diagnostics.messages := by
      rw [ho.diagnostics]
      rfl
    simp only [Service.setting, Prod.mk.injEq] at hset
    simp only [view, hset, hmessages, hlooks, howner, hbusy, hmarkers, hworks, ho.news,
      hdocument, View.openDocument]
    simp only [view] at hrefusal
    rw [hrefusal]
    rfl

end DocSync.Service
