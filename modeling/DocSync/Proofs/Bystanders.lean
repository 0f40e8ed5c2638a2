import DocSync.Proofs.DocumentNews

/-!
An event about one document leaves what a service shows of any other as it is. The two have no
session in common, no task and no channel; and of what is shared, the event changes only the entry
of its own document.
-/

namespace DocSync.Service

open PushState

variable {s t : Service} {names : Names} {document : Option DocumentId} {id : DocumentId}
  {e : Event} {w : Work} {h k task : Nat} {x y : Session}

theorem passes_answer (hs : s.Orderly names) (hw : s.work task = some w)
    (hd : s.documentOf w ≠ some id) (a : Answer) :
    s.pushState.Passes (s.answer task w a).pushState id := by
  have hsync {h : Nat} {t : Ticket} {after : After} (hw : s.work task = some (.sync h t after))
      (hd : s.documentOf (.sync h t after) ≠ some id) (result : Except Failure Unit) :
      s.pushState.Passes (s.answer task (.sync h t after) (.synced result)).pushState id := by
    have hp : Part .inside _ _ _ := sync_answered_part (s := s) hw result
    have hown {k : Nat} (ha : Deed.IsAbout s.pushState k (.answered task)) : k = h := by
      obtain ⟨t', after', hw'⟩ := ha
      cases hw.symm.trans hw'
      rfl
    constructor
    · intro k x hx hid
      refine hp.look hs.ticking fun ha => hd ?_
      obtain rfl := hown ha
      have hx : s.session? k = some x := hx
      rw [documentOf, hx, Option.map_some, hid]
    · refine hp.busy fun k y ha hy => ?_
      obtain rfl := hown ha
      obtain ⟨x, hx, _⟩ | ⟨hopened, _⟩ := hp.origin hy
      · obtain ⟨z, hz, he⟩ := hp.evolves hx
        obtain rfl := Option.some.inj (hy.symm.trans hz)
        rintro rfl
        have hx : s.session? k = some x := hx
        exact hd (by rw [documentOf, hx, Option.map_some, he.id])
      · cases hopened
  obtain ⟨_, _, hf⟩ := hs.fits hw
  cases hf with
  | start => exact .refl _ _
  | push | flush =>
    cases a with
    | synced result => exact hsync hw hd result
    | connected | completed | informed | stopped => exact .refl _ _
  | info =>
    cases a with
    | informed result => cases result <;> exact ⟨fun _ _ _ _ => rfl, rfl⟩
    | connected | completed | synced | stopped => exact .refl _ _
  | shutdown =>
    cases a with
    | stopped => exact ⟨fun _ _ _ _ => rfl, rfl⟩
    | connected | completed | synced | informed => exact .refl _ _

theorem passes_openDocument {other : DocumentId} (hs : s.pushState.Ticking) (hne : other ≠ id)
    (document : Document) (channel : String) :
    s.pushState.Passes (s.openDocument other document channel).1.pushState id := by
  rcases openDocument_cases s other document channel with he | ⟨hnone, ho, hconn, _, he⟩
  · rw [he]
    exact .refl _ _
  · have hp : Part .inside s.pushState (.opened s.sessions.length)
        (s.openDocument other document channel).1.pushState := he ▸ .open hnone ho hconn
    rw [he] at hp ⊢
    constructor
    · intro h x hx _
      refine hp.look hs ?_
      rintro rfl
      exact Option.some_ne_none x (hx.symm.trans hnone)
    · refine hp.busy ?_
      rintro _ y rfl hy
      obtain rfl := Option.some.inj ((session_arm _ _ _ _).symm.trans hy)
      exact hne

theorem passes_closeDocument {other : DocumentId} (hs : s.Orderly names) (hne : other ≠ id) :
    s.pushState.Passes (s.closeDocument other).1.pushState id := by
  simp only [closeDocument]
  split
  · exact .refl _ _
  · next h ho =>
    let u : Service := { s with registry := Keyed.remove other s.registry }
    obtain ⟨x, hx, hid⟩ := hs.registered ho
    have hu : u.pushState.Ticking :=
      ⟨⟨hs.ticking.timed.fresh, hs.ticking.timed.armed⟩, hs.ticking.sleeping, hs.ticking.resting⟩
    have hp : u.pushState.Passes (u.closeSession h).pushState id := by
      refine closeSession_parts.passes hu ?_
      rintro d rfl
      exact Or.inr ⟨h, x, hx, hid ▸ hne, Or.inr (Or.inr (Or.inr rfl))⟩
    exact ⟨hp.look, hp.busy⟩

theorem Touches.passes (he : s.Touches names document e) (hs : s.Orderly names)
    (hd : document ≠ some id) : s.pushState.Passes (s.next e).pushState id := by
  have hne {other : DocumentId} (hd : some other ≠ some id) : other ≠ id :=
    fun heq => hd (congrArg some heq)
  cases he with
  | openDocument => exact passes_openDocument hs.ticking (hne hd) _ _
  | closeDocument => exact passes_closeDocument hs (hne hd)
  | @change other name change hc =>
    refine (hear_parts change _).passes hs.ticking ?_
    rintro d ⟨k, hk, rfl⟩
    obtain ⟨y, hy, hchannel⟩ := hs.attached.session_of_mem hk
    have hid : y.id = other := by
      rw [← hs.channels hy.1, hchannel, hc]
    exact Or.inr ⟨k, y, hy.1, hid ▸ hne hd, Or.inl rfl⟩
  | @setText h x text hx =>
    refine (setText_parts text).passes hs.ticking ?_
    rintro d rfl
    exact Or.inr ⟨h, x, hx, hne hd, Or.inl rfl⟩
  | @setContext h x before after hx =>
    refine (setContext_parts before after).passes hs.ticking ?_
    rintro d rfl
    exact Or.inr ⟨h, x, hx, hne hd, Or.inl rfl⟩
  | @closeSession h x hx =>
    refine closeSession_parts.passes hs.ticking ?_
    rintro d rfl
    exact Or.inr ⟨h, x, hx, hne hd, Or.inr (Or.inr (Or.inr rfl))⟩
  | @flush request h x hx =>
    refine ((requestFlush_parts hs.invariant.numbered request).parts (Or.inl rfl)).passes
      hs.ticking ?_
    rintro d (rfl | rfl | rfl)
    · exact Or.inl rfl
    · exact Or.inr ⟨h, x, hx, hne hd, Or.inl rfl⟩
    · exact Or.inr ⟨h, x, hx, hne hd, Or.inr (Or.inl rfl)⟩
  | info =>
    exact (requestInfo_parts hs.invariant.numbered _ _ _ _).passes hs.ticking fun _ => Or.inl
  | @answer task w a hw =>
    rw [next_answer hw]
    exact passes_answer hs hw hd a
  | @fire i sleeper x hf hdue hx =>
    rw [next_fire hf hdue]
    refine (fire_parts hf).passes hs.ticking ?_
    rintro d (rfl | rfl)
    · exact Or.inl rfl
    · exact Or.inr ⟨_, x, hx, hne hd, Or.inr (Or.inr (Or.inl rfl))⟩
  | @run task w hw =>
    rw [next_run hw]
    obtain ⟨document, hdoc, hf⟩ := hs.fits hw
    cases hf with
    | @start other h =>
      obtain ⟨x, hx, rfl⟩ := Option.map_eq_some_iff.mp hdoc
      refine ((run_parts hs.invariant.numbered hw).parts (Or.inl rfl)).passes hs.ticking ?_
      rintro d (rfl | ⟨k, hk, hd'⟩)
      · exact Or.inl rfl
      · obtain rfl : h = k := Option.some.inj hk
        refine Or.inr ⟨h, x, hx, hne (hdoc ▸ hd), ?_⟩
        rcases hd' with rfl | rfl
        · exact Or.inl rfl
        · exact Or.inr (Or.inl rfl)
    | push | flush | info | shutdown => exact .refl _ _

theorem Touches.sessionsOf (he : s.Touches names document e) (hs : s.Orderly names)
    (hd : document ≠ some id) : (s.next e).sessionsOf id = s.sessionsOf id := by
  by_cases hopen : ∃ other document channel, e = .openDocument other document channel
  · obtain ⟨other, document, channel, rfl⟩ := hopen
    cases he with
    | openDocument =>
      rcases titles_openDocument s other document channel with ht | ht
      · exact sessionsOf_of_titles ht
      · have hne : other ≠ id := fun heq => hd (congrArg some heq)
        refine (sessionsOf_append ht).trans ?_
        rw [if_neg hne, List.append_nil]
  · exact sessionsOf_of_titles (titles_next hs.invariant.numbered he.isWhole (not_exists.mp hopen))

theorem Touches.moved (he : s.Touches names document e) (hs : s.Orderly names)
    (ha : s.actor e = some k) (hw : s.work k = some w) : s.documentOf w = document := by
  have hnew (hk : s.nextTask = k) : s.documentOf w = document := by
    subst hk
    exact absurd ((hs.invariant.numbered _ (Nat.le_refl _)).symm.trans hw)
      (Option.some_ne_none w).symm
  cases he with
  | openDocument | closeDocument | change | setText | setContext | closeSession => cases ha
  | flush | info | fire => exact hnew (Option.some.inj ha)
  | answer hw' =>
    cases ha
    rw [Option.some.inj (hw.symm.trans hw')]
  | run hw' =>
    cases ha
    rw [Option.some.inj (hw.symm.trans hw')]

theorem worksFor_iff :
    s.worksFor id k = true ↔ ∃ w, s.work k = some w ∧ s.documentOf w = some id := by
  rw [worksFor, beq_iff_eq, Option.bind_eq_some_iff]

theorem Touches.worksFor (he : s.Touches names document e) (hs : s.Orderly names)
    (hd : document ≠ some id) (k : Nat) :
    (s.next e).worksFor id k = s.worksFor id k ∧
      (s.worksFor id k = true → (s.next e).work k = s.work k) := by
  have hp := (next_parts hs.invariant.numbered he.isWhole).parts trivial
  have hunused : s.work s.nextTask = none := hs.invariant.numbered _ (Nat.le_refl _)
  by_cases ha : s.actor e = some k
  case neg =>
    have hw := work_next_of_ne ha
    refine ⟨?_, fun _ => hw⟩
    simp only [Service.worksFor, hw]
    cases hk : s.work k with
    | none => rfl
    | some w => rw [Option.bind_some, Option.bind_some, documentOf_of_fits hp (hs.tasks hk)]
  have hbefore : s.worksFor id k = false := by
    refine Bool.eq_false_iff.mpr fun hk => ?_
    obtain ⟨w, hw, hdoc⟩ := worksFor_iff.mp hk
    exact hd ((he.moved hs ha hw).symm.trans hdoc)
  have hafter : (s.next e).worksFor id k = false := by
    refine Bool.eq_false_iff.mpr fun hk => ?_
    obtain ⟨w, hw, hdoc⟩ := worksFor_iff.mp hk
    have hfits : w.Fits names (s.documentOf w) ∧ s.documentOf w = document := by
      rcases work_next hunused hw with hw | ⟨_, hb⟩
      · exact ⟨hs.tasks hw, he.moved hs ha hw⟩
      · obtain ⟨rfl, hf⟩ := he.begins hs hb
        exact ⟨hf, rfl⟩
    rw [documentOf_of_fits hp hfits.1, hfits.2] at hdoc
    exact hd hdoc
  rw [hbefore, hafter]
  exact ⟨rfl, nofun⟩

theorem Touches.tasksOf (he : s.Touches names document e) (hs : s.Orderly names)
    (hd : document ≠ some id) : (s.next e).tasksOf id = s.tasksOf id := by
  have hp := (next_parts hs.invariant.numbered he.isWhole).parts trivial
  have hle : s.nextTask ≤ (s.next e).nextTask :=
    hp.keep (I := fun v => s.nextTask ≤ v.nextTask)
      (fun hp hv => Nat.le_trans hv hp.nextTask_le) (Nat.le_refl _)
  have hsame : (s.next e).worksFor id = s.worksFor id := funext fun k => (he.worksFor hs hd k).1
  rw [Service.tasksOf, Service.tasksOf, hsame]
  refine numbers_le hle fun k hk _ => ?_
  have hnone : s.work k = none := hs.invariant.numbered k hk
  rw [Service.worksFor, hnone]
  rfl

/-- What is shared changes only in the entry of the event's document. -/
theorem Touches.status (he : s.Touches names document e)
    (hd : document ≠ some id) :
    (s.next e).open? id = s.open? id ∧
      (s.next e).diagnostics.messages = s.diagnostics.messages ∧
      (s.next e).diagnostics.markers.lookup id = s.diagnostics.markers.lookup id := by
  have hm := status_next (s := s) he.isWhole
  generalize hv : (s.next e).status = v at hm
  have hreg : (s.next e).registry = v.registry := congrArg Status.registry hv
  have hdiag : (s.next e).diagnostics = v.diagnostics := congrArg Status.diagnostics hv
  rw [open?, hreg, hdiag]
  cases hm with
  | kept | edited | left | rejected | elapsed | connected => exact ⟨rfl, rfl, rfl⟩
  | opened =>
    cases he with
    | openDocument =>
      have hne : ¬id = _ := fun heq => hd (congrArg some heq.symm)
      refine ⟨?_, rfl, ?_⟩
      · rw [Keyed.lookup_concat, if_neg hne, Option.or_none]
        rfl
      · exact (Keyed.lookup_put _ _ _ _).trans (if_neg hne)
  | closed =>
    cases he with
    | closeDocument =>
      have hne : ¬id = _ := fun heq => hd (congrArg some heq.symm)
      refine ⟨?_, rfl, ?_⟩
      · exact (Keyed.lookup_remove _ _ _).trans (if_neg hne)
      · exact (Keyed.lookup_remove _ _ _).trans (if_neg hne)
  | stopped | told | started => cases he

theorem news_flush_other {request : Nat} (hs : s.Orderly names) (hx : s.session? h = some x)
    (hid : x.id ≠ id) (hr : names.request request ≠ some id) :
    (s.requestFlush request h).news names id = s.news names id := by
  change (s.fresh.1.flush s.nextTask h (.flush request)).news names id = _
  cases ho : x.isClosed with
  | true =>
    rw [flush_closed (s := s.fresh.1) hx ho]
    refine (news_finish _).trans ?_
    rw [if_neg hr]
    rfl
  | false =>
    have hc : s.isConnected = true := hs.invariant.owned.connected ⟨hx, ho⟩
    rw [news_flush (s := s.fresh.1) hx ho hc, if_neg hid]
    rfl

theorem news_answer_other (hs : s.Orderly names) (hw : s.work task = some w)
    (hd : s.documentOf w ≠ some id) (a : Answer) :
    (s.answer task w a).news names id = s.news names id := by
  obtain ⟨document, hdoc, hf⟩ := hs.fits hw
  rw [hdoc] at hd
  have hfinish {t : Service} {request : Nat} (hr : names.request request = document)
      (o : Outcome) : (t.finish task request o).news names id = t.news names id := by
    rw [news_finish, hr, if_neg hd]
    rfl
  cases w with
  | start => cases a <;> rfl
  | sync h t after =>
    cases a with
    | synced result =>
      cases hx : s.session? h with
      | none =>
        rw [documentOf, hx] at hdoc
        subst hdoc
        cases hf
      | some x =>
        rw [documentOf, hx] at hdoc
        subst hdoc
        rw [news_answer hx hf, if_neg fun heq => hd (congrArg some heq)]
        rfl
    | connected | completed | informed | stopped => rfl
  | info request other use =>
    cases hf with
    | info hr =>
      cases a with
      | informed result =>
        cases result with
        | ok => exact hfinish hr _
        | error =>
          refine (hfinish hr _).trans ?_
          rw [news_report, if_neg fun heq => hd (congrArg some heq)]
          rfl
      | connected | completed | synced | stopped => rfl
  | shutdown request =>
    cases hf with
    | shutdown hr =>
      cases a with
      | stopped => exact hfinish hr _
      | connected | completed | synced | informed => rfl
  | debounce | complete | connectTurn | connect => cases hf

theorem news_run_other (hs : s.Orderly names) (hw : s.work task = some w)
    (hd : s.documentOf w ≠ some id) : (s.run task w).news names id = s.news names id := by
  obtain ⟨document, hdoc, hf⟩ := hs.fits hw
  rw [hdoc] at hd
  cases hf with
  | @start other h =>
    obtain ⟨x, hx, rfl⟩ := Option.map_eq_some_iff.mp hdoc
    change (s.push task h .nothing).news names id = _
    cases ho : x.isClosed with
    | true =>
      rw [push_closed hx ho]
      rfl
    | false =>
      have hc : s.isConnected = true := hs.invariant.owned.connected ⟨hx, ho⟩
      rw [news_push hx ho hc, if_neg fun heq => hd (congrArg some heq)]
      rfl
  | push | flush | info | shutdown => rfl

theorem Touches.news (he : s.Touches names document e) (hs : s.Orderly names)
    (hd : document ≠ some id) : (s.next e).news names id = s.news names id := by
  have hmarks {t : Service} (ha : Adds (fun n => ∃ members, n = .running members) s t) :
      t.news names id = s.news names id := news_of_marks ha
  have hne {other : DocumentId} (hd : some other ≠ some id) : other ≠ id :=
    fun heq => hd (congrArg some heq)
  cases he with
  | @openDocument other document channel =>
    change (s.openDocument other document channel).1.news names id = _
    cases hb : s.beginOpen other document channel with
    | error error => rw [openDocument_refused hb]
    | ok p =>
      obtain ⟨_, _, ho⟩ := openDocument_opens hb names
      rw [ho.news, if_neg (hne hd)]
      rfl
  | closeDocument => exact hmarks (adds_closeDocument (fun members => ⟨members, rfl⟩) _)
  | @change other name change hc =>
    refine news_hear fun k hk x hx => ?_
    obtain ⟨y, hy, hchannel⟩ := hs.attached.session_of_mem hk
    obtain rfl := Option.some.inj (hx.symm.trans hy.1)
    rw [← hs.channels hx, hchannel, hc]
    exact hne hd
  | setText => exact hmarks (adds_setText (fun members => ⟨members, rfl⟩) _)
  | setContext => exact hmarks (adds_setContext (fun members => ⟨members, rfl⟩) _ _)
  | closeSession => exact hmarks (adds_closeSession fun members => ⟨members, rfl⟩)
  | flush hx hr => exact news_flush_other hs hx (hne hd) (hr ▸ hd)
  | @info request other p use hr =>
    simp only [Service.next, requestInfo]
    split
    · rw [news_note, Notice.news?, hr, if_neg hd]
      rfl
    · split
      · rfl
      · refine (news_note _).trans ?_
        rw [Notice.news?, if_neg (hne hd)]
        rfl
  | @answer task w a hw =>
    rw [next_answer hw]
    exact news_answer_other hs hw hd a
  | @fire i sleeper x hf hdue hx =>
    rw [next_fire hf hdue, Service.fire]
    split
    · rfl
    · split <;> rfl
  | @run task w hw =>
    rw [next_run hw]
    exact news_run_other hs hw hd

theorem number_congr (hs : t.sessionsOf id = s.sessionsOf id) : t.number id = s.number id := by
  funext h
  rw [number, number, hs]

theorem view_bystander (he : s.Touches names document e) (hs : s.Orderly names)
    (hd : document ≠ some id) : (s.next e).view names id = s.view names id := by
  have hpasses := he.passes hs hd
  have hsessions := he.sessionsOf hs hd
  obtain ⟨howner, hmessages, hmarkers⟩ := he.status hd
  have hset := he.setting hs
  simp only [Service.setting, Prod.mk.injEq] at hset
  have hlooks : (s.next e).looks id = s.looks id := by
    rw [looks, hsessions]
    refine List.map_congr_left fun h hh => ?_
    obtain ⟨x, hx, hid⟩ := mem_sessionsOf.mp hh
    exact hpasses.look h x hx hid
  have hworks : (s.next e).worksOf id = s.worksOf id := by
    rw [worksOf, he.tasksOf hs hd, number_congr hsessions]
    refine List.map_congr_left fun k hk => ?_
    rw [(he.worksFor hs hd k).2 (mem_numbers.mp hk).2]
  have hbusy : (s.next e).running.isBusy id = s.running.isBusy id := hpasses.busy
  simp only [view, hset, hmessages, hlooks, howner, hbusy, hmarkers, number_congr hsessions, hworks,
    he.news hs hd]

end DocSync.Service
