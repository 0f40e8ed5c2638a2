import DocSync.Proofs.DocumentViews
import DocSync.Proofs.MarkerLists

/-!
Events about one document. A session and its timer change only in a part that is about the session,
and the mark of a document only in one about a session of it. A task works for one document from
its start on, and every event that is no matter of all documents concerns at most one.
-/

namespace DocSync.Service

open PushState

variable {v w u : PushState} {d : Deed} {s t : Service} {h i k task : Nat} {x y : Session}
  {id : DocumentId}

/-- The part is about a session. -/
def Deed.IsAbout (v : PushState) (h : Nat) : Deed → Prop
  | .aside => False
  | .opened k => k = h
  | .edited k => k = h
  | .pushed k => k = h
  | .fired k => k = h
  | .closed k => k = h
  | .answered task => ∃ t after, v.work task = some (.sync h t after)

/-- Timers and sleeping tasks agree, and closed sessions have none. -/
structure PushState.Ticking (v : PushState) : Prop where
  timed : v.Timed
  sleeping : v.Sleeping
  resting : v.Resting

theorem Part.ticking (hp : Part .inside v d w) (hv : v.Ticking) : w.Ticking :=
  ⟨hp.timed hv.timed, hp.sleeping hv.sleeping, hp.resting hv.sleeping hv.resting⟩

theorem PushState.Ticking.isOpen (hv : v.Ticking) (hx : v.session h = some x)
    (hi : x.timer.pending = some i) : v.IsOpen h x := by
  refine ⟨hx, ?_⟩
  cases hc : x.isClosed with
  | false => rfl
  | true => exact absurd ((hv.resting hx hc).2.symm.trans hi) (Option.some_ne_none i).symm

theorem look?_of (hs : w.session h = v.session h)
    (hf : ∀ x i, v.session h = some x → x.timer.pending = some i →
      w.agenda.find? i = v.agenda.find? i) : w.look? h = v.look? h := by
  simp only [PushState.look?, PushState.due, hs]
  cases hx : v.session h with
  | none => rfl
  | some x =>
    simp only [Option.map_some, Option.bind_some]
    cases hi : x.timer.pending with
    | none => rfl
    | some i => rw [Option.bind_some, Option.bind_some, hf x i hx hi]

/-- A part that is not about a session leaves it as it is. -/
theorem Part.look (hp : Part .inside v d w) (hv : v.Ticking) (hd : ¬d.IsAbout v h) :
    w.look? h = v.look? h := by
  have hother {k : Nat} {y : Session} (hk : k ≠ h)
      (hs : w.session = Function.update v.session k (some y)) : w.session h = v.session h := by
    rw [hs, Function.update_of_ne (Ne.symm hk)]
  cases hp with
  | tasks | connect | disconnect | disown | forgo | ignore => rfl
  | @«open» k =>
    have hk : k ≠ h := hd
    refine look?_of (hother hk rfl) fun x i hx hi => ?_
    exact find?_schedule_other hv.timed (hv.isOpen hx hi) hi (Option.some_ne_none _).symm
      _ _
  | @edit k z document deadline hz ho =>
    have hk : k ≠ h := hd
    refine look?_of (hother hk rfl) fun x i hx hi => ?_
    have hxo := hv.isOpen hx hi
    exact find?_schedule_other hv.timed hxo hi (hv.timed.apart ⟨hz, ho⟩ hxo hk.symm hi) _ _
  | @flush k z task after hz ho =>
    have hk : k ≠ h := hd
    refine look?_of (hother hk rfl) fun x i hx hi => ?_
    exact find?_cancel_other hv.timed (hv.isOpen hx hi) ⟨hz, ho⟩ hk hi
  | @stall k z hz ho =>
    have hk : k ≠ h := hd
    refine look?_of (hother hk rfl) fun x i hx hi => ?_
    exact find?_cancel_other hv.timed (hv.isOpen hx hi) ⟨hz, ho⟩ hk hi
  | @start k =>
    have hk : k ≠ h := hd
    exact look?_of (hother hk rfl) fun _ _ _ _ => rfl
  | @fire j sleeper z timer hj hz =>
    have hk : sleeper.job.session ≠ h := hd
    refine look?_of (hother hk rfl) fun x i hx hi => ?_
    obtain ⟨other, hf, hjob⟩ := hv.timed.armed (hv.isOpen hx hi) hi
    have hij : i ≠ j := by
      rintro rfl
      obtain rfl := Option.some.inj (hj.symm.trans hf)
      exact hk (congrArg Debounce.session hjob)
    exact (Agenda.find?_drop _ _ _).trans (if_neg hij)
  | @expire j sleeper hj hz =>
    obtain ⟨z, hz', _, hg⟩ := hv.sleeping hj
    have hnone := hz z hz'.1
    simp [Timer.fire?, hg] at hnone
  | @accept task k t after z _ hw =>
    have hk : k ≠ h := by
      rintro rfl
      exact hd ⟨t, after, hw⟩
    exact look?_of (hother hk rfl) fun _ _ _ _ => rfl
  | @refuse task k t after z _ hw =>
    have hk : k ≠ h := by
      rintro rfl
      exact hd ⟨t, after, hw⟩
    exact look?_of (hother hk rfl) fun _ _ _ _ => rfl
  | @close k z hz ho =>
    have hk : k ≠ h := hd
    refine look?_of (hother hk rfl) fun x i hx hi => ?_
    exact find?_cancel_other hv.timed (hv.isOpen hx hi) ⟨hz, ho⟩ hk hi

/-- A document stays marked, or not, in a part that is about no session of it. -/
theorem Part.busy (hp : Part .inside v d w)
    (hd : ∀ h x, d.IsAbout v h → w.session h = some x → x.id ≠ id) :
    w.running.isBusy id = v.running.isBusy id := by
  have hmark {r : RunningSet} {other : DocumentId} (hne : other ≠ id) :
      (r.markBusy other).1.isBusy id = r.isBusy id := by
    rw [isBusy_markBusy, beq_eq_false_iff_ne.mpr (Ne.symm hne), Bool.false_or]
  have hclear {r : RunningSet} {other : DocumentId} (hne : other ≠ id) :
      (r.markIdle other).1.isBusy id = r.isBusy id := by
    rw [isBusy_markIdle, bne_iff_ne.mpr (Ne.symm hne), Bool.true_and]
  cases hp with
  | tasks | connect | disconnect | disown | forgo | ignore | start | fire | expire | refuse => rfl
  | @«open» k => exact hmark (hd k _ rfl (Function.update_self k _ _))
  | @edit k =>
    have hid := hd k _ rfl (Function.update_self k _ _)
    exact hmark hid
  | @flush k x =>
    have hid := hd k _ rfl (Function.update_self k _ _)
    rw [send_id] at hid
    exact hmark hid
  | @stall k =>
    have hid := hd k _ rfl (Function.update_self k _ _)
    exact hmark hid
  | @accept task k t after x _ hw =>
    have hid := hd k _ ⟨t, after, hw⟩ (Function.update_self k _ _)
    rw [settle_id] at hid
    exact hclear hid
  | @close k =>
    have hid := hd k _ rfl (Function.update_self k _ _)
    exact hclear hid

/-- Parts about sessions of other documents leave the sessions and the mark of a document alone. -/
structure PushState.Passes (v w : PushState) (id : DocumentId) : Prop where
  look : ∀ h x, v.session h = some x → x.id = id → w.look? h = v.look? h
  busy : w.running.isBusy id = v.running.isBusy id

theorem PushState.Passes.refl (v : PushState) (id : DocumentId) : v.Passes v id :=
  ⟨fun _ _ _ _ => rfl, rfl⟩

theorem Parts.passes {P : Deed → Prop} (hp : Parts .inside P v w) (hv : v.Ticking)
    (hP : ∀ d, P d → d = .aside ∨ ∃ h x, v.session h = some x ∧ x.id ≠ id ∧
      (d = .edited h ∨ d = .pushed h ∨ d = .fired h ∨ d = .closed h)) : v.Passes w id := by
  induction hp with
  | refl => exact .refl v id
  | @tail u w d hu hq hd ih =>
    have hother {h : Nat} (ha : d.IsAbout u h) :
        ∃ y, u.session h = some y ∧ y.id ≠ id := by
      rcases hP d hd with rfl | ⟨k, x, hx, hid, hk⟩
      · exact ha.elim
      · obtain ⟨y, hy, he⟩ := hu.evolves hx
        have hkh : k = h := by
          rcases hk with rfl | rfl | rfl | rfl <;> exact ha
        subst hkh
        exact ⟨y, hy, he.id ▸ hid⟩
    constructor
    · intro h x hx hid
      obtain ⟨y, hy, he⟩ := hu.evolves hx
      refine (hq.look (hu.keep Part.ticking hv) fun ha => ?_).trans (ih.look h x hx hid)
      obtain ⟨z, hz, hne⟩ := hother ha
      obtain rfl := Option.some.inj (hy.symm.trans hz)
      exact hne (he.id.trans hid)
    · refine (hq.busy fun h x ha hx => ?_).trans ih.busy
      obtain ⟨y, hy, hne⟩ := hother ha
      obtain ⟨z, hz, he⟩ := hq.evolves hy
      obtain rfl := Option.some.inj (hx.symm.trans hz)
      exact he.id ▸ hne

/-- A task for a document, and its request is one about that document. -/
inductive Work.Fits (names : Names) : Option DocumentId → Work → Prop where
  | start {id : DocumentId} {h : Nat} : Fits names (some id) (.start h)
  | push {id : DocumentId} {h : Nat} {t : Ticket} : Fits names (some id) (.sync h t .nothing)
  | flush {id : DocumentId} {h request : Nat} {t : Ticket}
      (hr : names.request request = some id) : Fits names (some id) (.sync h t (.flush request))
  | info {id : DocumentId} {request : Nat} {use : InfoUse} (hr : names.request request = some id) :
      Fits names (some id) (.info request id use)
  | shutdown {request : Nat} (hr : names.request request = none) :
      Fits names none (.shutdown request)

/-- What holds of a connected service at which nobody asks for completions, if documents do not
share channels. -/
structure Orderly (s : Service) (names : Names) : Prop where
  invariant : PushInvariant s.pushState
  ticking : s.pushState.Ticking
  attached : s.Attached
  registered : s.pushState.Registered
  registry : (s.registry.map Prod.fst).Nodup
  linked : s.link = .made
  channels : ∀ {h x}, s.session? h = some x → names.channel x.channel = x.id
  tasks : ∀ {k w}, s.work k = some w → w.Fits names (s.documentOf w)

theorem Orderly.fits {names : Names} {w : Work} (ho : s.Orderly names)
    (hw : s.work task = some w) : ∃ document, s.documentOf w = document ∧ w.Fits names document :=
  ⟨_, rfl, ho.tasks hw⟩

/-- The document that an event is about, if the event does not matter to all of them. -/
inductive Touches (s : Service) (names : Names) : Option DocumentId → Event → Prop where
  | openDocument {id : DocumentId} {document : Document} {channel : String}
      (hc : names.channel channel = id) :
      Touches s names (some id) (.openDocument id document channel)
  | closeDocument {id : DocumentId} : Touches s names (some id) (.closeDocument id)
  | change {id : DocumentId} {channel : String} {change : ContentChange}
      (hc : names.channel channel = id) : Touches s names (some id) (.change channel change)
  | setText {h : Nat} {x : Session} {text : List Char} (hx : s.session? h = some x) :
      Touches s names (some x.id) (.setText h text)
  | setContext {h : Nat} {x : Session} {before after : List Char} (hx : s.session? h = some x) :
      Touches s names (some x.id) (.setContext h before after)
  | closeSession {h : Nat} {x : Session} (hx : s.session? h = some x) :
      Touches s names (some x.id) (.closeSession h)
  | flush {request h : Nat} {x : Session} (hx : s.session? h = some x)
      (hr : names.request request = some x.id) : Touches s names (some x.id) (.flush request h)
  | info {request : Nat} {id : DocumentId} {p : EditorPosition} {use : InfoUse}
      (hr : names.request request = some id) :
      Touches s names (some id) (.info request id p use)
  | answer {task : Nat} {w : Work} {a : Answer} (hw : s.work task = some w) :
      Touches s names (s.documentOf w) (.answer task a)
  | fire {i : Nat} {sleeper : Sleeper Debounce} {x : Session}
      (hf : s.agenda.find? i = some sleeper) (hd : sleeper.deadline ≤ s.now)
      (hx : s.session? sleeper.job.session = some x) : Touches s names (some x.id) (.fire i)
  | run {task : Nat} {w : Work} (hw : s.work task = some w) :
      Touches s names (s.documentOf w) (.run task)

variable {names : Names} {document : Option DocumentId} {e : Event} {w : Work}

theorem Touches.isWhole (hc : Touches s names document e) : e.isWhole = true := by
  cases hc <;> rfl

/-- A task works for the document of the event that started it or moved it. -/
theorem Touches.begins (hc : Touches s names document e) (ho : s.Orderly names)
    (hb : Begins s e w) : s.documentOf w = document ∧ w.Fits names document := by
  cases hc with
  | openDocument | closeDocument | change | setText | setContext | closeSession => cases hb
  | flush hx hr =>
    cases hb with
    | flush => exact ⟨by simp only [documentOf, hx, Option.map_some], .flush hr⟩
  | info hr =>
    cases hb with
    | info => exact ⟨rfl, .info hr⟩
  | answer hw =>
    cases hb with
    | complete hw' =>
      obtain rfl := Option.some.inj (hw.symm.trans hw')
      obtain ⟨_, _, hf⟩ := ho.fits hw
      cases hf
  | fire hf _ hx =>
    cases hb with
    | start hf' =>
      obtain rfl := Option.some.inj (hf.symm.trans hf')
      exact ⟨by simp only [documentOf, hx, Option.map_some], .start⟩
  | run hw =>
    cases hb with
    | push hw' hx =>
      obtain rfl := Option.some.inj (hw.symm.trans hw')
      refine ⟨rfl, ?_⟩
      rw [documentOf, hx, Option.map_some]
      exact .push
    | elapse hw' =>
      obtain rfl := Option.some.inj (hw.symm.trans hw')
      obtain ⟨_, _, hf⟩ := ho.fits hw
      cases hf
    | skip hw' =>
      obtain rfl := Option.some.inj (hw.symm.trans hw')
      obtain ⟨_, _, hf⟩ := ho.fits hw
      cases hf
    | reconnect hw' =>
      obtain rfl := Option.some.inj (hw.symm.trans hw')
      obtain ⟨_, _, hf⟩ := ho.fits hw
      cases hf

/-- The clock with its delay, and how the service stands to its server. -/
def setting (s : Service) : Nat × Nat × Bool × Bool × Bool × Link :=
  (s.now, s.syncDelay, s.isStopped, s.isConnected, s.isListening, s.link)

theorem setting_of_base (hb : t.base = s.base) : t.setting = s.setting :=
  congrArg (fun b => (b.1.1, b.1.2.1, b.2)) hb

theorem Touches.setting (he : s.Touches names document e) (hs : s.Orderly names) :
    (s.next e).setting = s.setting := by
  cases he with
  | openDocument => exact setting_of_base (base_openDocument _ _ _)
  | closeDocument =>
    simp only [Service.next, Service.closeDocument]
    split
    · rfl
    · exact setting_of_base base_closeSession
  | change => exact setting_of_base (base_of_outlineKept (outlineKept_fireChannel _ _))
  | setText => exact setting_of_base (base_of_outlineKept (outlineKept_setText _))
  | setContext => exact setting_of_base (base_of_outline (outline_setContext _ _))
  | closeSession => exact setting_of_base base_closeSession
  | flush => exact setting_of_base (base_flush (s := s.fresh.1) _)
  | info =>
    simp only [Service.next, requestInfo]
    split
    · rfl
    · split <;> rfl
  | @answer task w a hw =>
    obtain ⟨_, _, hf⟩ := hs.fits hw
    simp only [next_answer hw, Service.answer]
    split
    · rw [setting_of_base (base_afterPush _ _),
        setting_of_base (base_of_outline (outline_completePush _ _))]
      rfl
    · rfl
    · rfl
    · rfl
    · rfl
    · cases hf
    · rfl
    · rfl
  | @fire i sleeper x hf hd hx =>
    rw [next_fire hf hd, Service.fire]
    split
    · rfl
    · split <;> rfl
  | @run task w hw =>
    obtain ⟨_, _, hf⟩ := hs.fits hw
    rw [next_run hw]
    cases hf with
    | start => exact setting_of_base (base_push _)
    | push | flush | info | shutdown => rfl

/-- The events that matter to all documents. -/
inductive Shared (names : Names) : Event → Prop where
  | pass {time : Nat} : Shared names (.pass time)
  | receive {event : ServerEvent} : Shared names (.receive event)
  | endStream : Shared names .endStream
  | shutdown {request : Nat} (hr : names.request request = none) : Shared names (.shutdown request)
  | connect {request : Nat} (hr : names.request request = none) : Shared names (.connect request)

theorem Shared.isWhole (he : Shared names e) : e.isWhole = true := by
  cases he <;> rfl

theorem requestConnect_made (hl : s.link = .made) (request : Nat) :
    ∃ result, s.requestConnect request = s.note (.finished request (.done result)) := by
  simp only [requestConnect, hl]
  split
  · exact ⟨_, rfl⟩
  · exact ⟨_, rfl⟩

theorem link_of_base (hb : t.base = s.base) : t.link = s.link :=
  congrArg (fun b => b.2.2.2.2) hb

theorem Shared.link (hl : s.link = .made) (he : Shared names e) : (s.next e).link = .made := by
  cases he with
  | pass | endStream => exact hl
  | receive =>
    simp only [Service.next, Service.receive]
    split
    · split
      · exact (link_of_base (base_tell _)).trans hl
      · exact hl
    · exact hl
  | shutdown =>
    simp only [Service.next, requestShutdown]
    split
    · exact hl
    · let u : Service := { s with isStopped := true, wait := s.wait.cancel, registry := [] }
      have hretire : (u.retireEach s.registry).link = u.link :=
        link_of_base (base_retireEach s.registry)
      exact hretire.trans hl
  | @connect request =>
    obtain ⟨_, he⟩ := requestConnect_made hl request
    simp only [Service.next, he]
    exact hl

/-- A task works for the same document as long as it waits for the same. -/
theorem documentOf_of_fits {P : Deed → Prop} (hp : Parts .inside P s.pushState t.pushState)
    (hf : w.Fits names (s.documentOf w)) : t.documentOf w = s.documentOf w := by
  have hsession {h : Nat} (hs : (s.session? h).isSome = true) :
      (t.session? h).map Session.id = (s.session? h).map Session.id := by
    obtain ⟨x, hx⟩ := Option.isSome_iff_exists.mp hs
    obtain ⟨y, hy, he⟩ := hp.evolves hx
    have hy : t.session? h = some y := hy
    rw [hx, hy, Option.map_some, Option.map_some, he.id]
  cases w with
  | start h =>
    refine hsession (h := h) ?_
    cases hx : s.session? h with
    | some x => rfl
    | none =>
      rw [documentOf, hx] at hf
      cases hf
  | sync h ticket after =>
    refine hsession (h := h) ?_
    cases hx : s.session? h with
    | some x => rfl
    | none =>
      rw [documentOf, hx] at hf
      cases hf
  | debounce | complete | info | connectTurn | connect | shutdown => rfl

/-- The channel of a session stays, and a new session has one of its document. -/
theorem channels_next (hs : s.Orderly names)
    (he : (∃ document, s.Touches names document e) ∨ Shared names e)
    (hy : (s.next e).session? h = some y) : names.channel y.channel = y.id := by
  have hwhole : e.isWhole = true := by
    rcases he with ⟨_, he⟩ | he
    · exact he.isWhole
    · exact he.isWhole
  have hp := (next_parts hs.invariant.numbered hwhole).parts trivial
  cases hx : s.session? h with
  | some x =>
    obtain ⟨z, hz, hev⟩ := hp.evolves hx
    obtain rfl := Option.some.inj (hy.symm.trans hz)
    rw [hp.channel hx hy, hev.id]
    exact hs.channels hx
  | none =>
    by_cases hopen : ∃ id document channel, e = .openDocument id document channel
    · obtain ⟨id, document, channel, rfl⟩ := hopen
      have hc : names.channel channel = id := by
        rcases he with ⟨_, he⟩ | he
        · cases he with
          | openDocument hc => exact hc
        · cases he
      have hy : (s.openDocument id document channel).1.pushState.session h = some y := hy
      rcases openDocument_cases s id document channel with he | ⟨_, _, _, _, he⟩
      · rw [he] at hy
        exact absurd (hx.symm.trans hy) (Option.some_ne_none y).symm
      · rw [he] at hy
        rcases update_cases hy with ⟨_, rfl⟩ | ⟨_, hy⟩
        · exact hc
        · exact absurd (hx.symm.trans hy) (Option.some_ne_none y).symm
    · have hnone : (s.next e).session? h = none := by
        refine hp.unopened (fun d hd => ?_) hx
        rintro rfl
        cases e with
        | openDocument => exact hopen ⟨_, _, _, rfl⟩
        | _ => exact hd
      exact absurd (hnone.symm.trans hy) (Option.some_ne_none y).symm

theorem Orderly.next (hs : s.Orderly names)
    (he : (∃ document, s.Touches names document e) ∨ Shared names e) :
    (s.next e).Orderly names := by
  have hwhole : e.isWhole = true := by
    rcases he with ⟨_, he⟩ | he
    · exact he.isWhole
    · exact he.isWhole
  have hp := (next_parts hs.invariant.numbered hwhole).parts trivial
  have hunused : s.work s.nextTask = none := hs.invariant.numbered _ (Nat.le_refl _)
  constructor
  · exact next_invariant hs.invariant hwhole
  · exact hp.keep Part.ticking hs.ticking
  · exact next_attached hs.invariant.numbered hwhole hs.attached
  · exact hp.keep Part.registered hs.registered
  · exact (status_next hwhole).registry_nodup hs.registry
  · rcases he with ⟨_, he⟩ | he
    · have hset := he.setting hs
      exact (congrArg (fun p => p.2.2.2.2.2) hset).trans hs.linked
    · exact he.link hs.linked
  · exact channels_next hs he
  · intro k w hw
    have hfits : w.Fits names (s.documentOf w) := by
      rcases work_next hunused hw with hw' | ⟨_, hb⟩
      · exact hs.tasks hw'
      · rcases he with ⟨document, he⟩ | he
        · obtain ⟨rfl, hf⟩ := he.begins hs hb
          exact hf
        · cases he with
          | shutdown hr =>
            cases hb with
            | shutdown => exact .shutdown hr
          | @connect request =>
            obtain ⟨_, he⟩ := requestConnect_made hs.linked request
            simp only [Service.next, he] at hw
            exact hs.tasks hw
          | pass | receive | endStream => cases hb
    rw [documentOf_of_fits hp hfits]
    exact hfits

theorem titles_openDocument (s : Service) (id : DocumentId) (document : Document)
    (channel : String) :
    (s.openDocument id document channel).1.titles = s.titles ∨
      (s.openDocument id document channel).1.titles = s.titles ++ [id] := by
  rcases openDocument_cases s id document channel with he | ⟨_, _, _, _, he⟩
  · exact Or.inl (congrArg titles he)
  · refine Or.inr (List.ext_getElem? fun h => ?_)
    have hl : s.titles.length = s.sessions.length := List.length_map _
    obtain ⟨y, hid, hy⟩ : ∃ y : Session, y.id = id ∧
        (s.openDocument id document channel).1.pushState.session =
          Function.update s.pushState.session s.sessions.length (some y) := by
      rw [he]
      refine ⟨_, ?_, rfl⟩
      rfl
    rw [← title_eq]
    refine (congrArg (fun f => (f h).map Session.id) hy).trans ?_
    by_cases hh : h = s.sessions.length
    · subst hh
      rw [Function.update_self, Option.map_some, hid, ← hl, List.getElem?_concat_length]
    · rw [Function.update_of_ne hh]
      refine (title_eq s h).trans ?_
      by_cases hlt : h < s.titles.length
      · rw [List.getElem?_append_left hlt]
      · have hnone : (s.titles ++ [id])[h]? = none := by
          refine List.getElem?_eq_none ?_
          rw [List.length_append, List.length_singleton]
          omega
        rw [hnone]
        exact List.getElem?_eq_none (Nat.le_of_not_lt hlt)

theorem titles_next (hn : s.pushState.Numbered) (he : e.isWhole = true)
    (ho : ∀ id, ¬∃ document channel, e = .openDocument id document channel) :
    (s.next e).titles = s.titles := by
  refine titles_of_parts ((next_parts hn he).parts trivial) fun d hd h => ?_
  rintro rfl
  cases e with
  | openDocument => exact ho _ ⟨_, _, rfl⟩
  | _ => exact hd

end DocSync.Service
