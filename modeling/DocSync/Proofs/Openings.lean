import DocSync.Proofs.Interruptions

/-!
What a refused opening leaves behind. An opening that is refused before its session is started
changes nothing. One that another opening of the document overtakes has started a session by then;
it takes the session back, and with it the mark of the document, which the other session needs.
-/

namespace DocSync.Service

open PushState

variable {s t u : Service} {v w : PushState} {d : Deed} {h k : Nat} {x : Session}
  {id : DocumentId} {document : Document} {channel name : String}

/-- Nothing changes but one session, who hears the channels, and the marks. -/
structure Beside (s t : Service) (h : Nat) : Prop where
  registry : t.registry = s.registry
  diagnostics : t.diagnostics = s.diagnostics
  wait : t.wait = s.wait
  tasks : t.tasks = s.tasks
  base : t.base = s.base
  others : ∀ k, k ≠ h →
    t.session? k = s.session? k ∧ t.pushState.look? k = s.pushState.look? k

/-- What an opening has done when its session is started. -/
structure HalfOpen (s t : Service) (h : Nat) (id : DocumentId) (channel : String) : Prop where
  beside : s.Beside t h
  handlers : ∀ name, (t.channel name).handlers.map Prod.snd =
    (s.channel name).handlers.map Prod.snd ++ if name = channel then [h] else []
  running : t.running = (s.running.markBusy id).1

/-- What an opening does that finds its document open when it is to register its session. -/
structure Undone (t u : Service) (h : Nat) (x : Session) : Prop where
  beside : t.Beside u h
  closed : ∀ y, u.session? h = some y → y.isClosed = true
  handlers : ∀ name, (u.channel name).handlers.map Prod.snd =
    ((t.channel name).handlers.map Prod.snd).filter fun k => k != h
  running : u.running = if x.isClosed then t.running else (t.running.markIdle x.id).1

/-- What registering a session changes. -/
structure Registers (t u : Service) (h : Nat) (x : Session) : Prop where
  registry : u.registry = t.registry ++ [(x.id, h)]
  diagnostics : u.diagnostics = (t.diagnostics.publish x.id x.document.shift).1
  channels : u.channels = t.channels
  running : u.running = t.running
  wait : u.wait = t.wait
  tasks : u.tasks = t.tasks
  base : u.base = t.base
  sessions : ∀ k, u.session? k = t.session? k ∧ u.pushState.look? k = t.pushState.look? k

/-- How an opening ends whose session is started. -/
structure Finishes (t : Service) (h : Nat) (id : DocumentId) : Prop where
  wins : t.open? id = none → (t.finishOpen h).2 = .ok h ∧
    ∃ x, t.session? h = some x ∧ x.id = id ∧ t.Registers (t.finishOpen h).1 h x
  loses : ∀ k, t.open? id = some k → k ≠ h ∧
    (t.finishOpen h).2 = .error (.alreadyOpen id) ∧
      ∃ x, t.session? h = some x ∧ x.id = id ∧ t.Undone (t.finishOpen h).1 h x

theorem Part.others (hp : Part .inside v d w) (hv : v.Ticking) (hd : d = .opened h ∨ d = .closed h)
    (hk : k ≠ h) : w.session k = v.session k ∧ w.look? k = v.look? k := by
  have habout : ¬d.IsAbout v k := by
    rcases hd with rfl | rfl
    · exact fun ha => hk ha.symm
    · exact fun ha => hk ha.symm
  refine ⟨?_, hp.look hv habout⟩
  rcases hd with rfl | rfl
  · cases hp with
    | «open» => exact Function.update_of_ne hk _ _
  · cases hp with
    | close => exact Function.update_of_ne hk _ _

theorem beside_of_outline {opening : List Nat}
    (ho : t.outline = { s.outline with channels := t.channels, opening := opening })
    (hothers : ∀ k, k ≠ h →
      t.session? k = s.session? k ∧ t.pushState.look? k = s.pushState.look? k) :
    s.Beside t h := by
  have hregistry := congrArg Service.registry ho
  have hdiagnostics := congrArg Service.diagnostics ho
  have hwait := congrArg Service.wait ho
  have htasks := congrArg Service.tasks ho
  have hbase := congrArg Service.base ho
  exact ⟨hregistry, hdiagnostics, hwait, htasks, hbase, hothers⟩

theorem Begun.others (hb : s.Begun t h id document channel) (hr : s.refusal? id = none)
    (hs : s.Coherent) (hk : k ≠ h) :
    t.session? k = s.session? k ∧ t.pushState.look? k = s.pushState.look? k := by
  obtain ⟨w, hp, he⟩ := hb.part hr
  have hothers := hp.others hs.ticking (Or.inl rfl) hk
  have hsession : t.pushState.session k = w.session k := congrFun (congrArg PushState.session he) k
  have hlook : t.pushState.look? k = w.look? k := by
    rw [he]
    rfl
  exact ⟨hsession.trans hothers.1, hlook.trans hothers.2⟩

theorem Begun.halfOpen (hb : s.Begun t h id document channel) (hr : s.refusal? id = none)
    (hs : s.Coherent) : s.HalfOpen t h id channel where
  beside := beside_of_outline hb.outline fun _ hk => hb.others hr hs hk
  handlers name := by
    rw [channel_put _ hb.channels]
    by_cases hn : name = channel
    · subst hn
      simp [Signal.attach]
    · simp [hn]
  running := congrArg PushState.running hb.state

theorem handlers_without (hn : h ∉ (s.channel name).handlers.map Prod.snd) :
    (s.channel name).handlers.map Prod.snd =
      ((s.channel name).handlers.map Prod.snd).filter fun k => k != h := by
  refine (List.filter_eq_self.mpr fun k hk => ?_).symm
  rw [bne_iff_ne]
  rintro rfl
  exact hn hk

/-- A session that is closed is taken from its channel, and from no other. -/
theorem Attached.handlers_detach {i : Nat} (hs : s.Attached)
    (hx : s.pushState.wire h = some (channel, some i, false))
    (hc : t.channels = Keyed.put channel ((s.channel channel).detach i) s.channels)
    (name : String) : (t.channel name).handlers.map Prod.snd =
      ((s.channel name).handlers.map Prod.snd).filter fun k => k != h := by
  have hi : (i, h) ∈ (s.channel channel).handlers := by
    obtain ⟨j, hj, hm⟩ := hs.handler hx
    rwa [Option.some.inj hj]
  rw [channel_put _ hc]
  by_cases hn : name = channel
  · subst hn
    rw [if_pos rfl, List.filter_map]
    refine congrArg (List.map Prod.snd) (List.filter_congr ?_)
    rintro ⟨j, k⟩ hm
    rw [Bool.eq_iff_iff, bne_iff_ne, Function.comp_apply, bne_iff_ne, not_iff_not]
    constructor
    · intro hj
      exact hs.eq_of_mem (hj ▸ hm) hi
    · intro hk
      have hk : k = h := hk
      subst hk
      cases (hs.session hm).symm.trans hx
      rfl
  · rw [if_neg hn]
    refine handlers_without fun hm => ?_
    obtain ⟨⟨j, k⟩, hj, hk⟩ := List.mem_map.mp hm
    have hk : k = h := hk
    rw [hk] at hj
    cases (hs.session hj).symm.trans hx
    exact hn rfl

/-- The session is closed, and all of it that shows elsewhere is taken back. -/
theorem undone_closeSession (ht : t.Coherent) (hx : t.session? h = some x) :
    t.Undone (({ t with opening := t.opening.erase h } : Service).closeSession h) h x := by
  let s : Service := { t with opening := t.opening.erase h }
  have hs : s.Attached :=
    ⟨ht.attached.session, ht.attached.handler, ht.attached.fresh, ht.attached.once⟩
  have hx : s.session? h = some x := hx
  have hout := outline_closeSession (s := s) (h := h)
  cases ho : x.isClosed with
  | true =>
    have hsame : s.closeSession h = s := closeSession_closed hx ho
    change t.Undone (s.closeSession h) h x
    rw [hsame]
    refine ⟨beside_of_outline rfl fun _ _ => ⟨rfl, rfl⟩, ?_, fun name => ?_, by rw [if_pos ho]⟩
    · intro y hy
      obtain rfl := Option.some.inj (hx.symm.trans hy)
      exact ho
    · refine handlers_without fun hm => ?_
      obtain ⟨y, hy, _⟩ := hs.session_of_mem hm
      obtain rfl := Option.some.inj (hx.symm.trans hy.1)
      exact Bool.false_ne_true (hy.2.symm.trans ho)
  | false =>
    have hstate : (s.closeSession h).pushState = s.pushState.close h x :=
      pushState_closeSession hx ho
    have hpart : Part .inside t.pushState (.closed h) (s.closeSession h).pushState :=
      hstate ▸ .close hx ho
    have hwire : s.pushState.wire h = some (x.channel, x.subscription, false) := by
      have hx' : s.pushState.session h = some x := hx
      simp only [PushState.wire, hx', Option.map_some, Session.wire, ho]
    obtain ⟨i, hi, _⟩ := hs.handler hwire
    refine ⟨beside_of_outline hout fun _ hk => hpart.others ht.ticking (Or.inr rfl) hk, ?_, ?_, ?_⟩
    · intro y hy
      have hclosed := congrFun (congrArg PushState.session hstate) h
      obtain rfl := Option.some.inj
        ((hclosed.trans (Function.update_self h _ _)).symm.trans hy)
      rfl
    · exact hs.handlers_detach (hi ▸ hwire) (channels_closeSession hx ho hi)
    · rw [if_neg (by simp [ho])]
      exact congrArg PushState.running hstate

theorem finishOpen_registers (hx : t.session? h = some x) (ho : t.open? x.id = none) :
    t.Registers (t.finishOpen h).1 h x := by
  have hstate := finishOpen_ok hx ho
  have hstatus := status_finishOpen hx ho
  refine ⟨congrArg Status.registry hstatus, congrArg Status.diagnostics hstatus,
    channels_finishOpen hx ho, congrArg PushState.running hstate, congrArg Status.wait hstatus,
    ?_, base_finishOpen, fun k => ⟨congrFun (congrArg PushState.session hstate) k, ?_⟩⟩
  · have hopen : ({ t with opening := t.opening.erase h } : Service).open? x.id = none := ho
    simp only [finishOpen, hx, hopen, Option.isSome_none, Bool.false_eq_true, ↓reduceIte]
    rfl
  · rw [hstate]
    rfl

theorem finishes (ht : t.Coherent) (hv : t.pushState.Unregistered h id) : t.Finishes h id := by
  obtain ⟨⟨x, hx, rfl⟩, hown⟩ := hv
  constructor
  · intro ho
    exact ⟨finishOpen_wins hx ho, x, hx, rfl, finishOpen_registers hx ho⟩
  · intro k ho
    have hk : k ≠ h := fun hk => hown x.id (hk ▸ ho)
    rw [finishOpen_loses hx ho]
    exact ⟨hk, rfl, x, hx, rfl, undone_closeSession ht hx⟩

theorem Begun.session (hb : s.Begun t h id document channel) :
    ∃ x, t.session? h = some x ∧ x.id = id ∧ x.document = document ∧ x.isClosed = false := by
  have hsession := congrFun (congrArg PushState.session hb.state) h
  exact ⟨_, hsession.trans (Function.update_self h _ _), rfl, rfl, rfl⟩

theorem openDocument_registers (hr : s.refusal? id = none) (document : Document)
    (channel : String) :
    ∃ t, s.Begun t s.sessions.length id document channel ∧ t.open? id = none ∧
      s.openDocument id document channel = t.finishOpen s.sessions.length := by
  obtain ⟨t, hb, hbegun⟩ := beginOpen_begins hr document channel
  have hregistry : t.registry = s.registry := by
    have hout := congrArg Service.registry hbegun.outline
    exact hout
  have hopen : t.open? id = none := by
    rw [open?, hregistry]
    exact (refusal?_eq_none.mp hr).2.2
  refine ⟨t, hbegun, hopen, ?_⟩
  simp only [openDocument, hb]

theorem openDocument_refusal {error : Failure} (hr : s.refusal? id = some error)
    (document : Document) (channel : String) :
    s.openDocument id document channel = (s, .error error) := by
  simp only [openDocument, beginOpen_refused hr]

theorem Begun.length (hb : s.Begun t h id document channel) : t.sessions.length = h + 1 := by
  have hlast : t.session? h = some _ := hb.session.choose_spec.1
  have hnext : t.session? (h + 1) = none := by
    have hsession := congrFun (congrArg PushState.session hb.state) (h + 1)
    refine (hsession.trans (Function.update_of_ne (Nat.succ_ne_self h) _ _)).trans ?_
    rw [hb.number]
    exact List.getElem?_eq_none (Nat.le_succ _)
  obtain ⟨hlt, _⟩ := List.getElem?_eq_some_iff.mp hlast
  have hle := List.getElem?_eq_none_iff.mp hnext
  omega

theorem Begun.look (hb : s.Begun t h id document channel) (hs : s.Coherent) :
    t.pushState.look? h = some ⟨document, 1, .pending 1, false, channel, some s.now⟩ := by
  have hfree : s.pushState.agenda.find? s.pushState.agenda.nextId = none := by
    cases hf : s.pushState.agenda.find? s.pushState.agenda.nextId with
    | none => rfl
    | some sleeper => exact absurd (hs.ticking.timed.fresh hf) (Nat.lt_irrefl _)
  rw [hb.state]
  exact look?_arm hfree _

theorem Beside.refusal? (hb : s.Beside t h) : t.refusal? id = s.refusal? id := by
  have hstopped : t.isStopped = s.isStopped := congrArg (fun b => b.2.1) hb.base
  have hconnected : t.isConnected = s.isConnected := congrArg (fun b => b.2.2.1) hb.base
  rw [Service.refusal?, Service.refusal?, open?, open?, hb.registry, hstopped, hconnected]

/-- What an opening in one go changes that is not refused. -/
structure Opens (s t : Service) (id : DocumentId) (document : Document) (channel : String) :
    Prop where
  registry : t.registry = s.registry ++ [(id, s.sessions.length)]
  diagnostics : t.diagnostics = (s.diagnostics.publish id document.shift).1
  wait : t.wait = s.wait
  tasks : t.tasks = s.tasks
  base : t.base = s.base
  others : ∀ k, k ≠ s.sessions.length →
    t.session? k = s.session? k ∧ t.pushState.look? k = s.pushState.look? k
  look : t.pushState.look? s.sessions.length =
    some ⟨document, 1, .pending 1, false, channel, some s.now⟩
  handlers : ∀ name, (t.channel name).handlers.map Prod.snd =
    (s.channel name).handlers.map Prod.snd ++
      if name = channel then [s.sessions.length] else []
  running : t.running = (s.running.markBusy id).1

theorem opens_of_free (hs : s.Coherent) (hr : s.refusal? id = none) (document : Document)
    (channel : String) :
    (s.openDocument id document channel).2 = .ok s.sessions.length ∧
      s.Opens (s.openDocument id document channel).1 id document channel := by
  obtain ⟨t, hb, ho, he⟩ := openDocument_registers hr document channel
  obtain ⟨x, hx, rfl, rfl, _⟩ := hb.session
  have hhalf := hb.halfOpen hr hs
  have hreg := finishOpen_registers hx ho
  rw [he]
  refine ⟨finishOpen_wins hx ho, ?_, ?_, hreg.wait.trans hhalf.beside.wait,
    hreg.tasks.trans hhalf.beside.tasks, hreg.base.trans hhalf.beside.base, ?_, ?_, ?_,
    hreg.running.trans hhalf.running⟩
  · rw [hreg.registry, hhalf.beside.registry]
  · rw [hreg.diagnostics, hhalf.beside.diagnostics]
  · intro k hk
    have hother := hhalf.beside.others k hk
    have hkept := hreg.sessions k
    exact ⟨hkept.1.trans hother.1, hkept.2.trans hother.2⟩
  · exact (hreg.sessions _).2.trans (hb.look hs)
  · intro name
    rw [← hhalf.handlers name, Service.channel, Service.channel, hreg.channels]

/-- An opening that another one of its document overtakes: when the other one is done, it has
started its session. -/
def overtaken (s : Service) (id : DocumentId) (lost : Document) (lostChannel : String)
    (document : Document) (channel : String) : Service × Except Failure Nat :=
  match s.beginOpen id lost lostChannel with
  | .error e => (s, .error e)
  | .ok (t, h) => (t.openDocument id document channel).1.finishOpen h

/-- What is left of an opening that is overtaken, told by what the other one alone leaves: its
session has the next number, and its document has lost the mark. -/
structure Overtaken (id : DocumentId) (h : Nat) (alone both : Service) : Prop where
  owner : alone.open? id = some h ∧ both.open? id = some (h + 1)
  others : ∀ other, other ≠ id → both.open? other = alone.open? other
  diagnostics : both.diagnostics = alone.diagnostics
  wait : both.wait = alone.wait
  tasks : both.tasks = alone.tasks
  base : both.base = alone.base
  earlier : ∀ k, k < h → both.session? k = alone.session? k ∧
    both.pushState.look? k = alone.pushState.look? k
  winner : both.pushState.look? (h + 1) = alone.pushState.look? h
  handlers : ∀ name, (both.channel name).handlers.map Prod.snd =
    ((alone.channel name).handlers.map Prod.snd).map fun k => if k = h then h + 1 else k
  running : both.running = (alone.running.markIdle id).1

theorem Opens.owner (ho : s.Opens t id document channel) (hfree : s.open? id = none)
    (other : DocumentId) :
    t.open? other = if other = id then some s.sessions.length else s.open? other := by
  rw [open?, open?, ho.registry, Keyed.lookup_concat]
  by_cases hid : other = id
  · subst hid
    rw [if_pos rfl, if_pos rfl, show s.registry.lookup other = none from hfree]
    rfl
  · rw [if_neg hid, if_neg hid, Option.or_none]

theorem markBusy_markBusy (r : RunningSet) (id : DocumentId) :
    ((r.markBusy id).1.markBusy id).1 = (r.markBusy id).1 := by
  have hbusy : (r.markBusy id).1.isBusy id = true := by
    rw [isBusy_markBusy, beq_self_eq_true, Bool.true_or]
  rw [RunningSet.markBusy, if_pos hbusy]

/-- The handler of the session that is taken back is gone, and that of the other one is the same
but for its number. -/
theorem handlers_overtaken {handlers : List Nat} (hfresh : ∀ k ∈ handlers, k ≠ h)
    (lost other : Prop) [Decidable lost] [Decidable other] :
    ((handlers ++ if lost then [h] else []) ++ if other then [h + 1] else []).filter
        (fun k => k != h) =
      (handlers ++ if other then [h] else []).map fun k => if k = h then h + 1 else k := by
  have hkept : handlers.filter (fun k => k != h) = handlers :=
    List.filter_eq_self.mpr fun k hk => bne_iff_ne.mpr (hfresh k hk)
  have hnumbered : handlers.map (fun k => if k = h then h + 1 else k) = handlers :=
    (List.map_congr_left fun k hk => if_neg (hfresh k hk)).trans (List.map_id handlers)
  rw [List.filter_append, List.filter_append, List.map_append, hkept, hnumbered]
  by_cases hl : lost <;> by_cases ho : other <;> simp [hl, ho]

/-- A session is started, another one of its document is opened, and the first is taken back: what
is left is compared with what the other one leaves if it is alone. -/
theorem overtaken_of_undone {alone both : Service} {lostChannel : String} (hs : s.Coherent)
    (hfree : s.open? x.id = none) (hlength : t.sessions.length = s.sessions.length + 1)
    (hhalf : s.HalfOpen t s.sessions.length x.id lostChannel)
    (halone : s.Opens alone x.id document channel) (hboth : t.Opens u x.id document channel)
    (hopen : x.isClosed = false) (hundone : u.Undone both s.sessions.length x) :
    Overtaken x.id s.sessions.length alone both := by
  have hkept (other : DocumentId) : t.open? other = s.open? other := by
    rw [open?, open?, hhalf.beside.registry]
  have hown (other : DocumentId) :
      both.open? other = if other = x.id then some t.sessions.length else s.open? other := by
    rw [← hkept, ← hboth.owner ((hkept x.id).trans hfree), open?, open?, hundone.beside.registry]
  refine ⟨⟨?_, ?_⟩, ?_, ?_, ?_, ?_, ?_, ?_, ?_, ?_, ?_⟩
  · rw [halone.owner hfree, if_pos rfl]
  · rw [hown, if_pos rfl, hlength]
  · intro other hother
    rw [hown, if_neg hother, halone.owner hfree, if_neg hother]
  · rw [hundone.beside.diagnostics, hboth.diagnostics, hhalf.beside.diagnostics,
      halone.diagnostics]
  · rw [hundone.beside.wait, hboth.wait, hhalf.beside.wait, halone.wait]
  · rw [hundone.beside.tasks, hboth.tasks, hhalf.beside.tasks, halone.tasks]
  · rw [hundone.beside.base, hboth.base, hhalf.beside.base, halone.base]
  · intro k hk
    have hbothk := hundone.beside.others k (by omega)
    have huk := hboth.others k (by omega)
    have htk := hhalf.beside.others k (by omega)
    have halonek := halone.others k (by omega)
    exact ⟨hbothk.1.trans (huk.1.trans (htk.1.trans halonek.1.symm)),
      hbothk.2.trans (huk.2.trans (htk.2.trans halonek.2.symm))⟩
  · have hnow : t.now = s.now := congrArg (fun b => b.1.1) hhalf.beside.base
    have hwinner := hboth.look
    rw [hlength] at hwinner
    rw [(hundone.beside.others _ (Nat.succ_ne_self _)).2, hwinner, halone.look, hnow]
  · intro name
    have hfresh (k : Nat) (hk : k ∈ (s.channel name).handlers.map Prod.snd) :
        k ≠ s.sessions.length := by
      obtain ⟨y, hy, _⟩ := hs.attached.session_of_mem hk
      obtain ⟨hlt, _⟩ := List.getElem?_eq_some_iff.mp hy.1
      exact Nat.ne_of_lt hlt
    rw [hundone.handlers name, hboth.handlers name, hhalf.handlers name, halone.handlers name,
      hlength]
    exact handlers_overtaken hfresh _ _
  · -- The first mark was the other one's too, and the session that is taken back clears it.
    rw [hundone.running, if_neg (by simp [hopen]), hboth.running, hhalf.running, halone.running,
      markBusy_markBusy]

theorem overtaken_loses (hs : Reachable s) (hr : s.refusal? id = none) (lost : Document)
    (lostChannel : String) (document : Document) (channel : String) :
    (s.overtaken id lost lostChannel document channel).2 = .error (.alreadyOpen id) ∧
      Overtaken id s.sessions.length (s.openDocument id document channel).1
        (s.overtaken id lost lostChannel document channel).1 := by
  have hc := hs.coherent
  have hfree : s.open? id = none := (refusal?_eq_none.mp hr).2.2
  obtain ⟨t, hb, hbegun⟩ := beginOpen_begins hr lost lostChannel
  have hhalf := hbegun.halfOpen hr hc
  have hlength := hbegun.length
  have ht : t.Coherent := by
    have hnext : s.next (.beginOpen id lost lostChannel) = t := by simp only [next, hb]
    exact hnext ▸ coherent_next hc _
  have hrt : t.refusal? id = none := hhalf.beside.refusal?.trans hr
  obtain ⟨_, halone⟩ := opens_of_free hc hr document channel
  obtain ⟨_, hboth⟩ := opens_of_free ht hrt document channel
  have hu : (t.openDocument id document channel).1.Coherent :=
    coherent_next ht (.openDocument id document channel)
  have hovertaken : s.overtaken id lost lostChannel document channel =
      (t.openDocument id document channel).1.finishOpen s.sessions.length := by
    simp only [overtaken, hb]
  rw [hovertaken]
  obtain ⟨x, hx, rfl, _, hopen⟩ := hbegun.session
  have hwinner := hboth.owner (refusal?_eq_none.mp hrt).2.2 x.id
  have hx : (t.openDocument x.id document channel).1.session? s.sessions.length = some x :=
    (hboth.others _ (by omega)).1.trans hx
  rw [finishOpen_loses hx (hwinner.trans (if_pos rfl))]
  have hundone := undone_closeSession hu hx
  exact ⟨rfl, overtaken_of_undone hc hfree hlength hhalf halone hboth hopen hundone⟩

/-- What becomes of the openings that a service may be asked for. -/
structure Openings (s : Service) : Prop where
  /-- An opening that nothing interrupts fails without a trace. -/
  succeeds : ∀ id document channel, (∃ h, (s.openDocument id document channel).2 = .ok h) ↔
    s.isStopped = false ∧ s.isConnected = true ∧ s.open? id = none
  fails : ∀ id document channel error, (s.openDocument id document channel).2 = .error error →
    s.refusal? id = some error ∧ (s.openDocument id document channel).1 = s
  /-- One that is interrupted is refused before its session is started, or when it is to be
  registered. -/
  declines : ∀ id error, s.refusal? id = some error → ∀ document channel,
    s.beginOpen id document channel = .error error
  begins : ∀ id, s.refusal? id = none → ∀ document channel,
    ∃ t h, s.beginOpen id document channel = .ok (t, h) ∧ s.HalfOpen t h id channel ∧
      ∀ u, StillOpening h t u → u.Finishes h id
  overtaken : ∀ id, s.refusal? id = none → ∀ lost lostChannel document channel,
    (s.overtaken id lost lostChannel document channel).2 = .error (.alreadyOpen id) ∧
      Overtaken id s.sessions.length (s.openDocument id document channel).1
        (s.overtaken id lost lostChannel document channel).1
  handlers : ∀ name, ((s.channel name).handlers.map Prod.snd).Perm (s.listeners name)

theorem openDocument_succeeds (hs : s.Coherent) :
    (∃ h, (s.openDocument id document channel).2 = .ok h) ↔
      s.isStopped = false ∧ s.isConnected = true ∧ s.open? id = none := by
  rw [← refusal?_eq_none]
  constructor
  · rintro ⟨h, hok⟩
    cases hr : s.refusal? id with
    | none => rfl
    | some error =>
      rw [openDocument_refusal hr] at hok
      cases hok
  · intro hr
    exact ⟨_, (opens_of_free hs hr document channel).1⟩

theorem openDocument_fails {error : Failure} (hs : s.Coherent)
    (he : (s.openDocument id document channel).2 = .error error) :
    s.refusal? id = some error ∧ (s.openDocument id document channel).1 = s := by
  cases hr : s.refusal? id with
  | none =>
    rw [(opens_of_free hs hr document channel).1] at he
    cases he
  | some error' =>
    rw [openDocument_refusal hr] at he ⊢
    cases he
    exact ⟨rfl, rfl⟩

theorem begins_and_finishes (hs : Reachable s) (hr : s.refusal? id = none) (document : Document)
    (channel : String) :
    ∃ t h, s.beginOpen id document channel = .ok (t, h) ∧ s.HalfOpen t h id channel ∧
      ∀ u, StillOpening h t u → u.Finishes h id := by
  obtain ⟨t, hb, hbegun⟩ := beginOpen_begins hr document channel
  have hnext : s.next (.beginOpen id document channel) = t := by simp only [next, hb]
  have ht : Reachable t := hnext ▸ hs.next _
  refine ⟨t, _, hb, hbegun.halfOpen hr hs.coherent, fun u hu => ?_⟩
  have hunregistered := hu.unregistered ht (hbegun.unregistered hs.coherent)
  exact finishes (hu.reachable ht).coherent hunregistered

theorem openings_sound (hs : Reachable s) : s.Openings where
  succeeds _ _ _ := openDocument_succeeds hs.coherent
  fails _ _ _ _ he := openDocument_fails hs.coherent he
  declines _ _ hr _ _ := beginOpen_refused hr
  begins _ hr := begins_and_finishes hs hr
  overtaken _ hr := overtaken_loses hs hr
  handlers := hs.coherent.attached.listeners

/-- A service that is connected and has no document open. -/
def unused : Service :=
  ((initial 300 100 ⟨⟨[]⟩, []⟩).next (.connect 0)).next (.answer 0 (.connected (.ok ()) (.ok ())))

/-- A document is opened, and opening it again is refused and attaches nothing. -/
theorem unused_openings_sound :
    Reachable unused ∧ unused.refusal? ⟨"a"⟩ = none ∧ unused.Openings ∧
      let first := unused.openDocument ⟨"a"⟩ (.standalone ['x']) "changes"
      let second := first.1.openDocument ⟨"a"⟩ (.standalone ['y']) "changes"
      first.2 = .ok 0 ∧ first.1.running.isBusy ⟨"a"⟩ = true ∧
        second.2 = .error (.alreadyOpen ⟨"a"⟩) ∧ second.1.open? ⟨"a"⟩ = some 0 ∧
        second.1.running.isBusy ⟨"a"⟩ = true ∧ (second.1.channel "changes").count = 1 :=
  have hs : Reachable unused := .next (.next (.initial _ _ _) _) _
  ⟨hs, by decide, openings_sound hs, by decide⟩

/-- The other session's push is still to come, but its document is not busy any more. -/
theorem overtaken_opening_takes_mark :
    let id : DocumentId := ⟨"a"⟩
    let document := Document.standalone ['x']
    let alone := (unused.openDocument id document "changes").1
    let both := (unused.overtaken id document "changes" document "changes").1
    (unused.overtaken id document "changes" document "changes").2 = .error (.alreadyOpen id) ∧
      (both.open? id = some 1 ∧ (both.session? 1).map Session.phase = some (.pending 1)) ∧
      both.running.isBusy id = false ∧ alone.running.isBusy id = true := by
  decide

end DocSync.Service
