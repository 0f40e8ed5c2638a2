import DocSync.Proofs.DocumentSteps

/-!
Openings that are interrupted. A document is looked up, its session is started, and the session is
registered unless the document was opened in the meantime; anything may happen between the start
and the registration. What is said of a service that opens documents in one go is said here, as far
as it still holds, of a service that any events may reach.
-/

namespace DocSync.Service

open PushState

variable {s t u : Service} {v w : PushState} {d : Deed} {e : Event} {h k : Nat} {x y : Session}
  {id : DocumentId} {document : Document} {channel name : String} {error : Failure}

/-- A service as any events leave it, openings in one go and interrupted ones alike. -/
inductive Reachable : Service → Prop where
  | initial (syncDelay completionDelay : Nat) (input : AbbreviationInput) :
    Reachable (initial syncDelay completionDelay input)
  | next {s : Service} (hs : Reachable s) (e : Event) : Reachable (s.next e)

/-- Why a document cannot be opened, if so. -/
def refusal? (s : Service) (id : DocumentId) : Option Failure :=
  if s.isStopped then some .serviceStopped
  else if !s.isConnected then some .notConnected
  else if (s.open? id).isSome then some (.alreadyOpen id)
  else none

theorem refusal?_eq_none :
    s.refusal? id = none ↔ s.isStopped = false ∧ s.isConnected = true ∧ s.open? id = none := by
  simp only [refusal?]
  cases s.isStopped <;> cases s.isConnected <;> cases s.open? id <;> simp

/-- What a session that is started, but not registered, changes. -/
structure Begun (s t : Service) (h : Nat) (id : DocumentId) (document : Document)
    (channel : String) : Prop where
  number : h = s.sessions.length
  channels : t.channels = Keyed.put channel ((s.channel channel).attach h).1 s.channels
  outline : t.outline = { s.outline with
    channels := t.channels
    opening := s.opening ++ [h] }
  state : t.pushState = (s.pushState.arm h
    (Session.opened id document channel (s.channel channel).nextId).bump s.now).markBusy id

theorem beginOpen_refused (hr : s.refusal? id = some error) :
    s.beginOpen id document channel = .error error := by
  simp only [refusal?] at hr
  simp only [beginOpen]
  split at hr
  · next hs =>
    rw [if_pos hs, Option.some.inj hr]
  · next hs =>
    rw [if_neg hs]
    split at hr
    · next hc => rw [if_pos hc, Option.some.inj hr]
    · next hc =>
      rw [if_neg hc]
      split at hr
      · next ho => rw [if_pos ho, Option.some.inj hr]
      · cases hr

theorem beginOpen_begins (hr : s.refusal? id = none) (document : Document) (channel : String) :
    ∃ t, s.beginOpen id document channel = .ok (t, s.sessions.length) ∧
      s.Begun t s.sessions.length id document channel := by
  obtain ⟨hs, hc, ho⟩ := refusal?_eq_none.mp hr
  let y := Session.opened id document channel (s.channel channel).nextId
  let channels := Keyed.put channel ((s.channel channel).attach s.sessions.length).1 s.channels
  let s₁ : Service :=
    { s with
      sessions := s.sessions ++ [y]
      opening := s.opening ++ [s.sessions.length]
      channels := channels }
  have hy : s₁.session? s.sessions.length = some y := by simp [s₁, session?]
  have hout := outline_syncIn (s := s₁) (h := s.sessions.length) 0
  have hchannels : (s₁.syncIn s.sessions.length 0).channels = channels := channels_syncIn 0
  refine ⟨s₁.syncIn s.sessions.length 0, ?_, rfl, hchannels, ?_, ?_⟩
  · rw [beginOpen, if_neg (by simp [hs]), if_neg (by simp [hc]), if_neg (by simp [ho])]
    rfl
  · rw [hout, hchannels]
    rfl
  · rw [pushState_syncIn hy, pushState_concat]
    simp only [PushState.arm, PushState.setSession, Function.update_idem]
    rfl

theorem beginOpen_cases (hb : s.beginOpen id document channel = .ok (t, h)) :
    s.refusal? id = none ∧ s.Begun t h id document channel := by
  cases hr : s.refusal? id with
  | some error =>
    rw [beginOpen_refused hr] at hb
    cases hb
  | none =>
    obtain ⟨t', hb', hbegun⟩ := beginOpen_begins hr document channel
    cases hb.symm.trans hb'
    exact ⟨rfl, hbegun⟩

theorem Begun.part (hb : s.Begun t h id document channel) (hr : s.refusal? id = none) :
    ∃ w, Part .inside s.pushState (.opened h) w ∧ t.pushState = w.setOwner s.pushState.owner := by
  obtain ⟨_, hc, ho⟩ := refusal?_eq_none.mp hr
  have hnone : s.pushState.session h = none := by
    rw [hb.number]
    exact List.getElem?_eq_none (Nat.le_refl _)
  exact ⟨_, .open hnone ho hc, hb.state⟩

theorem finishOpen_wins (hx : s.session? h = some x) (ho : s.open? x.id = none) :
    (s.finishOpen h).2 = .ok h := by
  have hopen : ({ s with opening := s.opening.erase h } : Service).open? x.id = none := ho
  simp only [finishOpen, hx, hopen, Option.isSome_none, Bool.false_eq_true, ↓reduceIte]

theorem finishOpen_loses (hx : s.session? h = some x) (ho : s.open? x.id = some k) :
    s.finishOpen h =
      (({ s with opening := s.opening.erase h } : Service).closeSession h,
        .error (.alreadyOpen x.id)) := by
  have hopen : ({ s with opening := s.opening.erase h } : Service).open? x.id = some k := ho
  simp only [finishOpen, hx, hopen, Option.isSome_some, ↓reduceIte]

/-- An event is a sequence of parts, or one of the halves of an opening that is not refused. -/
theorem next_cases (hn : s.pushState.Numbered) (e : Event) :
    Parts .inside (fun _ => True) s.pushState (s.next e).pushState ∨
      (∃ h w, Part .inside s.pushState (.opened h) w ∧
        (s.next e).pushState = w.setOwner s.pushState.owner) ∨
      ∃ h x, e = .finishOpen h ∧ s.session? h = some x ∧
        (s.next e).pushState =
          s.pushState.setOwner (Function.update s.pushState.owner x.id (some h)) := by
  cases hw : e.isWhole with
  | true => exact Or.inl (((next_parts hn hw).parts trivial).mono fun _ _ => trivial)
  | false =>
    cases e with
    | beginOpen id document channel =>
      simp only [next]
      split
      · next hb =>
        obtain ⟨hr, hbegun⟩ := beginOpen_cases hb
        obtain ⟨w, hp, hs⟩ := hbegun.part hr
        exact Or.inr (Or.inl ⟨_, w, hp, hs⟩)
      · exact Or.inl (.refl _)
    | finishOpen h =>
      simp only [next]
      split
      · cases hx : s.session? h with
        | none =>
          have hnone : (s.finishOpen h).1 = s := by simp only [finishOpen, hx]
          rw [hnone]
          exact Or.inl (.refl _)
        | some x =>
          cases ho : s.open? x.id with
          | none => exact Or.inr (Or.inr ⟨h, x, rfl, hx, finishOpen_ok hx ho⟩)
          | some k =>
            rw [finishOpen_loses hx ho]
            refine Or.inl ?_
            exact (closeSession_parts (s := { s with opening := s.opening.erase h })).mono
              fun _ _ => trivial
      · exact Or.inl (.refl _)
    | _ => cases hw

/-- The session that owns a document is there. -/
def PushState.Known (v : PushState) : Prop :=
  ∀ {id h}, v.owner id = some h → ∃ x, v.session h = some x

theorem Part.known (hp : Part .inside v d w) (hv : v.Known) : w.Known := by
  intro id h ho
  have hkept (hk : v.owner id = some h) : ∃ x, w.session h = some x := by
    obtain ⟨x, hx⟩ := hv hk
    obtain ⟨y, hy, _⟩ := hp.evolves hx
    exact ⟨y, hy⟩
  cases hp with
  | @disown owner hd =>
    rcases hd id with heq | ⟨hnone, _⟩
    · exact hkept (heq.symm.trans ho)
    · exact absurd (ho.symm.trans hnone) (Option.some_ne_none h)
  | @«open» k opened document channel subscription deadline =>
    by_cases hid : id = opened
    · have ho : Function.update v.owner opened (some k) id = some h := ho
      rw [hid, Function.update_self] at ho
      obtain rfl := Option.some.inj ho
      exact ⟨_, Function.update_self k _ _⟩
    · exact hkept ((Function.update_of_ne hid _ _).symm.trans ho)
  | _ => exact hkept ho

/-- Sessions, timers, documents and channels agree in any service. -/
structure Coherent (s : Service) : Prop where
  numbered : s.pushState.Numbered
  ticking : s.pushState.Ticking
  known : s.pushState.Known
  attached : s.Attached

theorem ticking_setOwner {owner : DocumentId → Option Nat} (hv : v.Ticking) :
    (v.setOwner owner).Ticking :=
  ⟨⟨hv.timed.fresh, hv.timed.armed⟩, hv.sleeping, hv.resting⟩

theorem numbered_next (hs : s.Coherent) (e : Event) : (s.next e).pushState.Numbered := by
  rcases next_cases hs.numbered e with hp | ⟨h, w, hp, he⟩ | ⟨h, x, _, _, he⟩
  · exact hp.keep Part.numbered hs.numbered
  · rw [he]
    exact hp.numbered hs.numbered
  · rw [he]
    exact hs.numbered

theorem ticking_next (hs : s.Coherent) (e : Event) : (s.next e).pushState.Ticking := by
  rcases next_cases hs.numbered e with hp | ⟨h, w, hp, he⟩ | ⟨h, x, _, _, he⟩
  · exact hp.keep Part.ticking hs.ticking
  · rw [he]
    exact ticking_setOwner (hp.ticking hs.ticking)
  · rw [he]
    exact ticking_setOwner hs.ticking

theorem known_next (hs : s.Coherent) (e : Event) : (s.next e).pushState.Known := by
  rcases next_cases hs.numbered e with hp | ⟨h, w, hp, he⟩ | ⟨h, x, _, hx, he⟩
  · exact hp.keep Part.known hs.known
  · rw [he]
    intro id k ho
    obtain ⟨y, hy⟩ := hs.known ho
    obtain ⟨z, hz, _⟩ := hp.evolves hy
    exact ⟨z, hz⟩
  · rw [he]
    intro id k ho
    have ho : Function.update s.pushState.owner x.id (some h) id = some k := ho
    by_cases hid : id = x.id
    · rw [hid, Function.update_self] at ho
      obtain rfl := Option.some.inj ho
      exact ⟨x, hx⟩
    · rw [Function.update_of_ne hid] at ho
      exact hs.known ho

theorem Begun.attached (hb : s.Begun t h id document channel) (hs : s.Attached) : t.Attached := by
  have hnone : s.pushState.session h = none := by
    rw [hb.number]
    exact List.getElem?_eq_none (Nat.le_refl _)
  have hwire : s.pushState.wire h = none := by
    simp only [PushState.wire, hnone, Option.map_none]
  refine hs.attach hwire ?_ hb.channels
  rw [hb.state]
  funext k
  by_cases hk : k = h
  · subst hk
    simp [PushState.wire, PushState.arm, PushState.markBusy, PushState.setSession, Session.wire,
      Session.opened, Session.bump]
  · simp [PushState.wire, PushState.arm, PushState.markBusy, PushState.setSession, hk]

theorem attached_finishOpen (hs : s.Attached) : (s.finishOpen h).1.Attached := by
  cases hx : s.session? h with
  | none =>
    have hnone : (s.finishOpen h).1 = s := by simp only [finishOpen, hx]
    rw [hnone]
    exact hs
  | some x =>
    cases ho : s.open? x.id with
    | none =>
      refine hs.keep ?_ (channels_finishOpen hx ho)
      rw [finishOpen_ok hx ho]
      rfl
    | some k =>
      rw [finishOpen_loses hx ho]
      exact attached_closeSession (s := { s with opening := s.opening.erase h })
        ⟨hs.session, hs.handler, hs.fresh, hs.once⟩

theorem attached_any (hs : s.Coherent) (e : Event) : (s.next e).Attached := by
  cases hw : e.isWhole with
  | true => exact next_attached hs.numbered hw hs.attached
  | false =>
    cases e with
    | beginOpen id document channel =>
      simp only [next]
      split
      · next hb => exact (beginOpen_cases hb).2.attached hs.attached
      · exact hs.attached
    | finishOpen h =>
      simp only [next]
      split
      · exact attached_finishOpen hs.attached
      · exact hs.attached
    | _ => cases hw

theorem coherent_initial (syncDelay completionDelay : Nat) (input : AbbreviationInput) :
    (initial syncDelay completionDelay input).Coherent := by
  let r : Run := ⟨syncDelay, completionDelay, input, fun _ => .endStream, fun _ => rfl⟩
  have hknown : (r.state 0).pushState.Known := fun ho => absurd ho (Option.some_ne_none _).symm
  exact ⟨(r.invariant 0).numbered, ⟨(r.invariant 0).timed, r.sleeping 0, r.resting 0⟩, hknown,
    r.attached 0⟩

theorem coherent_next (hs : s.Coherent) (e : Event) : (s.next e).Coherent :=
  ⟨numbered_next hs e, ticking_next hs e, known_next hs e, attached_any hs e⟩

theorem Reachable.coherent (hs : Reachable s) : s.Coherent := by
  induction hs with
  | initial syncDelay completionDelay input => exact coherent_initial _ _ _
  | next _ e ih => exact coherent_next ih e

/-- A session that is not closed hears its channel. -/
def listens (s : Service) (name : String) (h : Nat) : Bool :=
  (s.session? h).any fun x => !x.isClosed && x.channel == name

/-- The sessions that hear a channel. -/
def listeners (s : Service) (name : String) : List Nat :=
  numbers (s.listens name) s.sessions.length

theorem mem_listeners :
    h ∈ s.listeners name ↔ ∃ x, s.session? h = some x ∧ x.isClosed = false ∧ x.channel = name := by
  rw [listeners, mem_numbers, listens, Option.any_eq_true]
  constructor
  · rintro ⟨_, x, hx, hl⟩
    exact ⟨x, hx, by simpa using hl⟩
  · rintro ⟨x, hx, hl⟩
    obtain ⟨hlt, _⟩ := List.getElem?_eq_some_iff.mp hx
    exact ⟨hlt, x, hx, by simpa using hl⟩

theorem Attached.listeners (hs : s.Attached) (name : String) :
    ((s.channel name).handlers.map Prod.snd).Perm (s.listeners name) := by
  have hnodup : ((s.channel name).handlers.map Prod.snd).Nodup := by
    refine List.Nodup.map_on ?_ (List.Nodup.of_map Prod.fst (hs.once name))
    rintro ⟨i, h⟩ hi ⟨j, k⟩ hj heq
    obtain rfl : h = k := heq
    cases (hs.session hi).symm.trans (hs.session hj)
    rfl
  refine (List.perm_ext_iff_of_nodup hnodup (nodup_numbers _ _)).mpr fun h => ?_
  rw [← Service.listeners, mem_listeners]
  constructor
  · intro hm
    obtain ⟨x, hx, hchannel⟩ := hs.session_of_mem hm
    exact ⟨x, hx.1, hx.2, hchannel⟩
  · rintro ⟨x, hx, ho, rfl⟩
    obtain ⟨before, after, he, _⟩ := hs.handlers hx ho
    rw [he]
    exact List.mem_append_right before List.mem_cons_self

/-- The second service comes of the first by events that do not finish the opening of a session. -/
inductive StillOpening (h : Nat) : Service → Service → Prop where
  | refl (s : Service) : StillOpening h s s
  | next {s t : Service} (hst : StillOpening h s t) {e : Event} (he : e ≠ .finishOpen h) :
    StillOpening h s (t.next e)

/-- A session is there and has no document registered for it. -/
def PushState.Unregistered (v : PushState) (h : Nat) (id : DocumentId) : Prop :=
  (∃ x, v.session h = some x ∧ x.id = id) ∧ ∀ other, v.owner other ≠ some h

theorem Begun.unregistered (hb : s.Begun t h id document channel) (hs : s.Coherent) :
    t.pushState.Unregistered h id := by
  rw [hb.state]
  refine ⟨⟨_, Function.update_self h _ _, rfl⟩, fun other ho => ?_⟩
  obtain ⟨x, hx⟩ := hs.known ho
  have hnone : s.pushState.session h = none := by
    rw [hb.number]
    exact List.getElem?_eq_none (Nat.le_refl _)
  exact Option.some_ne_none x (hx.symm.trans hnone)

theorem Part.unregistered (hp : Part .inside v d w) (hv : v.Unregistered h id) :
    w.Unregistered h id := by
  obtain ⟨⟨x, hx, hid⟩, hv⟩ := hv
  obtain ⟨y, hy, he⟩ := hp.evolves hx
  refine ⟨⟨y, hy, he.id.trans hid⟩, fun other => ?_⟩
  cases hp with
  | @disown owner ho =>
    rcases ho other with heq | ⟨hnone, _⟩
    · exact fun h => hv other (heq.symm.trans h)
    · exact fun h => Option.some_ne_none _ (h.symm.trans hnone)
  | @«open» k opened document channel subscription deadline hs =>
    have hk : k ≠ h := by
      rintro rfl
      exact Option.some_ne_none _ (hx.symm.trans hs)
    change Function.update v.owner opened (some k) other ≠ some h
    by_cases ho : other = opened
    · rw [ho, Function.update_self]
      exact fun h => hk (Option.some.inj h)
    · rw [Function.update_of_ne ho]
      exact hv other
  | _ => exact hv other

theorem unregistered_next (hs : s.Coherent) (he : e ≠ .finishOpen h)
    (hv : s.pushState.Unregistered h id) : (s.next e).pushState.Unregistered h id := by
  rcases next_cases hs.numbered e with hp | ⟨k, w, hp, hw⟩ | ⟨k, x, rfl, hx, hw⟩
  · exact hp.keep Part.unregistered hv
  · rw [hw]
    exact ⟨(hp.unregistered hv).1, hv.2⟩
  · rw [hw]
    refine ⟨hv.1, fun other => ?_⟩
    have hk : k ≠ h := fun hk => he (hk ▸ rfl)
    change Function.update s.pushState.owner x.id (some k) other ≠ some h
    by_cases ho : other = x.id
    · rw [ho, Function.update_self]
      exact fun h => hk (Option.some.inj h)
    · rw [Function.update_of_ne ho]
      exact hv.2 other

theorem StillOpening.reachable (hst : StillOpening h s t) (hs : Reachable s) : Reachable t := by
  induction hst with
  | refl => exact hs
  | next _ _ ih => exact .next ih _

theorem StillOpening.unregistered (hst : StillOpening h s t) (hs : Reachable s)
    (hv : s.pushState.Unregistered h id) : t.pushState.Unregistered h id := by
  induction hst with
  | refl => exact hv
  | next hst he ih => exact unregistered_next (hst.reachable hs).coherent he ih

end DocSync.Service
