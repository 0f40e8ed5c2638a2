import DocSync.Proofs.Status

/-!
Who hears the changes of the editor. An open session is attached to its channel, once, and to no
other; a closed session is attached to none.
-/

namespace DocSync

/-- What of a session matters for its attachment. -/
def Session.wire (x : Session) : String × Option Nat × Bool :=
  (x.channel, x.subscription, x.isClosed)

namespace Service

open PushState

variable {place : Place} {s t : Service} {v w : PushState} {d : Deed} {e : Event} {h k : Nat}
  {x y : Session} {id : DocumentId} {name : String}

theorem send_wire (x : Session) : x.send.wire = x.wire := by
  simp only [Session.send]
  split <;> rfl

theorem settle_wire (x : Session) (t : Ticket) : (x.settle t).wire = x.wire := by
  simp only [Session.settle]
  split <;> rfl

/-- How a session is attached, if there is one. -/
def PushState.wire (v : PushState) (h : Nat) : Option (String × Option Nat × Bool) :=
  (v.session h).map Session.wire

/-- The part opens or closes a session. -/
def Deed.isRewiring : Deed → Bool
  | .opened _ => true
  | .closed _ => true
  | _ => false

theorem wire_update (hx : v.session h = some x)
    (hs : w.session = Function.update v.session h (some y)) (hy : y.wire = x.wire) :
    w.wire = v.wire := by
  funext k
  simp only [PushState.wire, hs]
  by_cases hk : k = h
  · subst hk
    rw [Function.update_self, hx, Option.map_some, hy]
    rfl
  · rw [Function.update_of_ne hk]

theorem Part.wire (hp : Part place v d w) (hd : d.isRewiring = false) : w.wire = v.wire := by
  cases hp with
  | tasks | connect | disconnect | disown | forgo | expire | ignore => rfl
  | «open» | close => cases hd
  | edit hx => exact wire_update hx rfl rfl
  | flush hx => exact wire_update hx rfl (send_wire _)
  | stall hx => exact wire_update hx rfl rfl
  | start _ hx => exact wire_update hx rfl (send_wire _)
  | fire _ hx => exact wire_update hx rfl rfl
  | accept _ _ hx => exact wire_update hx rfl (settle_wire _ _)
  | refuse _ _ hx => exact wire_update hx rfl (settle_wire _ _)

theorem Parts.wire {P : Deed → Prop} (hp : Parts place P v w)
    (hP : ∀ d, P d → d.isRewiring = false) :
    w.wire = v.wire := by
  induction hp with
  | refl => rfl
  | tail _ hq hd ih => exact (hq.wire (hP _ hd)).trans ih

theorem eq_of_wire (hw : w.wire = v.wire) (hx : v.session h = some x)
    (hy : w.session h = some y) : y.channel = x.channel ∧ y.isClosed = x.isClosed := by
  have hw := congrFun hw h
  simp only [PushState.wire, hx, hy, Option.map_some, Session.wire] at hw
  have hw := Option.some.inj hw
  exact ⟨congrArg Prod.fst hw, congrArg (fun w => w.2.2) hw⟩

/-- The event opens or closes documents. -/
def Event.isRewiring : Event → Bool
  | .openDocument _ _ _ => true
  | .closeDocument _ => true
  | .closeSession _ => true
  | .shutdown _ => true
  | _ => false

theorem Event.Admits.isRewiring (ha : e.Admits d) (he : e.isRewiring = false) :
    d.isRewiring = false := by
  cases d with
  | opened | closed => cases e <;> first | exact ha.elim | cases he
  | _ => rfl

/-- Sessions and channels agree about who is attached. -/
structure Attached (s : Service) : Prop where
  session : ∀ {name i h}, (i, h) ∈ (s.channel name).handlers →
    s.pushState.wire h = some (name, some i, false)
  handler : ∀ {h name sub}, s.pushState.wire h = some (name, sub, false) →
    ∃ i, sub = some i ∧ (i, h) ∈ (s.channel name).handlers
  fresh : ∀ {name i h}, (i, h) ∈ (s.channel name).handlers → i < (s.channel name).nextId
  once : ∀ name, ((s.channel name).handlers.map Prod.fst).Nodup

theorem Attached.keep (hs : s.Attached) (hw : t.pushState.wire = s.pushState.wire)
    (hc : t.channels = s.channels) : t.Attached := by
  have hchannel (name : String) : t.channel name = s.channel name := by
    simp only [channel, hc]
  constructor
  · intro name i h hm
    rw [hw]
    exact hs.session (hchannel name ▸ hm)
  · intro h name sub ho
    rw [hw] at ho
    rw [hchannel]
    exact hs.handler ho
  · intro name i h hm
    rw [hchannel] at hm ⊢
    exact hs.fresh hm
  · intro name
    rw [hchannel]
    exact hs.once name

theorem channel_put (signal : Signal Nat) (hc : t.channels = Keyed.put name signal s.channels)
    (other : String) : t.channel other = if other = name then signal else s.channel other := by
  simp only [channel, hc, Keyed.lookup_put]
  split <;> rfl

theorem mem_attach {other : String} {i j : Nat}
    (hc : t.channels = Keyed.put name ((s.channel name).attach h).1 s.channels) :
    (i, j) ∈ (t.channel other).handlers ↔ (i, j) ∈ (s.channel other).handlers ∨
      other = name ∧ i = (s.channel name).nextId ∧ j = h := by
  rw [channel_put _ hc]
  by_cases hn : other = name
  · subst hn
    simp [Signal.attach]
  · simp [hn]

theorem mem_detach {other : String} {i j k : Nat}
    (hc : t.channels = Keyed.put name ((s.channel name).detach k) s.channels) :
    (i, j) ∈ (t.channel other).handlers ↔ (i, j) ∈ (s.channel other).handlers ∧
      ¬(other = name ∧ i = k) := by
  rw [channel_put _ hc]
  by_cases hn : other = name
  · subst hn
    simp [Signal.detach]
  · simp [hn]

theorem nextId_le_attach (hc : t.channels = Keyed.put name ((s.channel name).attach h).1 s.channels)
    (other : String) : (s.channel other).nextId ≤ (t.channel other).nextId := by
  rw [channel_put _ hc]
  split
  · next hn =>
    subst hn
    exact Nat.le_succ _
  · exact Nat.le_refl _

theorem nextId_detach {k : Nat}
    (hc : t.channels = Keyed.put name ((s.channel name).detach k) s.channels) (other : String) :
    (t.channel other).nextId = (s.channel other).nextId := by
  rw [channel_put _ hc]
  split
  · next hn =>
    subst hn
    rfl
  · rfl

/-- A new session is attached to its channel. -/
theorem Attached.attach (hs : s.Attached) (hnone : s.pushState.wire h = none)
    (hw : t.pushState.wire = Function.update s.pushState.wire h
      (some (name, some (s.channel name).nextId, false)))
    (hc : t.channels = Keyed.put name ((s.channel name).attach h).1 s.channels) : t.Attached := by
  constructor
  · intro other i k hm
    rw [hw]
    rcases (mem_attach hc).mp hm with hm | ⟨rfl, rfl, rfl⟩
    · have hk : k ≠ h := by
        rintro rfl
        exact Option.some_ne_none _ ((hs.session hm).symm.trans hnone)
      rw [Function.update_of_ne hk]
      exact hs.session hm
    · exact Function.update_self _ _ _
  · intro k other sub ho
    rw [hw] at ho
    by_cases hk : k = h
    · subst hk
      rw [Function.update_self] at ho
      cases ho
      exact ⟨_, rfl, (mem_attach hc).mpr (Or.inr ⟨rfl, rfl, rfl⟩)⟩
    · rw [Function.update_of_ne hk] at ho
      obtain ⟨i, hi, hm⟩ := hs.handler ho
      exact ⟨i, hi, (mem_attach hc).mpr (Or.inl hm)⟩
  · intro other i k hm
    rcases (mem_attach hc).mp hm with hm | ⟨rfl, rfl, rfl⟩
    · exact Nat.lt_of_lt_of_le (hs.fresh hm) (nextId_le_attach hc other)
    · rw [channel_put _ hc, if_pos rfl]
      exact Nat.lt_succ_self _
  · intro other
    rw [channel_put _ hc]
    split
    · next he =>
      subst he
      simp only [Signal.attach, List.map_append, List.map_cons, List.map_nil]
      refine List.nodup_append.mpr ⟨hs.once other, by simp, ?_⟩
      intro a ha b hb
      obtain ⟨⟨i, k⟩, hm, rfl⟩ := List.mem_map.mp ha
      obtain rfl := List.mem_singleton.mp hb
      exact Nat.ne_of_lt (hs.fresh hm)
    · exact hs.once other

theorem Attached.eq_of_mem (hs : s.Attached) {i j k : Nat}
    (hj : (i, j) ∈ (s.channel name).handlers) (hk : (i, k) ∈ (s.channel name).handlers) :
    j = k := by
  have hsame := (Keyed.lookup_of_mem (hs.once name) hj).symm.trans
    (Keyed.lookup_of_mem (hs.once name) hk)
  exact Option.some.inj hsame

/-- A session that is closed is detached from its channel. -/
theorem Attached.detach {i : Nat} (hs : s.Attached)
    (hx : s.pushState.wire h = some (name, some i, false))
    (hw : t.pushState.wire = Function.update s.pushState.wire h (some (name, none, true)))
    (hc : t.channels = Keyed.put name ((s.channel name).detach i) s.channels) : t.Attached := by
  constructor
  · intro other j k hm
    obtain ⟨hm, hne⟩ := (mem_detach hc).mp hm
    have hk : k ≠ h := by
      rintro rfl
      cases (hs.session hm).symm.trans hx
      exact hne ⟨rfl, rfl⟩
    rw [hw, Function.update_of_ne hk]
    exact hs.session hm
  · intro k other sub ho
    rw [hw] at ho
    have hk : k ≠ h := by
      rintro rfl
      rw [Function.update_self] at ho
      cases ho
    rw [Function.update_of_ne hk] at ho
    obtain ⟨j, hj, hm⟩ := hs.handler ho
    refine ⟨j, hj, (mem_detach hc).mpr ⟨hm, ?_⟩⟩
    rintro ⟨rfl, rfl⟩
    obtain ⟨i, hi, hmi⟩ := hs.handler hx
    obtain rfl := Option.some.inj hi
    exact hk (hs.eq_of_mem hm hmi)
  · intro other j k hm
    rw [nextId_detach hc]
    exact hs.fresh ((mem_detach hc).mp hm).1
  · intro other
    rw [channel_put _ hc]
    split
    · next he =>
      subst he
      exact (hs.once other).sublist (List.filter_sublist.map Prod.fst)
    · exact hs.once other

theorem channels_closeSession {i : Nat} (hx : s.session? h = some x) (ho : x.isClosed = false)
    (hi : x.subscription = some i) :
    (s.closeSession h).channels =
      Keyed.put x.channel ((s.channel x.channel).detach i) s.channels := by
  have hy : (s.setSession h { x with isClosed := true }).session? h =
      some { x with isClosed := true } := session?_setSession hx _
  have hu : ((s.setSession h { x with isClosed := true }).unsubscribe h).channels =
      Keyed.put x.channel ((s.channel x.channel).detach i) s.channels := by
    simp only [unsubscribe]
    rw [hy]
    simp only [hi]
    rfl
  have hout {t u : Service} (ho : t.outline = u.outline) : t.channels = u.channels := by
    have hc := congrArg Service.channels ho
    exact hc
  simp only [closeSession, hx, ho, Bool.false_eq_true, ↓reduceIte]
  rw [← hu]
  split
  · exact hout outline_disarm
  · refine hout ?_
    simp only [outline_markIdle, outline_setSession, outline_disarm]

theorem attached_closeSession (hs : s.Attached) : (s.closeSession h).Attached := by
  rcases closeSession_cases s h with ⟨he, _⟩ | ⟨x, hx, ho, he⟩
  · rw [he]
    exact hs
  · have hwire : s.pushState.wire h = some (x.channel, x.subscription, false) := by
      have hx' : s.pushState.session h = some x := hx
      simp only [PushState.wire, hx', Option.map_some, Session.wire, ho]
    obtain ⟨i, hi, _⟩ := hs.handler hwire
    rw [hi] at hwire
    refine hs.detach hwire ?_ (channels_closeSession hx ho hi)
    rw [he]
    funext k
    by_cases hk : k = h
    · subst hk
      simp [PushState.wire, PushState.close, PushState.markIdle, PushState.setSession,
        Session.wire]
    · simp [PushState.wire, PushState.close, PushState.markIdle, PushState.setSession, hk,
        PushState.dropTimer]

theorem attached_retireEach (documents : List (DocumentId × Nat)) (hs : s.Attached) :
    (s.retireEach documents).Attached := by
  simp only [retireEach]
  induction documents generalizing s with
  | nil => exact hs
  | cons f documents ih =>
    have hclose := attached_closeSession (h := f.2) hs
    exact ih ⟨hclose.session, hclose.handler, hclose.fresh, hclose.once⟩

theorem attached_openDocument (document : Document) (hs : s.Attached)
    (place : Place := .inside) : (s.openDocument id document name place).1.Attached := by
  rcases openDocument_cases s id document name place with he | ⟨hnone, _, _, hc, he⟩
  · rw [he]
    exact hs
  · have hwire : s.pushState.wire s.sessions.length = none := by
      have hnone : s.pushState.session s.sessions.length = none := hnone
      simp only [PushState.wire, hnone, Option.map_none]
    refine hs.attach hwire ?_ hc
    rw [he]
    funext k
    by_cases hk : k = s.sessions.length
    · subst hk
      simp [PushState.wire, PushState.arm, PushState.markBusy, PushState.setSession,
        PushState.setOwner, Session.wire, Session.opened, Session.bump]
    · simp [PushState.wire, PushState.arm, PushState.markBusy, PushState.setSession,
        PushState.setOwner, hk]

/-- An event keeps channels and sessions in agreement. -/
theorem next_attached (hn : s.pushState.Numbered) (he : e.isWhole = true) (hs : s.Attached)
    (place : Place := .inside) : (s.next e place).Attached := by
  cases hr : e.isRewiring with
  | false =>
    refine hs.keep ?_ ?_
    · refine ((next_parts hn he place).parts trivial).wire fun d hd => ?_
      exact hd.isRewiring hr
    · have hm := status_next (s := s) he place
      generalize hv : (s.next e place).status = v at hm
      have hc : (s.next e place).channels = v.channels := congrArg Status.channels hv
      rw [hc]
      cases hm with
      | opened | left | closed | stopped => cases hr
      | _ => rfl
  | true =>
    cases e with
    | openDocument => exact attached_openDocument _ hs place
    | closeSession => exact attached_closeSession hs
    | closeDocument id =>
      simp only [next, closeDocument]
      split
      · exact hs
      · next h _ =>
        have hclose := attached_closeSession (h := h)
          (s := { s with registry := Keyed.remove id s.registry })
          ⟨hs.session, hs.handler, hs.fresh, hs.once⟩
        exact ⟨hclose.session, hclose.handler, hclose.fresh, hclose.once⟩
    | shutdown =>
      simp only [next, requestShutdown]
      split
      · exact ⟨hs.session, hs.handler, hs.fresh, hs.once⟩
      · have hall := attached_retireEach s.registry
          (s := { s with isStopped := true, wait := s.wait.cancel, registry := [] })
          ⟨hs.session, hs.handler, hs.fresh, hs.once⟩
        exact ⟨hall.session, hall.handler, hall.fresh, hall.once⟩
    | _ => cases hr

theorem Run.attached (r : Run) (k : Nat) (place : Nat → Place := fun _ => .inside) :
    (r.state k place).Attached := by
  induction k with
  | zero =>
    refine ⟨fun hm => ?_, fun hw => ?_, fun hm => ?_, fun _ => List.nodup_nil⟩
    · cases hm
    · cases hw
    · cases hm
  | succ k ih => exact next_attached (r.invariant k place).numbered (r.whole k) ih (place k)

theorem Attached.session_of_mem {name : String} (hs : s.Attached)
    (hk : k ∈ (s.channel name).handlers.map Prod.snd) :
    ∃ y, s.pushState.IsOpen k y ∧ y.channel = name := by
  obtain ⟨⟨i, j⟩, hm, rfl⟩ := List.mem_map.mp hk
  obtain ⟨y, hy, hwire⟩ := Option.map_eq_some_iff.mp (hs.session hm)
  exact ⟨y, ⟨hy, congrArg (fun w => w.2.2) hwire⟩, congrArg Prod.fst hwire⟩

/-- A session is attached to its channel once. -/
theorem Attached.handlers (hs : s.Attached) (hx : s.session? h = some x)
    (ho : x.isClosed = false) :
    ∃ before after, (s.channel x.channel).handlers.map Prod.snd = before ++ h :: after ∧
      h ∉ before ∧ h ∉ after := by
  have hwire : s.pushState.wire h = some (x.channel, x.subscription, false) := by
    have hx' : s.pushState.session h = some x := hx
    simp only [PushState.wire, hx', Option.map_some, Session.wire, ho]
  obtain ⟨i, _, hm⟩ := hs.handler hwire
  obtain ⟨before, after, he⟩ := List.append_of_mem hm
  have hother {j : Nat} (hj : (j, h) ∈ (s.channel x.channel).handlers) : j = i := by
    cases (hs.session hj).symm.trans (hs.session hm)
    rfl
  have hnodup := hs.once x.channel
  rw [he, List.map_append, List.map_cons] at hnodup
  obtain ⟨_, hafter, hdisjoint⟩ := List.nodup_append.mp hnodup
  refine ⟨before.map Prod.snd, after.map Prod.snd, by rw [he]; simp, ?_, ?_⟩
  · intro hmem
    obtain ⟨⟨j, k⟩, hj, rfl⟩ := List.mem_map.mp hmem
    obtain rfl := hother (he ▸ List.mem_append_left _ hj)
    exact hdisjoint _ (List.mem_map_of_mem hj) _ List.mem_cons_self rfl
  · intro hmem
    obtain ⟨⟨j, k⟩, hj, rfl⟩ := List.mem_map.mp hmem
    obtain rfl := hother (he ▸ List.mem_append_right _ (List.mem_cons_of_mem _ hj))
    exact (List.nodup_cons.mp hafter).1 (List.mem_map_of_mem hj)

theorem Attached.unheard (hs : s.Attached) (hx : s.session? h = some x) (hn : name ≠ x.channel) :
    h ∉ (s.channel name).handlers.map Prod.snd := by
  intro hmem
  obtain ⟨y, hy, hchannel⟩ := hs.session_of_mem hmem
  obtain rfl := Option.some.inj (hx.symm.trans hy.1)
  exact hn hchannel.symm

end Service

end DocSync
