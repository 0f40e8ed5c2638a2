import DocSync.Proofs.PushParts

/-!
The log of the pushes that were called and answered. Every call is about a session and was made for
one of its versions, with the text of that version; every answer is to a call before it.
-/

namespace DocSync.Service

open PushState

variable {place : Place} {v w : PushState} {d : Deed} {k h n : Nat} {x y z : Session}

def PushState.IsOpen (v : PushState) (h : Nat) (x : Session) : Prop :=
  v.session h = some x ∧ x.isClosed = false

theorem not_isOpen (hx : v.session h = some x) (hc : x.isClosed = true) : ¬v.IsOpen h y := by
  rintro ⟨hy, ho⟩
  obtain rfl := Option.some.inj (hx.symm.trans hy)
  exact absurd (hc.symm.trans ho) (by decide)

theorem update_cases {f : Nat → Option Session}
    (hz : Function.update f h (some y) k = some z) : k = h ∧ y = z ∨ k ≠ h ∧ f k = some z := by
  by_cases hk : k = h
  · subst k
    rw [Function.update_self] at hz
    exact Or.inl ⟨rfl, Option.some.inj hz⟩
  · exact Or.inr ⟨hk, by rwa [Function.update_of_ne hk] at hz⟩

/-- A session was there before, unless the part opened it. -/
theorem Part.origin (hp : Part place v d w) (hz : w.session k = some z) :
    (∃ y, v.session k = some y ∧ Evolves y z) ∨ d = .opened k ∧ v.session k = none := by
  cases hk : v.session k with
  | some y =>
    obtain ⟨z', hz', he⟩ := hp.evolves hk
    obtain rfl : z = z' := Option.some.inj (hz.symm.trans hz')
    exact Or.inl ⟨y, rfl, he⟩
  | none =>
    have hne {h : Nat} {x y : Session} (hx : v.session h = some x)
        (hz : Function.update v.session h (some y) k = some z) : False := by
      rcases update_cases hz with ⟨rfl, _⟩ | ⟨_, hz⟩
      · exact Option.some_ne_none _ (hx.symm.trans hk)
      · exact Option.some_ne_none _ (hz.symm.trans hk)
    cases hp with
    | tasks | connect | disconnect | disown | forgo | expire | ignore =>
      exact absurd (hz.symm.trans hk) (Option.some_ne_none _)
    | «open» =>
      rcases update_cases hz with ⟨rfl, _⟩ | ⟨_, hz⟩
      · exact Or.inr ⟨rfl, rfl⟩
      · exact absurd (hz.symm.trans hk) (Option.some_ne_none _)
    | edit hx => exact (hne hx hz).elim
    | flush hx =>
      simp only [PushState.push, PushState.setSession] at hz
      exact (hne hx hz).elim
    | stall hx => exact (hne hx hz).elim
    | start _ hx => exact (hne hx hz).elim
    | fire _ hx => exact (hne hx hz).elim
    | accept _ _ hx => exact (hne hx hz).elim
    | refuse _ _ hx => exact (hne hx hz).elim
    | close hx => exact (hne hx hz).elim

theorem Part.origin_open (hp : Part place v d w) (hz : w.IsOpen k z) :
    (∃ y, v.IsOpen k y ∧ Evolves y z) ∨ d = .opened k ∧ v.session k = none := by
  rcases hp.origin hz.1 with ⟨y, hy, he⟩ | hn
  · refine Or.inl ⟨y, ⟨hy, ?_⟩, he⟩
    cases hc : y.isClosed with
    | false => rfl
    | true => exact absurd (he.closed hc).1 (by simp [hz.2])
  · exact Or.inr hn

@[simp] theorem send_version (x : Session) : x.send.version = x.version := by
  simp only [Session.send]
  split <;> rfl

@[simp] theorem send_id (x : Session) : x.send.id = x.id := by
  simp only [Session.send]
  split <;> rfl

@[simp] theorem send_document (x : Session) : x.send.document = x.document := by
  simp only [Session.send]
  split <;> rfl

@[simp] theorem send_isClosed (x : Session) : x.send.isClosed = x.isClosed := by
  simp only [Session.send]
  split <;> rfl

@[simp] theorem send_ticket (x : Session) : x.send.ticket = x.ticket := by
  simp [Session.ticket]

/-- A session's push as its call says it. -/
def PushState.Pushes (w : PushState) (h : Nat) (n : Notice) : Prop :=
  ∃ x task after, w.IsOpen h x ∧ w.work task = some (.sync h x.ticket after) ∧
    n = .called task (.sync h x.version x.id x.document.fullText)

theorem pushes_push (u : PushState) (task h : Nat) (ho : x.isClosed = false) (after : After) :
    (u.push task h x after).Pushes h
      (.called task (.sync h x.version x.id x.document.fullText)) := by
  refine ⟨x.send, task, after, ⟨Function.update_self _ _ _, by simpa using ho⟩, ?_, by simp⟩
  rw [send_ticket]
  exact Function.update_self task _ u.work

theorem Part.log (hp : Part place v d w) :
    w.log = v.log ∨
      (∃ h n, d = .pushed h ∧ w.Pushes h n ∧ w.log = n :: v.log) ∨
      ∃ task h t after accepted, d = .answered task ∧ v.work task = some (.sync h t after) ∧
        w.log = .answered task h t.version accepted :: v.log := by
  cases hp with
  | tasks | connect | disconnect | disown | «open» | edit | stall | forgo | fire | expire |
    close => exact Or.inl rfl
  | @flush h x task after hx ho =>
    refine Or.inr (Or.inl ⟨h, _, rfl, pushes_push _ task h ?_ after, rfl⟩)
    exact ho
  | @start h x task _ hx ho =>
    exact Or.inr (Or.inl ⟨h, _, rfl, pushes_push _ task h ho .nothing, rfl⟩)
  | accept hw => exact Or.inr (Or.inr ⟨_, _, _, _, true, rfl, hw, rfl⟩)
  | refuse hw => exact Or.inr (Or.inr ⟨_, _, _, _, false, rfl, hw, rfl⟩)
  | ignore hw => exact Or.inr (Or.inr ⟨_, _, _, _, _, rfl, hw, rfl⟩)

theorem Part.log_suffix (hp : Part place v d w) : v.log <:+ w.log := by
  rcases hp.log with he | ⟨_, _, _, _, he⟩ | ⟨_, _, _, _, _, _, _, he⟩
  · exact he ▸ List.suffix_refl _
  · exact he ▸ List.suffix_cons _ _
  · exact he ▸ List.suffix_cons _ _

theorem Part.logged_call (hp : Part place v d w) {c : Call} (hm : .called k c ∈ w.log) :
    .called k c ∈ v.log ∨ ∃ h, d = .pushed h ∧ w.Pushes h (.called k c) := by
  rcases hp.log with he | ⟨h, n, hd, hn, he⟩ | ⟨task, h, t, after, accepted, hd, hw, he⟩
  · exact Or.inl (he ▸ hm)
  · rcases List.mem_cons.mp (he ▸ hm) with rfl | hm
    · exact Or.inr ⟨h, hd, hn⟩
    · exact Or.inl hm
  · rcases List.mem_cons.mp (he ▸ hm) with hn | hm
    · cases hn
    · exact Or.inl hm

theorem Part.logged_answer (hp : Part place v d w) {accepted : Bool}
    (hm : .answered k h n accepted ∈ w.log) :
    .answered k h n accepted ∈ v.log ∨ d = .answered k ∧
      ∃ t after, t.version = n ∧ v.work k = some (.sync h t after) := by
  rcases hp.log with he | ⟨_, _, _, ⟨_, _, _, _, _, rfl⟩, he⟩ | ⟨task, j, t, after, b, hd, hw, he⟩
  · exact Or.inl (he ▸ hm)
  · rcases List.mem_cons.mp (he ▸ hm) with hn | hm
    · cases hn
    · exact Or.inl hm
  · rcases List.mem_cons.mp (he ▸ hm) with hn | hm
    · cases hn
      exact Or.inr ⟨hd, t, after, rfl, hw⟩
    · exact Or.inl hm

/-- Every call is for a version that its session has or had, and if it still has it, then the call
is with its text. -/
def PushState.Called (v : PushState) : Prop :=
  ∀ {k h n id c}, .called k (.sync h n id c) ∈ v.log →
    ∃ x, v.session h = some x ∧ id = x.id ∧ n ≤ x.version ∧
      (n = x.version → c = x.document.fullText)

theorem Part.called (hp : Part place v d w) (hv : v.Called) : w.Called := by
  intro k h n id c hm
  rcases hp.logged_call hm with hm | ⟨j, _, x, task, after, hx, _, he⟩
  · obtain ⟨x, hx, hid, hle, hc⟩ := hv hm
    obtain ⟨y, hy, hxy⟩ := hp.evolves hx
    refine ⟨y, hy, hid.trans hxy.id.symm, Nat.le_trans hle hxy.version, ?_⟩
    intro hn
    have hv := hxy.version
    rw [hxy.document (by omega)]
    exact hc (by omega)
  · cases he
    exact ⟨x, hx.1, rfl, Nat.le_refl _, fun _ => rfl⟩

/-- A task that waits for the answer to a push has called it. -/
def PushState.Outstanding (v : PushState) : Prop :=
  ∀ {k h t after}, v.work k = some (.sync h t after) →
    ∃ id c, .called k (.sync h t.version id c) ∈ v.log

theorem update_work {f : Nat → Option Work} {task : Nat} {a : Option Work} {b : Work}
    (hb : Function.update f task a k = some b) : k = task ∧ a = some b ∨ f k = some b := by
  by_cases hk : k = task
  · subst k
    rw [Function.update_self] at hb
    exact Or.inl ⟨rfl, hb⟩
  · exact Or.inr (by rwa [Function.update_of_ne hk] at hb)

/-- A task waits for the answer to a push already, or the part called it. -/
theorem Part.waits (hp : Part place v d w) {t : Ticket} {after : After}
    (hk : w.work k = some (.sync h t after)) :
    v.work k = some (.sync h t after) ∨ ∃ id c, .called k (.sync h t.version id c) ∈ w.log := by
  have hquiet {task : Nat} {a : Option Work} (hq : IsQuiet a)
      (hk : Function.update v.work task a k = some (.sync h t after)) :
      v.work k = some (.sync h t after) := by
    rcases update_work hk with ⟨_, ha⟩ | hk
    · exact absurd (hq _ ha) (by simp [Work.isPush])
    · exact hk
  cases hp with
  | tasks _ hw =>
    rcases hw k with he | ⟨_, _, hq⟩
    · exact Or.inl (he.symm.trans hk)
    · exact absurd (hq _ hk) (by simp [Work.isPush])
  | connect | disconnect | disown | «open» | edit | stall | expire | close => exact Or.inl hk
  | flush =>
    rcases update_work hk with ⟨rfl, ha⟩ | hk
    · cases ha
      exact Or.inr ⟨_, _, List.mem_cons_self⟩
    · exact Or.inl hk
  | start =>
    rcases update_work hk with ⟨rfl, ha⟩ | hk
    · cases ha
      exact Or.inr ⟨_, _, List.mem_cons_self⟩
    · exact Or.inl hk
  | forgo => exact Or.inl (hquiet (by simp [IsQuiet]) hk)
  | fire =>
    rcases Option.or_eq_some_iff.mp hk with hk | ⟨_, hk⟩
    · exact Or.inl hk
    · split at hk <;> cases hk
  | accept _ hq => exact Or.inl (hquiet hq hk)
  | refuse _ hq => exact Or.inl (hquiet hq hk)
  | ignore _ hq => exact Or.inl (hquiet hq hk)

theorem Part.outstanding (hp : Part place v d w) (hv : v.Outstanding) : w.Outstanding := by
  intro k h t after hk
  rcases hp.waits hk with hk | hm
  · obtain ⟨id, c, hm⟩ := hv hk
    exact ⟨id, c, hp.log_suffix.subset hm⟩
  · exact hm

/-- An answer comes after the call of the task that it is for. -/
def PushState.Answered (v : PushState) : Prop :=
  ∀ {k h n accepted rest}, .answered k h n accepted :: rest <:+ v.log →
    ∃ id c, .called k (.sync h n id c) ∈ rest

theorem Part.answered (hp : Part place v d w) (ho : v.Outstanding) (hv : v.Answered) :
    w.Answered := by
  intro k h n accepted rest hs
  rcases hp.log with he | ⟨_, _, _, ⟨_, _, _, _, _, rfl⟩, he⟩ | ⟨task, j, t, after, b, _, hw, he⟩
  · exact hv (he ▸ hs)
  · rcases List.suffix_cons_iff.mp (he ▸ hs) with hn | hs
    · cases hn
    · exact hv hs
  · rcases List.suffix_cons_iff.mp (he ▸ hs) with hn | hs
    · cases hn
      exact ho hw
    · exact hv hs

theorem PushState.Answered.call (hv : v.Answered) {accepted : Bool}
    (hm : .answered k h n accepted ∈ v.log) : ∃ id c, .called k (.sync h n id c) ∈ v.log := by
  obtain ⟨before, rest, he⟩ := List.mem_iff_append.mp hm
  have hsuffix : .answered k h n accepted :: rest <:+ v.log := ⟨before, he.symm⟩
  obtain ⟨id, c, hc⟩ := hv hsuffix
  exact ⟨id, c, he ▸ List.mem_append_right _ (List.mem_cons_of_mem _ hc)⟩

/-- A push of a version was accepted. -/
def PushState.Accepted (v : PushState) (h n : Nat) : Prop := ∃ k, .answered k h n true ∈ v.log

theorem PushState.Accepted.le (ha : v.Accepted h n) (hc : v.Called) (hv : v.Answered)
    (hx : v.session h = some x) : n ≤ x.version := by
  obtain ⟨k, hm⟩ := ha
  obtain ⟨id, c, hm⟩ := hv.call hm
  obtain ⟨y, hy, _, hle, _⟩ := hc hm
  obtain rfl : x = y := Option.some.inj (hx.symm.trans hy)
  exact hle

/-- The version and the text of a session's push. -/
def Notice.sync? (h : Nat) : Notice → Option (Nat × List Char)
  | .called _ (.sync k n _ c) => if k = h then some (n, c) else none
  | _ => none

/-- The pushes of a session, newest first. -/
def syncs (h : Nat) (log : List Notice) : List (Nat × List Char) := log.filterMap (Notice.sync? h)

theorem mem_syncs {log : List Notice} {c : List Char} (hc : (n, c) ∈ syncs h log) :
    ∃ k id, .called k (.sync h n id c) ∈ log := by
  obtain ⟨m, hm, he⟩ := List.mem_filterMap.mp hc
  simp only [Notice.sync?] at he
  split at he
  · split at he
    · cases he
      subst_vars
      exact ⟨_, _, hm⟩
    · cases he
  · cases he

theorem Part.syncs (hp : Part place v d w) (h : Nat) :
    syncs h w.log = syncs h v.log ∨ d = .pushed h ∧ ∃ x, w.IsOpen h x ∧
      syncs h w.log = (x.version, x.document.fullText) :: syncs h v.log := by
  rcases hp.log with he | ⟨j, n, hd, ⟨x, task, after, hx, _, rfl⟩, he⟩ |
    ⟨_, _, _, _, _, _, _, he⟩
  · exact Or.inl (congrArg _ he)
  · by_cases hj : j = h
    · subst j
      refine Or.inr ⟨hd, x, hx, ?_⟩
      simp [he, Service.syncs, Notice.sync?]
    · refine Or.inl ?_
      simp [he, Service.syncs, Notice.sync?, hj]
  · rw [he]
    exact Or.inl rfl

/-- The versions of a session's pushes do not decrease. -/
def PushState.Ordered (v : PushState) : Prop :=
  ∀ h, (syncs h v.log).Pairwise fun later earlier => earlier.1 ≤ later.1

theorem Part.ordered (hp : Part place v d w) (hc : v.Called) (hv : v.Ordered) : w.Ordered := by
  intro h
  rcases hp.syncs h with he | ⟨_, y, hy, he⟩
  · exact he ▸ hv h
  · rw [he]
    refine List.pairwise_cons.mpr ⟨?_, hv h⟩
    rintro ⟨n, c⟩ hm
    obtain ⟨k, id, hm⟩ := mem_syncs hm
    obtain ⟨x, hx, _, hle, _⟩ := hc hm
    obtain ⟨z, hz, hxz⟩ := hp.evolves hx
    obtain rfl : y = z := Option.some.inj (hy.1.symm.trans hz)
    exact Nat.le_trans hle hxz.version

end DocSync.Service
