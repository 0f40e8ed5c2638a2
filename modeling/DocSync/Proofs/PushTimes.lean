import DocSync.Proofs.BusyMarks
import DocSync.Proofs.PushOrder
import DocSync.Proofs.Punctual

/-!
When a session is pushed. In a punctual run its pushes are these: one at the time at which it is
opened, one at each flush, and one at the end of the delay after each edit, unless another edit, a
flush or the close of the session comes before.
-/

namespace DocSync.Service

variable {r : Run} {s : Service} {e : Event} {h i j k m t task : Nat} {x y : Session}
  {sleeper : Sleeper Debounce}

def Run.Opens (r : Run) (k h : Nat) : Prop :=
  (r.state k).session? h = none ∧ ∃ x, (r.state (k + 1)).session? h = some x

/-- The session accepts an edit. -/
def Run.Edits (r : Run) (k h : Nat) : Prop :=
  ∃ x d, (r.state k).IsOpen h x ∧ x.edit? h (r.event k) = some d

/-- The session is flushed while it is open. -/
def Run.Flushes (r : Run) (k h : Nat) : Prop :=
  ∃ x, (r.state k).IsOpen h x ∧ (r.state k).Flushes h (r.event k)

/-- What is due for the session is not pushed any more. -/
def Run.Supersedes (r : Run) (k h : Nat) : Prop :=
  r.Edits k h ∨ r.Flushes k h ∨ (∃ x, (r.state k).IsOpen h x) ∧ r.Closes k h

/-- The event makes a push of the session due at a time. -/
inductive Run.Schedules (r : Run) (k h : Nat) : Nat → Prop where
  | opened (ho : r.Opens k h) : Schedules r k h (r.state k).now
  | edited (he : r.Edits k h) : Schedules r k h ((r.state k).now + r.syncDelay)

/-- The push is still due when the clock reaches its time. -/
structure Run.Due (r : Run) (k h t : Nat) : Prop where
  scheduled : r.Schedules k h t
  last : ∀ m, k < m → r.Supersedes m h → t ≤ (r.state m).now

/-- The event owes the session a push at a time. An edit does unless something supersedes it before
the clock reaches that time. -/
inductive Run.Owes (r : Run) (k h : Nat) : Nat → Prop where
  | opened (ho : r.Opens k h) : Owes r k h (r.state k).now
  | flushed (hf : r.Flushes k h) : Owes r k h (r.state k).now
  | edited (he : r.Edits k h)
      (hl : ∀ m, k < m → r.Supersedes m h → (r.state k).now + r.syncDelay ≤ (r.state m).now) :
      Owes r k h ((r.state k).now + r.syncDelay)

/-- The event calls a push of the session. -/
def Run.Pushes (r : Run) (k h : Nat) : Prop :=
  (r.state (k + 1)).pushes h ≠ (r.state k).pushes h

/-- From an event up to a state the session is not pushed. -/
def Run.Silent (r : Run) (i k h : Nat) : Prop := ∀ m, i ≤ m → m < k → ¬r.Pushes m h

/-- What an event owes comes at its time, as the first push from then on. -/
structure Run.Serves (r : Run) (i j h : Nat) : Prop where
  owed : r.Owes i h (r.state j).now
  after : i ≤ j
  pushed : r.Pushes j h
  first : r.Silent i j h

/-- No completion debounce of the session ends at a time at which another push is due. -/
def Run.Apart (r : Run) (h : Nat) : Prop :=
  ∀ i j t task, r.Due i h t → i < j → r.Flushes j h → r.event j = .run task →
    (r.state j).now ≠ t

theorem Run.Silent.refl (r : Run) (i h : Nat) : r.Silent i i h :=
  fun _ him hmi => absurd hmi (Nat.not_lt_of_le him)

theorem Run.Silent.next (hs : r.Silent i k h) (hp : ¬r.Pushes k h) : r.Silent i (k + 1) h := by
  intro m him hm
  rcases Nat.lt_succ_iff_lt_or_eq.mp hm with hm | rfl
  · exact hs m him hm
  · exact hp

theorem PushLast.calls {P : Deed → Prop} {v w : PushState} (hp : PushLast .inside P v w) (h : Nat) :
    syncs h w.log = syncs h v.log ∨ P (.pushed h) ∧ ∃ x, w.IsOpen h x ∧
      syncs h w.log = (x.version, x.document.fullText) :: syncs h v.log := by
  have hparts {Q : Deed → Prop} {u : PushState} (hp : Parts .inside Q v u)
      (hQ : ∀ d, Q d → d ≠ .pushed h) : syncs h u.log = syncs h v.log := by
    induction hp with
    | refl => rfl
    | tail _ hq hd ih =>
      rcases hq.syncs h with he | ⟨hpushed, _⟩
      · exact he.trans ih
      · exact absurd hpushed (hQ _ hd)
  rcases hp with hp | ⟨u, k, hp, hq, hd⟩
  · refine Or.inl (hparts hp ?_)
    rintro d ⟨_, hd⟩ rfl
    cases hd
  · have hu := hparts hp (by
      rintro d rfl
      exact nofun)
    rcases hq.syncs h with he | ⟨hk, x, hx, he⟩
    · exact Or.inl (he.trans hu)
    · cases hk
      exact Or.inr ⟨hd, x, hx, he.trans (hu ▸ rfl)⟩

theorem Run.push_cases (r : Run) (k h : Nat) :
    ¬r.Pushes k h ∨ r.Pushes k h ∧ ∃ x, (r.state (k + 1)).IsOpen h x ∧
      (r.state (k + 1)).pushes h = (x.version, x.document.fullText) :: (r.state k).pushes h := by
  simp only [Pushes, pushes_eq]
  rcases (r.step k).calls h with he | ⟨_, x, hx, he⟩
  · exact Or.inl (not_not_intro he)
  · refine Or.inr ⟨?_, x, hx, he⟩
    rw [he]
    exact List.cons_ne_self _ _

theorem Run.quiet_of_calls (hc : syncs h (r.state (k + 1)).pushState.log =
    syncs h (r.state k).pushState.log) : ¬r.Pushes k h := by
  simp only [Pushes, pushes_eq]
  exact not_not_intro hc

theorem Run.pushes_of_pushed {due : Option Nat}
    (hp : (r.state k).pushState.Pushed (r.state (k + 1)).pushState h x due) : r.Pushes k h := by
  obtain ⟨n, hc⟩ := hp.calls
  simp only [Pushes, pushes_eq, hc]
  exact List.cons_ne_self _ _

theorem Run.not_pushes (r : Run) (ho : ∀ x, ¬(r.state (k + 1)).IsOpen h x) : ¬r.Pushes k h := by
  rcases r.push_cases k h with hp | ⟨_, x, hx, _⟩
  · exact hp
  · exact absurd hx (ho x)

/-- When the next push of the session is due. -/
def Run.pending (r : Run) (k h : Nat) : Option Nat := (r.state k).pushState.due h

/-- All that an event can do about the pushes of a session. -/
inductive Run.Moves (r : Run) (k h : Nat) : Prop where
  | scheduled {t : Nat} (hs : r.Schedules k h t)
  | flushed (hf : r.Flushes k h) (hd : r.pending (k + 1) h = none) (hp : r.Pushes k h)
  | closed (hs : r.Supersedes k h) (hd : r.pending (k + 1) h = none) (hp : ¬r.Pushes k h)
  | kept (hs : ¬r.Supersedes k h) (hd : r.pending (k + 1) h = r.pending k h)
      (hp : ¬r.Pushes k h)
  | fired {i : Nat} {sleeper : Sleeper Debounce} (hs : ¬r.Supersedes k h)
      (he : r.event k = .fire i) (hf : (r.state k).agenda.find? i = some sleeper)
      (hh : sleeper.job.session = h) (hle : sleeper.deadline ≤ (r.state k).now)
      (hb : r.pending k h = some sleeper.deadline) (hd : r.pending (k + 1) h = none)
      (hp : ¬r.Pushes k h)
  | started {task : Nat} (hs : ¬r.Supersedes k h) (he : r.event k = .run task)
      (hw : (r.state k).work task = some (.start h))
      (hd : r.pending (k + 1) h = r.pending k h) (hp : r.Pushes k h)

theorem Event.isCall_of_isRewiring (he : e.isRewiring = true) : e.isCall = true := by
  cases e <;> first | rfl | cases he

theorem isCall_of_edit {document : Document} (hd : x.edit? h e = some document) :
    e.isCall = true := by
  cases e <;> first | rfl | cases hd

theorem Run.stays_open (r : Run) (hx : (r.state k).IsOpen h x)
    (hy : (r.state (k + 1)).session? h = some y) (hr : (r.event k).isRewiring = false) :
    y.isClosed = false := by
  have hw := ((r.step k).parts trivial).wire fun d hd => hd.isRewiring hr
  exact (eq_of_wire hw hx.1 hy).2.trans hx.2

theorem Run.not_open (r : Run) (hx : (r.state k).session? h = some x) (hc : x.isClosed = true) :
    ∀ y, ¬(r.state k).IsOpen h y :=
  fun _ => not_isOpen (v := (r.state k).pushState) hx hc

theorem Run.pending_none (r : Run) (ho : ∀ x, ¬(r.state k).IsOpen h x) : r.pending k h = none := by
  cases hx : (r.state k).session? h with
  | none =>
    have hx' : (r.state k).pushState.session h = none := hx
    simp only [pending, PushState.due, hx', Option.bind_none]
  | some x =>
    cases hc : x.isClosed with
    | false => exact absurd ⟨hx, hc⟩ (ho x)
    | true => exact due_of_pending (v := (r.state k).pushState) hx (r.resting k hx hc).2

theorem Run.Supersedes.isOpen (hs : r.Supersedes k h) : ∃ x, (r.state k).IsOpen h x := by
  rcases hs with ⟨x, _, hx, _⟩ | ⟨x, hx, _⟩ | ⟨hx, _⟩
  · exact ⟨x, hx⟩
  · exact ⟨x, hx⟩
  · exact hx

theorem Run.Schedules.armed (hs : r.Schedules k h t) :
    (r.event k).isCall = true ∧ r.pending (k + 1) h = some t ∧ ¬r.Pushes k h := by
  cases hs with
  | opened ho =>
    obtain ⟨hx, y, hy⟩ := ho
    obtain ⟨_, id, document, channel, he, harmed, _⟩ := next_opened (r.sound k) (r.whole k) hx hy
    exact ⟨he ▸ rfl, harmed.due, quiet_of_calls harmed.calls⟩
  | edited he =>
    obtain ⟨x, d, hx, hd⟩ := he
    have harmed := next_armed (r.sound k) hx hd
    rw [r.syncDelay_eq k] at harmed
    exact ⟨isCall_of_edit hd, harmed.due, quiet_of_calls harmed.calls⟩

theorem Run.Supersedes.isCall (hs : r.Supersedes k h) :
    (r.event k).isCall = true ∨ r.Flushes k h ∧ ∃ task, r.event k = .run task := by
  rcases hs with ⟨x, d, _, hd⟩ | ⟨x, hx, hf⟩ | ⟨⟨x, hx⟩, y, hy, hc⟩
  · exact Or.inl (isCall_of_edit hd)
  · generalize he : r.event k = e at hf
    cases hf with
    | call => exact Or.inl rfl
    | @elapse task _ _ _ _ _ hw hr hd =>
      exact Or.inr ⟨⟨x, hx, he ▸ .elapse hw hr hd⟩, task, rfl⟩
  · refine Or.inl (Event.isCall_of_isRewiring ?_)
    cases hr : (r.event k).isRewiring with
    | true => rfl
    | false => exact absurd ((r.stays_open hx hy hr).symm.trans hc) (by decide)

theorem Run.moves_closed (r : Run) (hk : ∀ x, ¬(r.state k).IsOpen h x)
    (hk' : ∀ x, ¬(r.state (k + 1)).IsOpen h x) : r.Moves k h := by
  refine .kept ?_ ((r.pending_none hk').trans (r.pending_none hk).symm) (r.not_pushes hk')
  intro hs
  obtain ⟨x, hx⟩ := hs.isOpen
  exact hk x hx

theorem Run.moves_open (r : Run) (hx : (r.state k).IsOpen h x) (hy : (r.state (k + 1)).IsOpen h y)
    (hd : x.edit? h (r.event k) = none) (hf : ¬(r.state k).Flushes h (r.event k)) :
    r.Moves k h := by
  have hsup : ¬r.Supersedes k h := by
    rintro (⟨z, d, hz, hd'⟩ | ⟨_, _, hf'⟩ | ⟨_, z, hz, hc⟩)
    · obtain rfl := Option.some.inj (hx.1.symm.trans hz.1)
      exact absurd (hd.symm.trans hd').symm (Option.some_ne_none d)
    · exact hf hf'
    · exact r.not_open hz hc y hy
  have hrests := next_rests (r.sound k) (r.whole k) hx hy hd hf
  generalize he : r.event k = e at hrests
  have hnext : (r.state k).next e = r.state (k + 1) := he ▸ rfl
  rw [hnext] at hrests
  generalize ht : r.state (k + 1) = t at hrests
  cases hrests with
  | steady hsteady =>
    subst ht
    exact .kept hsup hsteady.due (quiet_of_calls hsteady.calls)
  | fired hfind hh hle hfired =>
    subst ht hh
    exact .fired hsup he hfind rfl hle hfired.before hfired.due (quiet_of_calls hfired.calls)
  | started hw hpushed =>
    subst ht
    exact .started hsup he hw hpushed.due (pushes_of_pushed hpushed)

theorem Run.moves (r : Run) (k h : Nat) : r.Moves k h := by
  cases hx : (r.state k).session? h with
  | none =>
    have hclosed : ∀ x, ¬(r.state k).IsOpen h x := fun x ho =>
      Option.some_ne_none x (ho.1.symm.trans hx)
    cases hy : (r.state (k + 1)).session? h with
    | none =>
      exact r.moves_closed hclosed fun y ho => Option.some_ne_none y (ho.1.symm.trans hy)
    | some y => exact .scheduled (.opened ⟨hx, y, hy⟩)
  | some x =>
    obtain ⟨y, hy, hxy⟩ := r.evolves (Nat.le_succ k) hx
    cases hc : x.isClosed with
    | true =>
      have hyc := (hxy.closed hc).1
      exact r.moves_closed (r.not_open hx hc) (r.not_open hy hyc)
    | false =>
      have hopen : (r.state k).IsOpen h x := ⟨hx, hc⟩
      cases hd : x.edit? h (r.event k) with
      | some document => exact .scheduled (.edited ⟨x, document, hopen, hd⟩)
      | none =>
        by_cases hf : (r.state k).Flushes h (r.event k)
        case pos =>
          have hpushed := next_flushed (r.invariant k) hopen hf
          exact .flushed ⟨x, hopen, hf⟩ hpushed.due (pushes_of_pushed hpushed)
        cases hyc : y.isClosed with
        | true =>
          have hnot := r.not_open hy hyc
          exact .closed (Or.inr (Or.inr ⟨⟨x, hopen⟩, y, hy, hyc⟩)) (r.pending_none hnot)
            (r.not_pushes hnot)
        | false => exact r.moves_open hopen ⟨hy, hyc⟩ hd hf

theorem Run.start_next (r : Run) (hw : (r.state (k + 1)).work task = some (.start h)) :
    (r.state k).work task = some (.start h) ∧ r.event k ≠ .run task ∨
      ∃ i sleeper, r.event k = .fire i ∧ (r.state k).agenda.find? i = some sleeper ∧
        sleeper.deadline ≤ (r.state k).now ∧ sleeper.job.session = h ∧
        task = (r.state k).nextTask := by
  rcases work_next (e := r.event k) (r.unused k) hw with hold | ⟨ha, hb⟩
  · refine Or.inl ⟨hold, fun he => ?_⟩
    have hold' : (r.state k).tasks.lookup task = some (.start h) := hold
    simp only [state, he, next, hold', run] at hw
    obtain ⟨x, _, ⟨_, he⟩ | ⟨_, _, _, _, _, ha, _⟩⟩ := work_push _ hw
    · cases he
    · cases ha
  · generalize he : r.event k = e at ha hb
    cases hb with
    | @start i sleeper hf hd =>
      exact Or.inr ⟨i, sleeper, rfl, hf, hd, rfl, (Option.some.inj ha).symm⟩

theorem Run.start_stays (r : Run) (hw : (r.state k).work task = some (.start h))
    (he : r.event k ≠ .run task) : (r.state (k + 1)).work task = some (.start h) := by
  by_cases ha : (r.state k).actor (r.event k) = some task
  case neg => exact (work_next_of_ne ha).trans hw
  have hused : (r.state k).nextTask ≠ task := by
    rintro rfl
    exact Option.some_ne_none _ (hw.symm.trans (r.unused k))
  simp only [state]
  generalize r.event k = e at he ha
  cases e with
  | run j => exact absurd (congrArg Event.run (Option.some.inj ha)) he
  | answer j a =>
    obtain rfl : j = task := Option.some.inj ha
    rw [next_answer hw]
    exact hw
  | flush | complete | info | connect | shutdown | fire =>
    exact absurd (Option.some.inj ha) hused
  | openDocument | beginOpen | finishOpen | closeDocument | change | setText | setContext |
    closeSession | receive | endStream | pass => cases ha

theorem Run.fire_starts (r : Run) (he : r.event k = .fire i)
    (hf : (r.state k).agenda.find? i = some sleeper) (hd : sleeper.deadline ≤ (r.state k).now) :
    (r.state (k + 1)).work (r.state k).nextTask = some (.start sleeper.job.session) := by
  obtain ⟨x, hx, _, hg⟩ := r.sleeping k _ hf
  have hx' : (r.state k).session? sleeper.job.session = some x := hx.1
  rw [state, he, next_fire hf hd, fire]
  have hself : ({ r.state k with agenda := (r.state k).agenda.drop sleeper.id }).session?
      sleeper.job.session = some x := hx'
  rw [hself]
  simp only [Timer.fire?, hg, ↓reduceIte]
  refine (work_spawn (s := setSession _ _ _) (k := (r.state k).nextTask)).trans ?_
  have hnone := r.unused k
  exact (congrArg (Option.or · _) hnone).trans (if_pos rfl)

theorem IsSettled.not_starting (hs : s.IsSettled) : s.work task ≠ some (.start h) := by
  intro hw
  have hrun := hs.waits hw
  cases hrun

theorem due_sleeper {v : PushState} (hd : v.due h = some t) :
    ∃ i sleeper, v.agenda.find? i = some sleeper ∧ sleeper.deadline = t := by
  simp only [PushState.due] at hd
  obtain ⟨x, _, hd⟩ := Option.bind_eq_some_iff.mp hd
  obtain ⟨i, _, hd⟩ := Option.bind_eq_some_iff.mp hd
  obtain ⟨sleeper, hf, ht⟩ := Option.map_eq_some_iff.mp hd
  exact ⟨i, sleeper, hf, ht⟩

theorem Run.before_pending (hs : (r.state k).IsSettled) (hd : r.pending k h = some t) :
    (r.state k).now < t := by
  obtain ⟨i, sleeper, hf, rfl⟩ := due_sleeper hd
  exact hs.sleeps hf

theorem Run.Punctual.now_le (hr : r.Punctual) (hd : r.pending k h = some t)
    (ht : (r.state k).now ≤ t) : (r.state (k + 1)).now ≤ t := by
  by_cases he : ∃ n, r.event k = .pass n
  case neg => exact (now_next (s := r.state k) (not_exists.mp he)).symm ▸ ht
  obtain ⟨n, he⟩ := he
  obtain ⟨i, sleeper, hf, rfl⟩ := due_sleeper hd
  obtain ⟨d, hd, hle⟩ := deadline?_le (s := r.state k) hf
  simp only [state, he, next]
  exact Nat.le_trans (hr.stops k n d he hd) hle

theorem Run.Punctual.now_eq (hr : r.Punctual) (hw : (r.state k).work task = some (.start h)) :
    (r.state (k + 1)).now = (r.state k).now := by
  refine now_next fun n he => ?_
  exact (hr.waits k n he).not_starting hw

/-- An event made a push due at a time, and since then nothing superseded it and nothing was pushed.
-/
def Run.Awaits (r : Run) (k h t : Nat) : Prop :=
  ∃ i < k, r.Schedules i h t ∧ (∀ m, i < m → m < k → ¬r.Supersedes m h) ∧ r.Silent i k h

theorem Run.Awaits.extend (ha : r.Awaits k h t) (hs : ¬r.Supersedes k h) (hp : ¬r.Pushes k h) :
    r.Awaits (k + 1) h t := by
  obtain ⟨i, hi, hsched, hsup, hsilent⟩ := ha
  refine ⟨i, Nat.lt_succ_of_lt hi, hsched, fun m him hm => ?_, hsilent.next hp⟩
  rcases Nat.lt_succ_iff_lt_or_eq.mp hm with hm | rfl
  · exact hsup m him hm
  · exact hs

theorem Run.Awaits.due (ha : r.Awaits k h (r.state k).now) :
    ∃ i < k, r.Due i h (r.state k).now ∧ r.Silent i k h := by
  obtain ⟨i, hi, hsched, hsup, hsilent⟩ := ha
  refine ⟨i, hi, ⟨hsched, fun m him hm => ?_⟩, hsilent⟩
  rcases Nat.lt_or_ge m k with hmk | hkm
  · exact absurd hm (hsup m him hmk)
  · exact r.now_mono hkm

theorem Run.Punctual.settled (hr : r.Punctual) (ha : r.Apart h) (hd : r.Due i h (r.state k).now)
    (hik : i < k) (hs : r.Supersedes k h) : (r.state k).IsSettled := by
  rcases hs.isCall with hc | ⟨hf, task, he⟩
  · exact hr.calls k hc
  · exact absurd rfl (ha i k _ task hd hik hf he)

/-- Where the pushes of a session that are still to come come from. -/
structure Run.Timely (r : Run) (k h : Nat) : Prop where
  pending : ∀ {t}, r.pending k h = some t → (r.state k).now ≤ t ∧ r.Awaits k h t
  starting : ∀ {task}, (r.state k).work task = some (.start h) →
    r.pending k h = none ∧ (∃ x, (r.state k).IsOpen h x) ∧ r.Awaits k h (r.state k).now
  once : ∀ {task task'}, (r.state k).work task = some (.start h) →
    (r.state k).work task' = some (.start h) → task' = task

theorem Run.Schedules.le (hs : r.Schedules k h t) : (r.state k).now ≤ t := by
  cases hs with
  | opened => exact Nat.le_refl _
  | edited => exact Nat.le_add_right _ _

theorem Run.fired (r : Run) (he : r.event k = .fire i)
    (hf : (r.state k).agenda.find? i = some sleeper) (hd : sleeper.deadline ≤ (r.state k).now) :
    (r.state k).pushState.Fired (r.state (k + 1)).pushState sleeper.job.session
      sleeper.deadline := by
  have hnext : r.state (k + 1) = (r.state k).fire sleeper := by
    rw [state, he, next_fire hf hd]
  rw [hnext]
  exact fired_fire (r.sleeping k) hf

theorem Run.open_next (hx : (r.state k).IsOpen h x) (hs : ¬r.Supersedes k h) :
    ∃ y, (r.state (k + 1)).IsOpen h y := by
  obtain ⟨y, hy, _⟩ := r.evolves (Nat.le_succ k) hx.1
  refine ⟨y, hy, ?_⟩
  cases hc : y.isClosed with
  | false => rfl
  | true => exact absurd (Or.inr (Or.inr ⟨⟨x, hx⟩, y, hy, hc⟩)) hs

theorem Run.Timely.unsuperseded (hT : r.Timely k h) (hr : r.Punctual) (ha : r.Apart h)
    (hw : (r.state k).work task = some (.start h)) : ¬r.Supersedes k h := by
  intro hs
  obtain ⟨i, hik, hd, _⟩ := (hT.starting hw).2.2.due
  exact (hr.settled ha hd hik hs).not_starting hw

theorem Run.Timely.pending_next (hT : r.Timely k h) (hr : r.Punctual)
    (hd : r.pending (k + 1) h = some t) :
    (r.state (k + 1)).now ≤ t ∧ r.Awaits (k + 1) h t := by
  cases r.moves k h with
  | scheduled hs =>
    obtain ⟨hc, hd', hp⟩ := hs.armed
    obtain rfl := Option.some.inj (hd'.symm.trans hd)
    have hnow : (r.state (k + 1)).now = (r.state k).now :=
      now_next fun n he => by simp [he, Event.isCall] at hc
    refine ⟨hnow ▸ hs.le, k, Nat.lt_succ_self k, hs, ?_, (Silent.refl r k h).next hp⟩
    intro m hkm hm
    omega
  | flushed _ hd' => exact absurd (hd.symm.trans hd') (Option.some_ne_none t)
  | closed _ hd' => exact absurd (hd.symm.trans hd') (Option.some_ne_none t)
  | fired _ _ _ _ _ _ hd' => exact absurd (hd.symm.trans hd') (Option.some_ne_none t)
  | kept hs hd' hp =>
    have hd := hd'.symm.trans hd
    obtain ⟨hle, haw⟩ := hT.pending hd
    exact ⟨hr.now_le hd hle, haw.extend hs hp⟩
  | started _ _ hw hd' =>
    have hnone := (hT.starting hw).1
    exact absurd (hd.symm.trans (hd'.trans hnone)) (Option.some_ne_none t)

theorem Run.Timely.starting_kept (hT : r.Timely k h) (hr : r.Punctual) (ha : r.Apart h)
    (hw : (r.state k).work task = some (.start h)) (hne : r.event k ≠ .run task) :
    r.pending (k + 1) h = none ∧ (∃ x, (r.state (k + 1)).IsOpen h x) ∧
      r.Awaits (k + 1) h (r.state (k + 1)).now := by
  obtain ⟨hnone, ⟨x, hx⟩, haw⟩ := hT.starting hw
  have hsup := hT.unsuperseded hr ha hw
  have hopen := open_next hx hsup
  have hnow := hr.now_eq hw
  cases r.moves k h with
  | scheduled hs => exact absurd hw (hr.calls k hs.armed.1).not_starting
  | flushed hf => exact absurd (Or.inr (Or.inl hf)) hsup
  | closed hs => exact absurd hs hsup
  | fired _ _ _ _ _ hb => exact absurd (hb.symm.trans hnone) (Option.some_ne_none _)
  | kept _ hd hp => exact ⟨hd.trans hnone, hopen, hnow ▸ haw.extend hsup hp⟩
  | started _ he hw' => exact absurd (hT.once hw' hw ▸ he) hne

theorem Run.Timely.starting_fired (hT : r.Timely k sleeper.job.session) (he : r.event k = .fire i)
    (hf : (r.state k).agenda.find? i = some sleeper) (hle : sleeper.deadline ≤ (r.state k).now) :
    r.pending (k + 1) sleeper.job.session = none ∧
      (∃ x, (r.state (k + 1)).IsOpen sleeper.job.session x) ∧
      r.Awaits (k + 1) sleeper.job.session (r.state (k + 1)).now := by
  have hfired := r.fired he hf hle
  obtain ⟨hle', haw⟩ := hT.pending hfired.before
  obtain ⟨x, hx, _⟩ := r.sleeping k _ hf
  have hsup : ¬r.Supersedes k sleeper.job.session := by
    intro hs
    rcases hs.isCall with hc | ⟨_, task, ht⟩
    · simp [he, Event.isCall] at hc
    · cases he.symm.trans ht
  have hnow : (r.state (k + 1)).now = (r.state k).now :=
    now_next fun n hn => Event.noConfusion (he.symm.trans hn)
  have ht : (r.state (k + 1)).now = sleeper.deadline := hnow.trans (Nat.le_antisymm hle' hle)
  exact ⟨hfired.due, open_next hx hsup, ht ▸ haw.extend hsup (quiet_of_calls hfired.calls)⟩

theorem Run.Timely.not_fired (hT : r.Timely k sleeper.job.session) (he : r.event k = .fire i)
    (hf : (r.state k).agenda.find? i = some sleeper) (hle : sleeper.deadline ≤ (r.state k).now) :
    (r.state k).work task ≠ some (.start sleeper.job.session) := by
  intro hw
  have hb := (r.fired he hf hle).before
  exact absurd (hb.symm.trans (hT.starting hw).1) (Option.some_ne_none _)

theorem Run.timely (hr : r.Punctual) (ha : r.Apart h) (k : Nat) : r.Timely k h := by
  induction k with
  | zero =>
    refine ⟨fun hd => ?_, fun hw => ?_, fun hw => ?_⟩
    · cases hd
    · cases hw
    · cases hw
  | succ k ih =>
    constructor
    · intro t hd
      exact ih.pending_next hr hd
    · intro task hw
      rcases r.start_next hw with ⟨hold, hne⟩ | ⟨i, sleeper, he, hf, hle, rfl, rfl⟩
      · exact ih.starting_kept hr ha hold hne
      · exact ih.starting_fired he hf hle
    · intro task task' hw hw'
      rcases r.start_next hw with ⟨hold, _⟩ | ⟨i, sleeper, he, hf, hle, rfl, rfl⟩
      · rcases r.start_next hw' with ⟨hold', _⟩ | ⟨i, sleeper, he, hf, hle, rfl, _⟩
        · exact ih.once hold hold'
        · exact absurd hold (ih.not_fired he hf hle)
      · rcases r.start_next hw' with ⟨hold', _⟩ | ⟨_, _, _, _, _, _, rfl⟩
        · exact absurd hold' (ih.not_fired he hf hle)
        · rfl

theorem Run.Due.owes (hd : r.Due k h t) : r.Owes k h t := by
  obtain ⟨hs, hl⟩ := hd
  cases hs with
  | opened ho => exact .opened ho
  | edited he => exact .edited he hl

theorem Run.Owes.cases (ho : r.Owes k h t) : r.Flushes k h ∧ (r.state k).now = t ∨ r.Due k h t := by
  cases ho with
  | opened ho => exact Or.inr ⟨.opened ho, fun m hm _ => r.now_mono (Nat.le_of_lt hm)⟩
  | flushed hf => exact Or.inl ⟨hf, rfl⟩
  | edited he hl => exact Or.inr ⟨.edited he, hl⟩

theorem Run.Flushes.pushes (hf : r.Flushes k h) : r.Pushes k h := by
  obtain ⟨x, hx, hf⟩ := hf
  exact pushes_of_pushed (next_flushed (r.invariant k) hx hf)

theorem Run.start_pushes (he : r.event k = .run task)
    (hw : (r.state k).work task = some (.start h)) (hx : (r.state k).IsOpen h x) :
    r.Pushes k h := by
  have hnext : r.state (k + 1) = (r.state k).push task h .nothing := by
    rw [state, he, next_run hw, run]
  have hpushed : (r.state k).pushState.Pushed ((r.state k).push task h .nothing).pushState h x
      ((r.state k).pushState.due h) := pushed_start (r.invariant k) hx
  rw [← hnext] at hpushed
  exact pushes_of_pushed hpushed

theorem Run.Pushes.served (hr : r.Punctual) (ha : r.Apart h) (hp : r.Pushes j h) :
    ∃ i, r.Serves i j h := by
  cases r.moves j h with
  | scheduled hs => exact absurd hp hs.armed.2.2
  | flushed hf =>
    exact ⟨j, .flushed hf, Nat.le_refl j, hp, .refl r j h⟩
  | closed _ _ hn => exact absurd hp hn
  | kept _ _ hn => exact absurd hp hn
  | fired _ _ _ _ _ _ _ hn => exact absurd hp hn
  | started _ _ hw =>
    obtain ⟨i, hij, hd, hfirst⟩ := ((timely hr ha j).starting hw).2.2.due
    exact ⟨i, hd.owes, Nat.le_of_lt hij, hp, hfirst⟩

/-- A push that is due sleeps until its time, or a task is about to call it, at its time. -/
inductive Run.Coming (r : Run) (k h t : Nat) : Prop where
  | sleeping (hle : (r.state k).now ≤ t) (hp : r.pending k h = some t)
  | starting {task : Nat} (hnow : (r.state k).now = t)
      (hw : (r.state k).work task = some (.start h))

theorem Run.Due.sleeps_next (hr : r.Punctual) (ha : r.Apart h) (hd : r.Due i h t) (hik : i < k)
    (hle : (r.state k).now ≤ t) (hp : r.pending k h = some t) :
    ¬r.Pushes k h ∧ r.Coming (k + 1) h t := by
  have hkeeps : ¬r.Supersedes k h := by
    intro hs
    obtain rfl := Nat.le_antisymm hle (hd.last k hik hs)
    exact Nat.lt_irrefl _ (before_pending (hr.settled ha hd hik hs) hp)
  cases r.moves k h with
  | scheduled hs =>
    cases hs with
    | opened ho =>
      have hx : (r.state k).pushState.session h = none := ho.1
      simp only [pending, PushState.due, hx, Option.bind_none] at hp
      cases hp
    | edited he => exact absurd (Or.inl he) hkeeps
  | flushed hf => exact absurd (Or.inr (Or.inl hf)) hkeeps
  | closed hs => exact absurd hs hkeeps
  | kept _ hd' hn => exact ⟨hn, .sleeping (hr.now_le hp hle) (hd'.trans hp)⟩
  | fired _ he hf hh hle' hb _ hn =>
    obtain rfl := Option.some.inj (hb.symm.trans hp)
    have hnow : (r.state (k + 1)).now = (r.state k).now :=
      now_next fun n hn => Event.noConfusion (he.symm.trans hn)
    have hstarts := hh ▸ r.fire_starts he hf hle'
    exact ⟨hn, .starting (hnow.trans (Nat.le_antisymm hle hle')) hstarts⟩
  | started _ _ hw =>
    have hnone := ((timely hr ha k).starting hw).1
    exact absurd (hp.symm.trans hnone) (Option.some_ne_none t)

theorem Run.starts_next (hr : r.Punctual) (ha : r.Apart h)
    (hw : (r.state k).work task = some (.start h)) :
    r.Pushes k h ∨ ¬r.Pushes k h ∧ r.Coming (k + 1) h (r.state k).now := by
  obtain ⟨hnone, ⟨x, hx⟩, _⟩ := (timely hr ha k).starting hw
  have hkeeps := (timely hr ha k).unsuperseded hr ha hw
  cases r.moves k h with
  | scheduled hs => exact absurd hw (hr.calls k hs.armed.1).not_starting
  | flushed hf => exact absurd (Or.inr (Or.inl hf)) hkeeps
  | closed hs => exact absurd hs hkeeps
  | fired _ _ _ _ _ hb => exact absurd (hb.symm.trans hnone) (Option.some_ne_none _)
  | kept _ _ hn =>
    have hstays := r.start_stays hw fun he => hn (start_pushes he hw hx)
    exact Or.inr ⟨hn, .starting (hr.now_eq hw) hstays⟩
  | started _ _ _ _ hp => exact Or.inl hp

theorem Run.Due.progress (hr : r.Punctual) (ha : r.Apart h) (hd : r.Due i h t) (hik : i < k) :
    (∃ j < k, (r.state j).now = t ∧ r.Serves i j h) ∨ r.Silent i k h ∧ r.Coming k h t := by
  induction hik with
  | refl =>
    obtain ⟨_, hp, hn⟩ := hd.scheduled.armed
    have hle := ((timely hr ha (i + 1)).pending hp).1
    exact Or.inr ⟨(Silent.refl r i h).next hn, .sleeping hle hp⟩
  | @step k hik ih =>
    rcases ih with ⟨j, hj, hserved⟩ | ⟨hsilent, hcoming⟩
    · exact Or.inl ⟨j, Nat.lt_succ_of_lt hj, hserved⟩
    · cases hcoming with
      | sleeping hle hp =>
        obtain ⟨hn, hcoming⟩ := hd.sleeps_next hr ha hik hle hp
        exact Or.inr ⟨hsilent.next hn, hcoming⟩
      | starting hnow hw =>
        subst hnow
        rcases starts_next hr ha hw with hp | ⟨hn, hcoming⟩
        · exact Or.inl ⟨k, Nat.lt_succ_self k, rfl, hd.owes, Nat.le_of_lt hik, hp, hsilent⟩
        · exact Or.inr ⟨hsilent.next hn, hcoming⟩

theorem Run.Owes.served (hr : r.Punctual) (ha : r.Apart h) (ho : r.Owes i h t) (hik : i < k)
    (ht : t ≤ (r.state k).now) (hs : (r.state k).IsSettled) :
    ∃ j < k, (r.state j).now = t ∧ r.Serves i j h := by
  rcases ho.cases with ⟨hf, rfl⟩ | hd
  · exact ⟨i, hik, rfl, .flushed hf, Nat.le_refl i, hf.pushes, .refl r i h⟩
  · rcases hd.progress hr ha hik with hserved | ⟨_, hcoming⟩
    · exact hserved
    · cases hcoming with
      | sleeping _ hp => exact absurd (before_pending hs hp) (Nat.not_lt_of_le ht)
      | starting _ hw => exact absurd hw hs.not_starting

theorem Run.Serves.push_unique (hj : r.Serves i j h) (hk : r.Serves i k h) : k = j := by
  rcases Nat.lt_trichotomy k j with hlt | rfl | hlt
  · exact absurd hk.pushed (hj.first k hk.after hlt)
  · rfl
  · exact absurd hj.pushed (hk.first j hj.after hlt)

theorem Run.Serves.before (hr : r.Punctual) (ha : r.Apart h) (hi : r.Serves i j h)
    (him : i < m) (hs : r.Supersedes m h) (hmj : (r.state m).now ≤ (r.state j).now) : j < m := by
  rcases hi.owed.cases with ⟨hf, _⟩ | hd
  · refine Nat.lt_of_not_le fun hmj => ?_
    exact hi.first i (Nat.le_refl i) (Nat.lt_of_lt_of_le him hmj) hf.pushes
  · have hnow := Nat.le_antisymm hmj (hd.last m him hs)
    have hsettled := hr.settled ha (hnow ▸ hd) him hs
    obtain ⟨j', hj', _, hserves⟩ := hi.owed.served hr ha him (Nat.le_of_eq hnow.symm) hsettled
    exact hi.push_unique hserves ▸ hj'

theorem Run.Schedules.session (hs : r.Schedules k h t) (hkm : k < m) :
    ∃ x, (r.state m).session? h = some x := by
  cases hs with
  | opened ho =>
    obtain ⟨_, x, hx⟩ := ho
    obtain ⟨y, hy, _⟩ := r.evolves hkm hx
    exact ⟨y, hy⟩
  | edited he =>
    obtain ⟨x, _, hx, _⟩ := he
    obtain ⟨y, hy, _⟩ := r.evolves (Nat.le_of_lt hkm) hx.1
    exact ⟨y, hy⟩

theorem Run.Owes.session (ho : r.Owes k h t) (hkm : k < m) :
    ∃ x, (r.state m).session? h = some x := by
  rcases ho.cases with ⟨⟨x, hx, _⟩, _⟩ | hd
  · obtain ⟨y, hy, _⟩ := r.evolves (Nat.le_of_lt hkm) hx.1
    exact ⟨y, hy⟩
  · exact hd.scheduled.session hkm

theorem Run.Owes.supersedes (ho : r.Owes m h t) (hx : (r.state m).session? h = some x) :
    r.Supersedes m h := by
  cases ho with
  | opened ho => exact absurd (hx.symm.trans ho.1) (Option.some_ne_none x)
  | flushed hf => exact Or.inr (Or.inl hf)
  | edited he => exact Or.inl he

theorem Run.Serves.not_lt (hr : r.Punctual) (ha : r.Apart h) (hi : r.Serves i j h)
    (hm : r.Serves m j h) : ¬i < m := by
  intro him
  obtain ⟨x, hx⟩ := hi.owed.session him
  have hjm := hi.before hr ha him (hm.owed.supersedes hx) (r.now_mono hm.after)
  exact Nat.not_lt_of_le hm.after hjm

theorem Run.Serves.source_unique (hr : r.Punctual) (ha : r.Apart h) (hi : r.Serves i j h)
    (hm : r.Serves m j h) : m = i := by
  rcases Nat.lt_trichotomy m i with hlt | rfl | hlt
  · exact absurd hlt (hm.not_lt hr ha hi)
  · rfl
  · exact absurd hlt (hi.not_lt hr ha hm)

end DocSync.Service
