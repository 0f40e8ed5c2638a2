import DocSync.Proofs.PushRun

/-!
Whose tasks sleep. Every sleeping task of a debounce timer is the pending one of an open session, so
a session that is closed has none, and nothing changes it any more.
-/

namespace DocSync.Service

open PushState

variable {place : Place} {v w : PushState} {d : Deed} {i j k h : Nat} {x y z : Session}
  {sleeper : Sleeper Debounce}

/-- A sleeping task belongs to the current generation of an open session's timer. -/
def PushState.Held (v : PushState) (i : Nat) (sleeper : Sleeper Debounce) : Prop :=
  ∃ x, v.IsOpen sleeper.job.session x ∧ x.timer.pending = some i ∧
    sleeper.job.generation = x.timer.generation

def PushState.Sleeping (v : PushState) : Prop :=
  ∀ {i sleeper}, v.agenda.find? i = some sleeper → v.Held i sleeper

theorem PushState.Held.set (hh : v.Held i sleeper) (hx : v.IsOpen h x) (ht : y.timer = x.timer)
    (ho : y.isClosed = false) (hs : w.session = Function.update v.session h (some y)) :
    w.Held i sleeper := by
  obtain ⟨z, hz, hp, hg⟩ := hh
  by_cases hk : sleeper.job.session = h
  · rw [hk] at hz
    obtain rfl := Option.some.inj (hx.1.symm.trans hz.1)
    refine ⟨y, ⟨?_, ho⟩, ht ▸ hp, ht ▸ hg⟩
    rw [hs, hk]
    exact Function.update_self _ _ _
  · refine ⟨z, ⟨?_, hz.2⟩, hp, hg⟩
    rw [hs, Function.update_of_ne hk]
    exact hz.1

theorem PushState.Held.other (hh : v.Held i sleeper) (hk : sleeper.job.session ≠ h)
    (hs : w.session = Function.update v.session h (some y)) : w.Held i sleeper := by
  obtain ⟨z, hz, hp, hg⟩ := hh
  refine ⟨z, ⟨?_, hz.2⟩, hp, hg⟩
  rw [hs, Function.update_of_ne hk]
  exact hz.1

theorem PushState.Sleeping.pending_eq (hv : v.Sleeping)
    (hx : v.session h = none ∨ ∃ y, v.session h = some y ∧ y.timer = x.timer)
    (hi : v.agenda.find? i = some sleeper) (hk : sleeper.job.session = h) :
    x.timer.pending = some i := by
  obtain ⟨z, hz, hp, _⟩ := hv hi
  rw [hk] at hz
  rcases hx with hnone | ⟨y, hy, ht⟩
  · exact absurd (hz.1.symm.trans hnone) (Option.some_ne_none _)
  · obtain rfl := Option.some.inj (hy.symm.trans hz.1)
    exact ht ▸ hp

theorem PushState.Sleeping.abort (hv : v.Sleeping)
    (hx : v.session h = none ∨ ∃ y, v.session h = some y ∧ y.timer = x.timer)
    (ha : w.agenda = x.timer.abort v.agenda)
    (hs : w.session = Function.update v.session h (some y)) : w.Sleeping := by
  intro i sleeper hi
  rw [ha, Timer.find?_abort] at hi
  split at hi
  · cases hi
  · next hne => exact (hv hi).other (fun hk => hne (hv.pending_eq hx hi hk)) hs

theorem PushState.Sleeping.cancel (hv : v.Sleeping) (hx : v.session h = some x)
    (ha : w.agenda = (x.timer.cancel v.agenda).2)
    (hs : w.session = Function.update v.session h (some y)) : w.Sleeping :=
  hv.abort (Or.inr ⟨x, hx, rfl⟩) (ha.trans (Timer.cancel_agenda _ _)) hs

/-- The timer of a session starts anew, or is left without a task. -/
theorem PushState.Sleeping.arm {deadline : Nat} (hv : v.Sleeping) (place : Place)
    (hx : v.session h = none ∨ ∃ y, v.session h = some y ∧ y.timer = x.timer)
    (ho : x.isClosed = false) (ha : w.agenda = (v.arm h x deadline place).agenda)
    (hs : w.session = (v.arm h x deadline place).session) : w.Sleeping := by
  cases place with
  | outside =>
    exact hv.abort (x := x) (y := { x with timer := ⟨x.timer.generation + 1, none⟩ }) hx ha hs
  | inside =>
    intro i sleeper hi
    rw [ha] at hi
    change (x.timer.schedule v.agenda deadline fun g => ⟨h, g⟩).2.find? i = some sleeper at hi
    rw [Timer.find?_schedule] at hi
    rcases Option.or_eq_some_iff.mp hi with hi | ⟨_, hi⟩
    · split at hi
      · cases hi
      · next hne => exact (hv hi).other (fun hk => hne (hv.pending_eq hx hi hk)) hs
    · split at hi
      · next hid =>
        obtain rfl := Option.some.inj hi
        refine ⟨{ x with timer := ⟨x.timer.generation + 1, some i⟩ }, ⟨?_, ho⟩, rfl, rfl⟩
        have hnext : (x.timer.abort v.agenda).nextId = i :=
          (Timer.nextId_abort _ _).trans hid.symm
        rw [hs, ← hnext]
        exact Function.update_self _ _ _
      · cases hi

theorem Part.sleeping (hp : Part place v d w) (hv : v.Sleeping) : w.Sleeping := by
  cases hp with
  | tasks | connect | disconnect | disown | forgo | ignore => exact hv
  | «open» hs => exact hv.arm place (Or.inl hs) rfl rfl rfl
  | @edit h x document deadline hx ho =>
    exact hv.arm place (h := h) (x := { x.bump with document := document }) (Or.inr ⟨x, hx, rfl⟩)
      ho rfl rfl
  | flush hx => exact hv.cancel hx rfl rfl
  | stall hx => exact hv.cancel hx rfl rfl
  | @start h x task hw hx ho =>
    intro i sleeper hi
    refine (hv hi).set (y := x.send) ⟨hx, ho⟩ ?_ ((send_isClosed x).trans ho) rfl
    simp only [Session.send]
    split <;> rfl
  | @fire i sleeper x timer hi hx =>
    intro j other hj
    change (v.agenda.drop i).find? j = some other at hj
    rw [Agenda.find?_drop] at hj
    split at hj
    · cases hj
    · next hne =>
      refine (hv hj).other (h := sleeper.job.session) ?_ rfl
      intro hk
      obtain ⟨y, hy, hpending, _⟩ := hv hi
      obtain ⟨z, hz, hpending', _⟩ := hv hj
      rw [hk] at hz
      obtain rfl := Option.some.inj (hy.1.symm.trans hz.1)
      exact hne (Option.some.inj (hpending'.symm.trans hpending))
  | @expire i =>
    intro j other hj
    change (v.agenda.drop i).find? j = some other at hj
    rw [Agenda.find?_drop] at hj
    split at hj
    · cases hj
    · exact hv hj
  | @accept task h t after x _ _ _ hx ho =>
    intro i sleeper hi
    refine (hv hi).set (y := x.settle t) ⟨hx, ho⟩ (settle_timer x t) ?_ rfl
    simp only [Session.settle]
    split <;> exact ho
  | @refuse task h t after x _ _ _ hx ho =>
    intro i sleeper hi
    refine (hv hi).set (y := x.settle t) ⟨hx, ho⟩ (settle_timer x t) ?_ rfl
    simp only [Session.settle]
    split <;> exact ho
  | close hx => exact hv.cancel hx rfl rfl

/-- Nothing changes a session that is closed. -/
theorem Part.closed_stays (hp : Part place v d w) (hv : v.Sleeping) (hx : v.session h = some x)
    (hc : x.isClosed = true) : w.session h = some x := by
  have hother {k : Nat} {y z : Session} (hy : v.session k = some y) (ho : y.isClosed = false) :
      Function.update v.session k (some z) h = some x := by
    have hk : h ≠ k := by
      rintro rfl
      obtain rfl := Option.some.inj (hx.symm.trans hy)
      exact absurd (hc.symm.trans ho) (by simp)
    exact (Function.update_of_ne hk _ _).trans hx
  cases hp with
  | tasks | connect | disconnect | disown | forgo | expire | ignore => exact hx
  | @«open» k _ _ _ _ _ hs =>
    have hk : h ≠ k := by
      rintro rfl
      exact Option.some_ne_none _ (hx.symm.trans hs)
    exact (Function.update_of_ne hk _ _).trans hx
  | edit hy ho => exact hother hy ho
  | flush hy ho =>
    simp only [PushState.push, PushState.setSession]
    exact hother hy ho
  | stall hy ho => exact hother hy ho
  | start _ hy ho => exact hother hy ho
  | fire hi hy =>
    obtain ⟨z, hz, _⟩ := hv hi
    obtain rfl := Option.some.inj (hy.symm.trans hz.1)
    exact hother hy hz.2
  | accept _ _ hy ho => exact hother hy ho
  | refuse _ _ hy ho => exact hother hy ho
  | close hy ho => exact hother hy ho

/-- A session that is closed rests, and its timer has nothing pending. -/
def PushState.Resting (v : PushState) : Prop :=
  ∀ {h x}, v.session h = some x → x.isClosed = true → x.phase = .idle ∧ x.timer.pending = none

theorem Part.resting (hp : Part place v d w) (hs : v.Sleeping) (hv : v.Resting) : w.Resting := by
  intro k z hz hc
  cases hold : v.session k with
  | some y =>
    cases hy : y.isClosed with
    | true =>
      obtain rfl := Option.some.inj ((hp.closed_stays hs hold hy).symm.trans hz)
      exact hv hold hy
    | false =>
      have hset {h : Nat} {x' : Session} (ho : x'.isClosed = false)
          (hz : Function.update v.session h (some x') k = some z) :
          z.phase = .idle ∧ z.timer.pending = none := by
        rcases update_cases hz with ⟨_, rfl⟩ | ⟨_, hz⟩
        · exact absurd (ho.symm.trans hc) (by simp)
        · exact hv hz hc
      cases hp with
      | tasks | connect | disconnect | disown | forgo | expire | ignore => exact hv hz hc
      | «open» => exact hset rfl hz
      | edit _ ho =>
        refine hset ?_ hz
        exact ho
      | flush _ ho =>
        refine hset ?_ hz
        exact (send_isClosed _).trans ho
      | stall _ ho =>
        refine hset ?_ hz
        exact ho
      | start _ _ ho => exact hset ((send_isClosed _).trans ho) hz
      | fire hi hx =>
        obtain ⟨x, hx', _⟩ := hs hi
        obtain rfl := Option.some.inj (hx.symm.trans hx'.1)
        refine hset ?_ hz
        exact hx'.2
      | @accept _ _ t _ x _ _ _ _ ho =>
        refine hset ?_ hz
        simp only [Session.settle]
        split <;> exact ho
      | @refuse _ _ t _ x _ _ _ _ ho =>
        refine hset ?_ hz
        simp only [Session.settle]
        split <;> exact ho
      | close =>
        rcases update_cases hz with ⟨_, rfl⟩ | ⟨_, hz⟩
        · exact ⟨rfl, Timer.cancel_pending _ _⟩
        · exact hv hz hc
  | none =>
    rcases hp.origin hz with ⟨y, hy, _⟩ | ⟨rfl, _⟩
    · exact absurd (hy.symm.trans hold) (Option.some_ne_none y)
    · cases hp with
      | «open» =>
        rcases update_cases hz with ⟨_, rfl⟩ | ⟨hne, _⟩
        · exact absurd hc Bool.false_ne_true
        · exact absurd rfl hne

theorem Run.sleeping (r : Run) (k : Nat) (place : Nat → Place := fun _ => .inside) :
    (r.state k place).pushState.Sleeping := by
  induction k with
  | zero =>
    intro i sleeper hi
    cases hi
  | succ k ih => exact ((r.step k place).parts trivial).keep Part.sleeping ih

theorem Run.resting (r : Run) (k : Nat) : (r.state k).pushState.Resting := by
  have hboth : (r.state k).pushState.Sleeping ∧ (r.state k).pushState.Resting := by
    induction k with
    | zero =>
      refine ⟨r.sleeping 0, ?_⟩
      intro h x hx
      exact absurd hx (Option.some_ne_none x).symm
    | succ k ih =>
      have hkeep : ∀ {v d w}, Part .inside v d w → v.Sleeping ∧ v.Resting →
          w.Sleeping ∧ w.Resting :=
        fun hp hv => ⟨hp.sleeping hv.1, hp.resting hv.1 hv.2⟩
      exact ((r.step k).parts trivial).keep hkeep ih
  intro h x hx hc
  exact hboth.2 hx hc

end DocSync.Service
