import DocSync.Proofs.Agendas
import DocSync.Proofs.PushLog
import DocSync.Proofs.PushSteps

/-!
What holds of the pushes of a service at all times, one part after another: who owns a document,
which debounce timers are armed, where a session is in its push cycle, which documents are marked
busy, and how the current text of a session gets to the server.
-/

namespace DocSync.Service

open PushState

variable {place : Place} {v w : PushState} {d : Deed} {i j k h n : Nat} {x y z : Session}

/-- An open session owns its document, and there is a connection. -/
structure PushState.Owned (v : PushState) : Prop where
  owner : ∀ {h x}, v.IsOpen h x → v.owner x.id = some h
  connected : ∀ {h x}, v.IsOpen h x → v.isConnected = true

theorem PushState.Owned.unique (hv : v.Owned) (hx : v.IsOpen h x) (hy : v.IsOpen k y)
    (hid : y.id = x.id) : k = h :=
  Option.some.inj ((hv.owner hy).symm.trans (hid ▸ hv.owner hx))

theorem PushState.Owned.keep (hv : v.Owned) (hp : Part place v d w) (ho : w.owner = v.owner)
    (hc : w.isConnected = v.isConnected) (hd : ∀ k, d ≠ .opened k) : w.Owned where
  owner {k z} hz := by
    rcases hp.origin_open hz with ⟨y, hy, he⟩ | ⟨he, _⟩
    · rw [ho, he.id]
      exact hv.owner hy
    · exact absurd he (hd k)
  connected {k z} hz := by
    rcases hp.origin_open hz with ⟨y, hy, _⟩ | ⟨he, _⟩
    · exact hc ▸ hv.connected hy
    · exact absurd he (hd k)

theorem Part.owned (hp : Part place v d w) (hv : v.Owned) : w.Owned := by
  have hkeep {u : PushState} {e : Deed} (hq : Part place v e u) := hv.keep hq
  cases hp with
  | tasks | forgo | expire | ignore => exact ⟨hv.owner, hv.connected⟩
  | connect => exact ⟨hv.owner, fun _ => rfl⟩
  | disconnect ho => exact ⟨hv.owner, fun hx => absurd (hv.owner hx) (by simp [ho])⟩
  | disown ho =>
    refine ⟨?_, hv.connected⟩
    intro h x hx
    rcases ho x.id with he | ⟨_, hc⟩
    · exact he.trans (hv.owner hx)
    · exact absurd (hc h x (hv.owner hx) hx.1) (by simp [hx.2])
  | @«open» h id _ _ _ _ _ ho hc =>
    refine ⟨?_, fun _ => hc⟩
    intro k z hz
    rcases update_cases hz.1 with ⟨rfl, rfl⟩ | ⟨_, hk⟩
    · exact Function.update_self _ _ _
    · have hown := hv.owner (h := k) (x := z) ⟨hk, hz.2⟩
      have hid : z.id ≠ id := by
        rintro rfl
        exact Option.some_ne_none _ (hown.symm.trans ho)
      exact (Function.update_of_ne hid _ _).trans hown
  | edit hx ho => exact hkeep (.edit hx ho) rfl rfl (by simp)
  | flush hx ho hc ht hw => exact hkeep (.flush hx ho hc ht hw) rfl rfl (by simp)
  | stall hx ho hc => exact hkeep (.stall hx ho hc) rfl rfl (by simp)
  | start hw hx ho hc => exact hkeep (.start hw hx ho hc) rfl rfl (by simp)
  | fire hi hx ht => exact hkeep (.fire hi hx ht) rfl rfl (by simp)
  | accept hw hq hx ho ht => exact hkeep (.accept hw hq hx ho ht) rfl rfl (by simp)
  | refuse hw hq hx ho => exact hkeep (.refuse hw hq hx ho) rfl rfl (by simp)
  | close hx ho => exact hkeep (.close hx ho) rfl rfl (by simp)

/-- The pending task of an open session's timer sleeps, and belongs to the timer's generation. -/
structure PushState.Timed (v : PushState) : Prop where
  fresh : ∀ {i sleeper}, v.agenda.find? i = some sleeper → i < v.agenda.nextId
  armed : ∀ {h x i}, v.IsOpen h x → x.timer.pending = some i →
    ∃ sleeper, v.agenda.find? i = some sleeper ∧ sleeper.job = ⟨h, x.timer.generation⟩

theorem PushState.Timed.apart (hv : v.Timed) (hx : v.IsOpen h x) (hy : v.IsOpen k y) (hk : k ≠ h)
    (hj : y.timer.pending = some j) : x.timer.pending ≠ some j := by
  intro hi
  obtain ⟨a, ha, hja⟩ := hv.armed hx hi
  obtain ⟨b, hb, hjb⟩ := hv.armed hy hj
  obtain rfl : a = b := Option.some.inj (ha.symm.trans hb)
  exact hk (congrArg Debounce.session (hjb.symm.trans hja))

theorem PushState.Timed.keep (hv : v.Timed)
    (hf : ∀ {i sleeper}, w.agenda.find? i = some sleeper → i < w.agenda.nextId)
    (hs : ∀ {k z j}, w.IsOpen k z → z.timer.pending = some j → ∃ y, v.IsOpen k y ∧
      y.timer = z.timer ∧ ∀ {sleeper}, v.agenda.find? j = some sleeper →
        sleeper.job = ⟨k, z.timer.generation⟩ → w.agenda.find? j = some sleeper) :
    w.Timed where
  fresh := hf
  armed {k z j} hz hj := by
    obtain ⟨y, hy, ht, hfind⟩ := hs hz hj
    obtain ⟨sleeper, hsl, hjob⟩ := hv.armed hy (ht ▸ hj)
    rw [ht] at hjob
    exact ⟨sleeper, hfind hsl hjob, hjob⟩

theorem PushState.Timed.set (hv : v.Timed) (hx : v.IsOpen h x) (ht : y.timer = x.timer)
    (ha : w.agenda = v.agenda) (hs : w.session = Function.update v.session h (some y)) :
    w.Timed := by
  refine hv.keep (ha ▸ hv.fresh) ?_
  intro k z j hz hj
  have hz' := hz.1
  rw [hs] at hz'
  rcases update_cases hz' with ⟨rfl, rfl⟩ | ⟨_, hk⟩
  · exact ⟨x, hx, ht.symm, fun hf _ => ha ▸ hf⟩
  · exact ⟨z, ⟨hk, hz.2⟩, rfl, fun hf _ => ha ▸ hf⟩

theorem PushState.Timed.elsewhere (hv : v.Timed)
    (hx : x.timer.pending = none ∨ ∃ y, v.IsOpen h y ∧ y.timer = x.timer) (hz : v.IsOpen k z)
    (hk : k ≠ h) (hj : z.timer.pending = some j) : x.timer.pending ≠ some j := by
  rcases hx with hx | ⟨y, hy, ht⟩
  · simp [hx]
  · exact ht ▸ hv.apart hy hz hk hj

theorem PushState.Timed.abort (hv : v.Timed)
    (hx : x.timer.pending = none ∨ ∃ y, v.IsOpen h y ∧ y.timer = x.timer)
    (ht : y.timer.pending = none) (ha : w.agenda = x.timer.abort v.agenda)
    (hs : w.session = Function.update v.session h (some y)) : w.Timed := by
  refine hv.keep ?_ ?_
  · intro i sleeper hi
    rw [ha, Timer.find?_abort] at hi
    split at hi
    · cases hi
    · rw [ha, Timer.nextId_abort]
      exact hv.fresh hi
  · intro k z j hz hj
    have hz' := hz.1
    rw [hs] at hz'
    rcases update_cases hz' with ⟨rfl, rfl⟩ | ⟨hk, hk'⟩
    · exact absurd (ht.symm.trans hj) (by simp)
    · refine ⟨z, ⟨hk', hz.2⟩, rfl, fun hf _ => ?_⟩
      rw [ha, Timer.find?_abort, if_neg (hv.elsewhere hx ⟨hk', hz.2⟩ hk hj)]
      exact hf

theorem PushState.Timed.cancel (hv : v.Timed) (hx : v.IsOpen h x) (ht : y.timer.pending = none)
    (ha : w.agenda = (x.timer.cancel v.agenda).2)
    (hs : w.session = Function.update v.session h (some y)) : w.Timed :=
  hv.abort (Or.inr ⟨x, hx, rfl⟩) ht (ha.trans (Timer.cancel_agenda _ _)) hs

/-- A session's timer starts anew, or is left without a task. -/
theorem PushState.Timed.arm (hv : v.Timed) (place : Place) (h : Nat) (x : Session) (deadline : Nat)
    (hx : x.timer.pending = none ∨ ∃ y, v.IsOpen h y ∧ y.timer = x.timer)
    (ha : w.agenda = (v.arm h x deadline place).agenda)
    (hs : w.session = (v.arm h x deadline place).session) : w.Timed := by
  cases place with
  | outside =>
    exact hv.abort (y := { x with timer := ⟨x.timer.generation + 1, none⟩ }) hx rfl ha hs
  | inside =>
    have hfind (j : Nat) : w.agenda.find? j = (if x.timer.pending = some j then none
        else v.agenda.find? j).or (if j = v.agenda.nextId then
          some ⟨v.agenda.nextId, deadline, h, x.timer.generation + 1⟩ else none) := by
      rw [ha]
      exact Timer.find?_schedule x.timer v.agenda deadline (fun g => ⟨h, g⟩) j
    have hnext : w.agenda.nextId = v.agenda.nextId + 1 := by
      rw [ha]
      exact congrArg (· + 1) (Timer.nextId_abort x.timer v.agenda)
    have hnone : v.agenda.find? v.agenda.nextId = none := by
      cases hf : v.agenda.find? v.agenda.nextId with
      | none => rfl
      | some sleeper => exact absurd (hv.fresh hf) (Nat.lt_irrefl _)
    constructor
    · intro i sleeper hi
      rw [hnext]
      rw [hfind] at hi
      rcases Option.or_eq_some_iff.mp hi with hi | ⟨_, hi⟩
      · split at hi
        · cases hi
        · exact Nat.lt_succ_of_lt (hv.fresh hi)
      · split at hi
        · omega
        · cases hi
    · intro k z j hz hj
      have hz' := hz.1
      rw [hs] at hz'
      rcases update_cases hz' with ⟨rfl, rfl⟩ | ⟨hk, hk'⟩
      · obtain rfl : v.agenda.nextId = j := by
          have hj' : some (x.timer.abort v.agenda).nextId = some j := hj
          rw [Timer.nextId_abort] at hj'
          exact Option.some.inj hj'
        refine ⟨⟨v.agenda.nextId, deadline, k, x.timer.generation + 1⟩, ?_, rfl⟩
        rw [hfind, hnone, if_pos rfl]
        simp
      · obtain ⟨sleeper, hsl, hjob⟩ := hv.armed ⟨hk', hz.2⟩ hj
        refine ⟨sleeper, ?_, hjob⟩
        rw [hfind, if_neg (hv.elsewhere hx ⟨hk', hz.2⟩ hk hj), hsl]
        rfl

theorem Part.timed (hp : Part place v d w) (hv : v.Timed) : w.Timed := by
  have hdrop {i j : Nat} {sleeper : Sleeper Debounce}
      (hf : (v.agenda.drop i).find? j = some sleeper) : j < v.agenda.nextId := by
    rw [Agenda.find?_drop] at hf
    split at hf
    · cases hf
    · exact hv.fresh hf
  cases hp with
  | tasks | connect | disconnect | disown | forgo | ignore => exact ⟨hv.fresh, hv.armed⟩
  | @«open» h id document channel subscription deadline =>
    exact hv.arm place h (Session.opened id document channel subscription).bump deadline
      (Or.inl rfl) rfl rfl
  | @edit h x document deadline hx ho =>
    exact hv.arm place h { x.bump with document := document } deadline
      (Or.inr ⟨x, ⟨hx, ho⟩, rfl⟩) rfl rfl
  | @flush h x _ _ hx ho =>
    refine hv.cancel (y := Session.send { x.bump with timer := (x.timer.cancel v.agenda).1 })
      ⟨hx, ho⟩ ?_ rfl rfl
    simp only [Session.send]
    split <;> exact Timer.cancel_pending x.timer v.agenda
  | @stall h x hx ho =>
    exact hv.cancel (y := { x.bump with timer := (x.timer.cancel v.agenda).1 }) ⟨hx, ho⟩
      (Timer.cancel_pending x.timer v.agenda) rfl rfl
  | @start h x _ _ hx ho =>
    refine hv.set (y := x.send) ⟨hx, ho⟩ ?_ rfl rfl
    simp only [Session.send]
    split <;> rfl
  | @fire i sleeper x timer hi hx ht =>
    refine hv.keep hdrop ?_
    intro k z j hz hj
    rcases update_cases hz.1 with ⟨rfl, rfl⟩ | ⟨hk, hk'⟩
    · simp only [Timer.fire?] at ht
      split at ht
      · cases ht
        cases hj
      · cases ht
    · refine ⟨z, ⟨hk', hz.2⟩, rfl, fun hf hjob => ?_⟩
      change (v.agenda.drop i).find? j = _
      rw [Agenda.find?_drop, if_neg, hf]
      rintro rfl
      rw [Option.some.inj (hi.symm.trans hf)] at hk
      exact hk (congrArg Debounce.session hjob).symm
  | @expire i sleeper hi hx =>
    refine hv.keep hdrop ?_
    intro k z j hz hj
    refine ⟨z, hz, rfl, fun hf hjob => ?_⟩
    change (v.agenda.drop i).find? j = _
    rw [Agenda.find?_drop, if_neg, hf]
    rintro rfl
    obtain rfl := Option.some.inj (hi.symm.trans hf)
    have hnone := hx z (hjob ▸ hz.1)
    simp [Timer.fire?, hjob] at hnone
  | @accept task h t after x _ _ _ hx ho =>
    refine hv.set (y := x.settle t) ⟨hx, ho⟩ ?_ rfl rfl
    simp only [Session.settle]
    split <;> rfl
  | @refuse task h t after x _ _ _ hx ho =>
    refine hv.set (y := x.settle t) ⟨hx, ho⟩ ?_ rfl rfl
    simp only [Session.settle]
    split <;> rfl
  | close hx ho => exact hv.cancel ⟨hx, ho⟩ (Timer.cancel_pending _ _) rfl rfl

/-- Where an open session is in its push cycle. No push of a pending version was called yet, and
one of an awaited version is not answered yet. -/
def PushState.PhaseHolds (v : PushState) (h : Nat) (x : Session) : Prop :=
  match x.phase with
  | .idle => True
  | .pending n => n = x.version ∧ ∀ k id c, .called k (.sync h n id c) ∉ v.log
  | .awaiting n =>
    n = x.version ∧ (∃ k after, v.work k = some (.sync h ⟨n⟩ after)) ∧ ¬v.Accepted h n

def PushState.Phased (v : PushState) : Prop := ∀ {h x}, v.IsOpen h x → v.PhaseHolds h x

theorem PushState.PhaseHolds.keep (hx : v.PhaseHolds h x) (hphase : y.phase = x.phase)
    (hversion : y.version = x.version)
    (hcall : ∀ {k id c}, .called k (.sync h x.version id c) ∈ w.log →
      .called k (.sync h x.version id c) ∈ v.log)
    (hwork : ∀ {k after}, x.phase = .awaiting x.version →
      v.work k = some (.sync h ⟨x.version⟩ after) → w.work k = some (.sync h ⟨x.version⟩ after))
    (hacc : x.phase = .awaiting x.version → w.Accepted h x.version → v.Accepted h x.version) :
    w.PhaseHolds h y := by
  simp only [PushState.PhaseHolds] at hx ⊢
  rw [hphase, hversion]
  cases hp : x.phase with
  | idle => trivial
  | pending n =>
    rw [hp] at hx
    obtain ⟨rfl, hn⟩ := hx
    exact ⟨rfl, fun k id c hm => hn k id c (hcall hm)⟩
  | awaiting n =>
    rw [hp] at hx
    obtain ⟨rfl, ⟨k, after, hk⟩, hn⟩ := hx
    exact ⟨rfl, ⟨k, after, hwork hp hk⟩, fun ha => hn (hacc hp ha)⟩

theorem phaseHolds_bump (hc : v.Called) (hx : v.session h = some x)
    (hphase : y.phase = x.bump.phase)
    (hversion : y.version = x.version + 1) (hlog : w.log = v.log) : w.PhaseHolds h y := by
  simp only [PushState.PhaseHolds]
  rw [hphase, hversion]
  refine ⟨rfl, fun k id c hm => ?_⟩
  obtain ⟨z, hz, _, hle, _⟩ := hc (hlog ▸ hm)
  obtain rfl : x = z := Option.some.inj (hx.symm.trans hz)
  omega

/-- A session whose push was just called waits for the answer if the version was pending. -/
theorem phaseHolds_push {u : PushState} {task : Nat} {after : After} (ha : u.Answered)
    (hq : ∀ {h t after}, u.work task ≠ some (.sync h t after)) (hx : u.PhaseHolds h x) :
    (u.push task h x after).PhaseHolds h x.send := by
  have hwork {k : Nat} {t : Ticket} {after' : After}
      (hk : u.work k = some (.sync h t after')) :
      (u.push task h x after).work k = some (.sync h t after') := by
    have hne : k ≠ task := by
      rintro rfl
      exact hq hk
    exact (Function.update_of_ne hne _ _).trans hk
  have hacc (n : Nat) (hn : (u.push task h x after).Accepted h n) : u.Accepted h n := by
    obtain ⟨k, hm⟩ := hn
    rcases List.mem_cons.mp hm with hm | hm
    · cases hm
    · exact ⟨k, hm⟩
  simp only [PushState.PhaseHolds] at hx ⊢
  cases hp : x.phase with
  | idle => simp [Session.send, hp]
  | pending n =>
    rw [hp] at hx
    obtain ⟨rfl, hn⟩ := hx
    have hsend : x.send.phase = .awaiting x.version := by simp [Session.send, hp]
    rw [hsend]
    refine ⟨by simp, ⟨task, after, Function.update_self _ _ _⟩, fun hm => ?_⟩
    obtain ⟨k, hm⟩ := hacc _ hm
    obtain ⟨id, c, hm⟩ := ha.call hm
    exact hn k id c hm
  | awaiting n =>
    rw [hp] at hx
    obtain ⟨rfl, ⟨k, after', hk⟩, hn⟩ := hx
    have hsend : x.send.phase = .awaiting x.version := by simp [Session.send, hp]
    rw [hsend]
    exact ⟨by simp, ⟨k, after', hwork hk⟩, fun hm => hn (hacc _ hm)⟩

theorem phaseHolds_push_other {u : PushState} {task : Nat} {after : After}
    (hq : ∀ {h t after}, u.work task ≠ some (.sync h t after)) (hk : k ≠ h)
    (hz : u.PhaseHolds k z) : (u.push task h x after).PhaseHolds k z := by
  refine hz.keep rfl rfl ?_ ?_ ?_
  · intro j id c hm
    rcases List.mem_cons.mp hm with hm | hm
    · injection hm with _ hc
      injection hc with hkh
      exact absurd hkh hk
    · exact hm
  · intro j after' _ hj
    have hne : j ≠ task := by
      rintro rfl
      exact hq hj
    exact (Function.update_of_ne hne _ _).trans hj
  · rintro _ ⟨j, hm⟩
    rcases List.mem_cons.mp hm with hm | hm
    · cases hm
    · exact ⟨j, hm⟩

/-- An answer does not concern sessions that do not wait for its version. -/
theorem phaseHolds_answer {task : Nat} {t : Ticket} {after : After} {accepted : Bool}
    {a : Option Work} (hlog : w.log = .answered task h t.version accepted :: v.log)
    (hwork : w.work = Function.update v.work task a)
    (hw : v.work task = some (.sync h t after)) (hphase : y.phase = z.phase)
    (hversion : y.version = z.version) (hz : v.PhaseHolds k z)
    (hne : z.phase = .awaiting z.version → k ≠ h ∨ z.version ≠ t.version) :
    w.PhaseHolds k y := by
  refine hz.keep hphase hversion ?_ ?_ ?_
  · intro j id c hm
    rcases List.mem_cons.mp (hlog ▸ hm) with hm | hm
    · cases hm
    · exact hm
  · intro j after' hp hj
    have hjt : j ≠ task := by
      rintro rfl
      injection hw.symm.trans hj with he
      injection he with hk ht _
      exact (hne hp).elim (fun hn => hn hk.symm) fun hn => hn (congrArg Ticket.version ht).symm
    rw [hwork]
    exact (Function.update_of_ne hjt _ _).trans hj
  · rintro hp ⟨j, hm⟩
    rcases List.mem_cons.mp (hlog ▸ hm) with hm | hm
    · injection hm with _ hk hn _
      exact (hne hp).elim (fun hne => absurd hk hne) (fun hne => absurd hn hne)
    · exact ⟨j, hm⟩

theorem settle_id (x : Session) (t : Ticket) : (x.settle t).id = x.id := by
  simp only [Session.settle]
  split <;> rfl

theorem settle_version (x : Session) (t : Ticket) : (x.settle t).version = x.version := by
  simp only [Session.settle]
  split <;> rfl

theorem settle_document (x : Session) (t : Ticket) : (x.settle t).document = x.document := by
  simp only [Session.settle]
  split <;> rfl

theorem settle_timer (x : Session) (t : Ticket) : (x.settle t).timer = x.timer := by
  simp only [Session.settle]
  split <;> rfl

theorem settle_cases (x : Session) (t : Ticket) :
    (x.settle t).phase = .idle ∨ x.settle t = x ∧ x.phase ≠ .awaiting t.version := by
  simp only [Session.settle]
  split
  · exact Or.inl rfl
  · next hp => exact Or.inr ⟨rfl, hp⟩

theorem PushState.PhaseHolds.of_idle (hx : x.phase = .idle) : v.PhaseHolds h x := by
  simp only [PushState.PhaseHolds]
  rw [hx]
  trivial

theorem Part.phased (hp : Part place v d w) (hc : v.Called) (ha : v.Answered) (hv : v.Phased) :
    w.Phased := by
  have hquiet {task : Nat} (hq : IsQuiet (v.work task)) {h : Nat} {t : Ticket} {after : After} :
      v.work task ≠ some (.sync h t after) := by
    intro hk
    exact absurd (hq _ hk) (by simp [Work.isPush])
  have hstart {task h : Nat} (hw : v.work task = some (.start h)) {k : Nat} {t : Ticket}
      {after : After} : v.work task ≠ some (.sync k t after) := by
    simp [hw]
  intro k z hz
  cases hp with
  | connect | disconnect | disown | expire => exact hv hz
  | tasks _ hw =>
    refine (hv (h := k) hz).keep rfl rfl id ?_ fun _ => id
    intro j after _ hj
    rcases hw j with he | ⟨_, hq, _⟩
    · exact he.trans hj
    · exact absurd hj (hquiet hq)
  | «open» hs =>
    rcases update_cases hz.1 with ⟨rfl, rfl⟩ | ⟨_, hk⟩
    · refine ⟨rfl, fun j id c hm => ?_⟩
      obtain ⟨x, hx, _⟩ := hc hm
      exact Option.some_ne_none _ (hx.symm.trans hs)
    · exact hv (h := k) ⟨hk, hz.2⟩
  | edit hx =>
    rcases update_cases hz.1 with ⟨rfl, rfl⟩ | ⟨_, hk⟩
    · exact phaseHolds_bump hc hx rfl rfl rfl
    · exact hv (h := k) ⟨hk, hz.2⟩
  | @flush h x task after hx ho _ _ hq =>
    rcases update_cases hz.1 with ⟨rfl, rfl⟩ | ⟨hne, hk⟩
    · exact phaseHolds_push ha (hquiet hq) (phaseHolds_bump hc hx rfl rfl rfl)
    · exact phaseHolds_push_other (hquiet hq) hne (hv (h := k) ⟨hk, hz.2⟩)
  | stall hx =>
    rcases update_cases hz.1 with ⟨rfl, rfl⟩ | ⟨_, hk⟩
    · exact phaseHolds_bump hc hx rfl rfl rfl
    · exact hv (h := k) ⟨hk, hz.2⟩
  | start hw hx ho =>
    rcases update_cases hz.1 with ⟨rfl, rfl⟩ | ⟨hne, hk⟩
    · exact phaseHolds_push ha (hstart hw) (hv ⟨hx, ho⟩)
    · exact phaseHolds_push_other (hstart hw) hne (hv (h := k) ⟨hk, hz.2⟩)
  | @forgo _ task hw =>
    refine (hv (h := k) hz).keep rfl rfl id ?_ fun _ => id
    intro j after _ hj
    have hne : j ≠ task := by
      rintro rfl
      exact hstart hw hj
    exact (Function.update_of_ne hne _ _).trans hj
  | fire _ hx =>
    have hwork {j : Nat} {a b : Work} {n : Nat} (hj : v.work j = some a) :
        (v.work j).or (if j = n then some b else none) = some a := by
      rw [hj]
      rfl
    rcases update_cases hz.1 with ⟨rfl, rfl⟩ | ⟨_, hk⟩
    · exact (hv ⟨hx, hz.2⟩).keep rfl rfl id (fun _ => hwork) fun _ => id
    · exact (hv (h := k) ⟨hk, hz.2⟩).keep rfl rfl id (fun _ => hwork) fun _ => id
  | @accept task h t after x a hw hq hx ho ht =>
    rcases update_cases hz.1 with ⟨rfl, rfl⟩ | ⟨hne, hk⟩
    · rcases settle_cases x t with hs | ⟨hs, hp⟩
      · exact .of_idle hs
      · rw [hs]
        refine phaseHolds_answer rfl rfl hw rfl rfl (hv ⟨hx, ho⟩) fun hp' => ?_
        exact absurd hp' (ht ▸ hp)
    · exact phaseHolds_answer rfl rfl hw rfl rfl (hv (h := k) ⟨hk, hz.2⟩) fun _ => Or.inl hne
  | @refuse task h t after x a hw hq hx ho =>
    rcases update_cases hz.1 with ⟨rfl, rfl⟩ | ⟨hne, hk⟩
    · rcases settle_cases x t with hs | ⟨hs, hp⟩
      · exact .of_idle hs
      · rw [hs]
        refine phaseHolds_answer rfl rfl hw rfl rfl (hv ⟨hx, ho⟩) fun hp' => Or.inr ?_
        intro ht
        exact hp (ht ▸ hp')
    · exact phaseHolds_answer rfl rfl hw rfl rfl (hv (h := k) ⟨hk, hz.2⟩) fun _ => Or.inl hne
  | @ignore task h t after accepted a hw hq hx =>
    refine phaseHolds_answer rfl rfl hw rfl rfl (hv (h := k) hz) fun _ => ?_
    by_cases hk : k = h
    · subst k
      rcases hx z hz.1 with hclosed | ⟨_, ht⟩
      · exact absurd hclosed (by simp [hz.2])
      · exact Or.inr (Ne.symm ht)
    · exact Or.inl hk
  | close hx ho =>
    rcases update_cases hz.1 with ⟨rfl, rfl⟩ | ⟨_, hk⟩
    · exact absurd hz.2 (by simp)
    · exact hv (h := k) ⟨hk, hz.2⟩

theorem isBusy_markBusy (r : RunningSet) (id j : DocumentId) :
    (r.markBusy id).1.isBusy j = (j == id || r.isBusy j) := by
  simp only [RunningSet.markBusy]
  cases hb : r.isBusy id with
  | true =>
    by_cases hj : j = id
    · subst j
      simp [hb]
    · simp [hj]
  | false =>
    by_cases hj : j = id
    · simp [RunningSet.isBusy, hj]
    · simp [RunningSet.isBusy, hj]

theorem isBusy_markIdle (r : RunningSet) (id j : DocumentId) :
    (r.markIdle id).1.isBusy j = (j != id && r.isBusy j) := by
  simp only [RunningSet.markIdle]
  cases hb : r.isBusy id with
  | false =>
    by_cases hj : j = id
    · subst j
      simp [hb]
    · simp [hj]
  | true =>
    by_cases hj : j = id
    · subst j
      simp [RunningSet.isBusy]
    · simp [RunningSet.isBusy, hj]

/-- A document is marked busy until a push of its session's version is accepted. -/
structure PushState.Marked (v : PushState) : Prop where
  session : ∀ {h x}, v.IsOpen h x →
    (v.running.isBusy x.id = true ↔ ¬v.Accepted h x.version)
  owner : ∀ {id}, v.running.isBusy id = true → ∃ h x, v.IsOpen h x ∧ x.id = id

theorem PushState.Marked.keep (hv : v.Marked) (hr : w.running = v.running)
    (hopen : ∀ {k z}, w.IsOpen k z → ∃ y, v.IsOpen k y ∧ y.id = z.id ∧
      (w.Accepted k z.version ↔ v.Accepted k y.version))
    (hstay : ∀ {k y}, v.IsOpen k y → ∃ z, w.IsOpen k z ∧ z.id = y.id) : w.Marked := by
  constructor
  · intro k z hz
    obtain ⟨y, hy, hid, hacc⟩ := hopen hz
    rw [hr, ← hid, hacc]
    exact hv.session hy
  · intro id hid
    obtain ⟨k, y, hy, rfl⟩ := hv.owner (hr ▸ hid)
    obtain ⟨z, hz, hid⟩ := hstay hy
    exact ⟨k, z, hz, hid⟩

/-- A session starts a version, and its document is marked. -/
theorem PushState.Marked.mark (hv : v.Marked) (hy : y.isClosed = false)
    (hr : w.running = (v.running.markBusy y.id).1)
    (hs : w.session = Function.update v.session h (some y))
    (hacc : ∀ {k n}, w.Accepted k n ↔ v.Accepted k n) (hn : ¬v.Accepted h y.version)
    (hid : ∀ {k z}, v.IsOpen k z → (z.id = y.id ↔ k = h)) : w.Marked := by
  have hopen : w.IsOpen h y := ⟨hs ▸ Function.update_self _ _ _, hy⟩
  constructor
  · intro k z hz
    rw [hr, isBusy_markBusy, hacc]
    have hz' := hz.1
    rw [hs] at hz'
    rcases update_cases hz' with ⟨rfl, rfl⟩ | ⟨hne, hk⟩
    · simp [hn]
    · have hne : z.id ≠ y.id := fun he => hne ((hid ⟨hk, hz.2⟩).mp he)
      simpa [hne] using hv.session ⟨hk, hz.2⟩
  · intro id hb
    rw [hr, isBusy_markBusy] at hb
    by_cases he : id = y.id
    · exact ⟨h, y, hopen, he.symm⟩
    · have hb : v.running.isBusy id = true := by simpa [he] using hb
      obtain ⟨k, z, hz, rfl⟩ := hv.owner hb
      have hk : k ≠ h := fun hk => he ((hid hz).mpr hk)
      exact ⟨k, z, ⟨by rw [hs, Function.update_of_ne hk]; exact hz.1, hz.2⟩, rfl⟩

/-- A document's mark is taken away, for its session is closed or its version accepted. -/
theorem PushState.Marked.clear (hv : v.Marked) (hx : v.IsOpen h x) (hy : y.id = x.id)
    (hr : w.running = (v.running.markIdle x.id).1)
    (hs : w.session = Function.update v.session h (some y))
    (hacc : ∀ {k n}, k ≠ h → (w.Accepted k n ↔ v.Accepted k n))
    (hn : y.isClosed = false → w.Accepted h y.version)
    (hid : ∀ {k z}, v.IsOpen k z → z.id = x.id → k = h) : w.Marked := by
  constructor
  · intro k z hz
    rw [hr, isBusy_markIdle]
    have hz' := hz.1
    rw [hs] at hz'
    rcases update_cases hz' with ⟨rfl, rfl⟩ | ⟨hne, hk⟩
    · simp [hy, hn hz.2]
    · have hne' : z.id ≠ x.id := fun he => hne (hid ⟨hk, hz.2⟩ he)
      rw [hacc hne]
      simpa [hne'] using hv.session ⟨hk, hz.2⟩
  · intro id hb
    rw [hr, isBusy_markIdle] at hb
    obtain ⟨he, hb⟩ : id ≠ x.id ∧ v.running.isBusy id = true := by simpa using hb
    obtain ⟨k, z, hz, rfl⟩ := hv.owner hb
    have hk : k ≠ h := by
      rintro rfl
      exact he (congrArg Session.id (Option.some.inj (hz.1.symm.trans hx.1)))
    exact ⟨k, z, ⟨by rw [hs, Function.update_of_ne hk]; exact hz.1, hz.2⟩, rfl⟩

/-- An open session stays open, unless the part closes it. -/
theorem Part.stays_open (hp : Part place v d w) (hy : v.IsOpen k y) :
    (∃ z, w.IsOpen k z ∧ Evolves y z) ∨ d = .closed k := by
  obtain ⟨z, hz, he⟩ := hp.evolves hy.1
  by_cases hc : z.isClosed = false
  · exact Or.inl ⟨z, ⟨hz, hc⟩, he⟩
  · have hsame (hs : v.session k = some z) : False := by
      obtain rfl : y = z := Option.some.inj (hy.1.symm.trans hs)
      exact hc hy.2
    have hset {h : Nat} {x : Session} (hx : x.isClosed = false)
        (hs : Function.update v.session h (some x) k = some z) : False := by
      rcases update_cases hs with ⟨rfl, rfl⟩ | ⟨_, hs⟩
      · exact hc hx
      · exact hsame hs
    cases hp with
    | tasks | connect | disconnect | disown | forgo | expire | ignore => exact (hsame hz).elim
    | «open» => exact (hset rfl hz).elim
    | edit _ ho =>
      refine (hset ?_ hz).elim
      exact ho
    | flush _ ho =>
      refine (hset ?_ hz).elim
      exact (send_isClosed _).trans ho
    | stall _ ho =>
      refine (hset ?_ hz).elim
      exact ho
    | start _ _ ho =>
      refine (hset ?_ hz).elim
      exact (send_isClosed _).trans ho
    | fire _ hx =>
      rcases update_cases hz with ⟨rfl, rfl⟩ | ⟨_, hs⟩
      · obtain rfl := Option.some.inj (hx.symm.trans hy.1)
        exact absurd hy.2 hc
      · exact (hsame hs).elim
    | @accept _ _ t _ x _ _ _ _ ho =>
      refine (hset ?_ hz).elim
      simp only [Session.settle]
      split <;> exact ho
    | @refuse _ _ t _ x _ _ _ _ ho =>
      refine (hset ?_ hz).elim
      simp only [Session.settle]
      split <;> exact ho
    | close =>
      rcases update_cases hz with ⟨rfl, _⟩ | ⟨_, hs⟩
      · exact Or.inr rfl
      · exact (hsame hs).elim

theorem Part.marked (hp : Part place v d w) (hc : v.Called) (ha : v.Answered) (ho : v.Owned)
    (hv : v.Marked) : w.Marked := by
  have hnew {h n : Nat} {x : Session} (hx : v.session h = some x) (hn : x.version < n) :
      ¬v.Accepted h n := fun hm => absurd (hm.le hc ha hx) (Nat.not_le.mpr hn)
  have hid {h : Nat} {x : Session} (hx : v.IsOpen h x) {k : Nat} {z : Session}
      (hz : v.IsOpen k z) : z.id = x.id ↔ k = h := by
    refine ⟨ho.unique hx hz, ?_⟩
    rintro rfl
    exact congrArg Session.id (Option.some.inj (hz.1.symm.trans hx.1))
  have hcall {u : PushState} {task : Nat} {c : Call}
      (hlog : u.log = .called task c :: v.log) {k n : Nat} : u.Accepted k n ↔ v.Accepted k n := by
    simp [Accepted, hlog]
  have hstay {u : PushState} {e : Deed} (hq : Part place v e u) (he : ∀ k, e ≠ .closed k) {k : Nat}
      {y : Session} (hy : v.IsOpen k y) : ∃ z, u.IsOpen k z ∧ z.id = y.id := by
    rcases hq.stays_open hy with ⟨z, hz, hyz⟩ | hd
    · exact ⟨z, hz, hyz.id⟩
    · exact absurd hd (he k)
  cases hp with
  | tasks | connect | disconnect | disown | forgo | expire => exact ⟨hv.session, hv.owner⟩
  | @«open» h id document channel subscription deadline hs hown hc' =>
    refine hv.mark (h := h) rfl rfl rfl Iff.rfl ?_ ?_
    · rintro ⟨k, hm⟩
      obtain ⟨_, _, hm⟩ := ha.call hm
      obtain ⟨x, hx, _⟩ := hc hm
      exact Option.some_ne_none _ (hx.symm.trans hs)
    · intro k z hz
      constructor
      · intro he
        have hnone : v.owner z.id = none := (congrArg v.owner he).trans hown
        exact absurd ((ho.owner hz).symm.trans hnone) (Option.some_ne_none _)
      · rintro rfl
        exact absurd (hz.1.symm.trans hs) (Option.some_ne_none _)
  | edit hx hopen =>
    refine hv.mark ?_ ?_ rfl Iff.rfl ?_ ?_
    · exact hopen
    · rfl
    · exact hnew hx (Nat.lt_succ_self _)
    · exact hid ⟨hx, hopen⟩
  | flush hx hopen =>
    refine hv.mark ?_ ?_ rfl (hcall rfl) ?_ ?_
    · exact (send_isClosed _).trans hopen
    · rw [send_id]
      rfl
    · rw [send_version]
      exact hnew hx (Nat.lt_succ_self _)
    · rw [send_id]
      exact hid ⟨hx, hopen⟩
  | stall hx hopen =>
    refine hv.mark ?_ ?_ rfl Iff.rfl ?_ ?_
    · exact hopen
    · rfl
    · exact hnew hx (Nat.lt_succ_self _)
    · exact hid ⟨hx, hopen⟩
  | start hw hx hopen hconn =>
    refine hv.keep rfl ?_ (hstay (.start hw hx hopen hconn) (by simp))
    intro k z hz
    rcases update_cases hz.1 with ⟨rfl, rfl⟩ | ⟨_, hk⟩
    · exact ⟨_, ⟨hx, hopen⟩, (send_id _).symm, by rw [send_version]; exact hcall rfl⟩
    · exact ⟨z, ⟨hk, hz.2⟩, rfl, hcall rfl⟩
  | fire hi hx ht =>
    refine hv.keep rfl ?_ (hstay (.fire hi hx ht) (by simp))
    intro k z hz
    rcases update_cases hz.1 with ⟨rfl, rfl⟩ | ⟨_, hk⟩
    · exact ⟨_, ⟨hx, hz.2⟩, rfl, Iff.rfl⟩
    · exact ⟨z, ⟨hk, hz.2⟩, rfl, Iff.rfl⟩
  | @accept task h t after x a hw hq hx hopen ht =>
    refine hv.clear (h := h) ⟨hx, hopen⟩ ?_ rfl rfl ?_ ?_ fun hz => (hid ⟨hx, hopen⟩ hz).mp
    · exact settle_id x t
    · intro k n hk
      simp [Accepted, PushState.setWork, PushState.markIdle, PushState.setSession,
        PushState.note, hk]
    · intro _
      rw [settle_version, ← ht]
      exact ⟨task, List.mem_cons_self⟩
  | @refuse task h t after x a hw hq hx hopen =>
    refine hv.keep rfl ?_ (hstay (.refuse hw hq hx hopen) (by simp))
    have hacc {k n : Nat} :
        (((v.note (.answered task h t.version false)).setSession h (x.settle t)).setWork task
          a).Accepted k n ↔ v.Accepted k n := by
      simp [Accepted, PushState.setWork, PushState.setSession, PushState.note]
    intro k z hz
    rcases update_cases hz.1 with ⟨rfl, rfl⟩ | ⟨_, hk⟩
    · exact ⟨x, ⟨hx, hopen⟩, (settle_id x t).symm, by rw [settle_version]; exact hacc⟩
    · exact ⟨z, ⟨hk, hz.2⟩, rfl, hacc⟩
  | @ignore task h t after accepted a hw hq hx =>
    refine hv.keep rfl ?_ (hstay (.ignore hw hq hx) (by simp))
    intro k z hz
    refine ⟨z, hz, rfl, ?_⟩
    have hne : ¬(k = h ∧ z.version = t.version ∧ accepted = true) := by
      rintro ⟨rfl, hn, _⟩
      rcases hx z hz.1 with hclosed | ⟨_, hne⟩
      · exact absurd hclosed (by simp [hz.2])
      · exact hne hn.symm
    constructor
    · rintro ⟨j, hm⟩
      rcases List.mem_cons.mp hm with hm | hm
      · injection hm with _ hk hn hb
        exact absurd ⟨hk, hn, hb.symm⟩ hne
      · exact ⟨j, hm⟩
    · rintro ⟨j, hm⟩
      exact ⟨j, List.mem_cons_of_mem _ hm⟩
  | @close h x hx hopen =>
    refine hv.clear (h := h) ⟨hx, hopen⟩ ?_ rfl rfl (fun _ => Iff.rfl) ?_ ?_
    · rfl
    · simp
    · exact fun hz => (hid ⟨hx, hopen⟩ hz).mp

/-- The text of a session is in the latest push, or a push of it is to come. -/
def PushState.Delivers (v : PushState) (h : Nat) (x : Session) : Prop :=
  x.timer.pending.isSome = true ∨ (∃ k, v.work k = some (.start h)) ∨
    ∃ c, (syncs h v.log).head? = some (x.version, c)

theorem PushState.Delivers.keep (hy : v.Delivers k y)
    (ht : y.timer.pending.isSome = true → z.timer.pending.isSome = true)
    (hversion : z.version = y.version) (hlog : syncs k w.log = syncs k v.log)
    (hwork : ∀ {j}, v.work j = some (.start k) → w.work j = some (.start k)) :
    w.Delivers k z := by
  rw [Delivers, hlog, hversion]
  rcases hy with hp | ⟨j, hj⟩ | hc
  · exact Or.inl (ht hp)
  · exact Or.inr (Or.inl ⟨j, hwork hj⟩)
  · exact Or.inr (Or.inr hc)

theorem delivers_push (u : PushState) (task h : Nat) (x : Session) (after : After) :
    (u.push task h x after).Delivers h x.send := by
  refine Or.inr (Or.inr ⟨x.document.fullText, ?_⟩)
  rw [send_version]
  simp [PushState.push, PushState.note, syncs, Notice.sync?]

theorem syncs_push_other (u : PushState) (task : Nat) (x : Session) (after : After) (hk : k ≠ h) :
    syncs k (u.push task h x after).log = syncs k u.log := by
  simp [PushState.push, PushState.note, PushState.setWork, PushState.setSession, syncs,
    Notice.sync?, Ne.symm hk]

/-- A version that is started outside a runtime is left behind. -/
def PushState.Abandons (v : PushState) (place : Place) (h n : Nat) : Prop :=
  place = .outside ∧ ∀ x, v.session h = some x → x.version < n

theorem Part.delivers (hp : Part place v d w) (hn : v.Numbered) (ho : v.Owned)
    (hz : w.IsOpen k z) (hv : ∀ y, v.IsOpen k y → y.version = z.version → v.Delivers k y) :
    w.Delivers k z ∨ v.Abandons place k z.version := by
  have hupdate {task : Nat} {a b : Option Work} {k : Nat} (hb : v.work task = b)
      (hne : b ≠ some (.start k)) {j : Nat} (hj : v.work j = some (.start k)) :
      Function.update v.work task a j = some (.start k) := by
    have hjt : j ≠ task := by
      rintro rfl
      exact hne (hb.symm.trans hj)
    exact (Function.update_of_ne hjt _ _).trans hj
  have hquiet {task : Nat} (hq : IsQuiet (v.work task)) (k : Nat) :
      v.work task ≠ some (.start k) := by
    intro hk
    exact absurd (hq _ hk) (by simp [Work.isPush])
  cases hp with
  | connect | disconnect | disown | expire => exact Or.inl (hv z hz rfl)
  | tasks _ hw =>
    refine Or.inl ((hv z hz rfl).keep id rfl rfl ?_)
    intro j hj
    rcases hw j with he | ⟨_, hq, _⟩
    · exact he.trans hj
    · exact absurd hj (hquiet hq k)
  | «open» hs =>
    rcases update_cases hz.1 with ⟨rfl, rfl⟩ | ⟨_, hk⟩
    · cases place with
      | inside => exact Or.inl (Or.inl rfl)
      | outside => exact Or.inr ⟨rfl, by simp [hs]⟩
    · exact Or.inl ((hv z ⟨hk, hz.2⟩ rfl).keep id rfl rfl id)
  | @edit h x document _ hx =>
    rcases update_cases hz.1 with ⟨rfl, rfl⟩ | ⟨_, hk⟩
    · cases place with
      | inside => exact Or.inl (Or.inl rfl)
      | outside =>
        refine Or.inr ⟨rfl, fun y hy => ?_⟩
        obtain rfl := Option.some.inj (hx.symm.trans hy)
        exact Nat.lt_succ_self _
    · exact Or.inl ((hv z ⟨hk, hz.2⟩ rfl).keep id rfl rfl id)
  | @flush h x task after _ _ _ _ hq =>
    rcases update_cases hz.1 with ⟨rfl, rfl⟩ | ⟨hne, hk⟩
    · exact Or.inl (delivers_push _ task k _ after)
    · exact Or.inl ((hv z ⟨hk, hz.2⟩ rfl).keep id rfl (syncs_push_other _ task _ after hne)
        (hupdate rfl (hquiet hq k)))
  | stall hx hopen hc => exact absurd (ho.connected ⟨hx, hopen⟩) (by simp [hc])
  | @start h x task hw =>
    rcases update_cases hz.1 with ⟨rfl, rfl⟩ | ⟨hne, hk⟩
    · exact Or.inl (delivers_push _ task k _ .nothing)
    · refine Or.inl ((hv z ⟨hk, hz.2⟩ rfl).keep id rfl (syncs_push_other _ task _ .nothing hne)
        (hupdate hw ?_))
      simpa using Ne.symm hne
  | forgo hw hx =>
    refine Or.inl ((hv z hz rfl).keep id rfl rfl (hupdate hw ?_))
    rintro he
    cases he
    rcases hx z hz.1 with hclosed | hc
    · exact absurd hclosed (by simp [hz.2])
    · exact absurd (ho.connected (h := k) (x := z) hz) (by simp [hc])
  | @fire i sleeper x timer hi hx =>
    have hspawn {j : Nat} {a b : Work} {n : Nat} (hj : v.work j = some a) :
        (v.work j).or (if j = n then some b else none) = some a := by
      rw [hj]
      rfl
    rcases update_cases hz.1 with ⟨rfl, rfl⟩ | ⟨_, hk⟩
    · refine Or.inl (Or.inr (Or.inl ⟨v.nextTask, ?_⟩))
      change (v.work v.nextTask).or (if v.nextTask = v.nextTask then _ else none) = _
      rw [hn v.nextTask (Nat.le_refl _), if_pos rfl]
      rfl
    · exact Or.inl ((hv z ⟨hk, hz.2⟩ rfl).keep id rfl rfl hspawn)
  | @accept task h t after x a hw hq hx hopen =>
    have hwork {j : Nat} := hupdate (a := a) hw (k := k) (by simp) (j := j)
    rcases update_cases hz.1 with ⟨rfl, rfl⟩ | ⟨_, hk⟩
    · exact Or.inl ((hv x ⟨hx, hopen⟩ (settle_version x t).symm).keep (settle_timer x t ▸ id)
        (settle_version x t) rfl hwork)
    · exact Or.inl ((hv z ⟨hk, hz.2⟩ rfl).keep id rfl rfl hwork)
  | @refuse task h t after x a hw hq hx hopen =>
    have hwork {j : Nat} := hupdate (a := a) hw (k := k) (by simp) (j := j)
    rcases update_cases hz.1 with ⟨rfl, rfl⟩ | ⟨_, hk⟩
    · exact Or.inl ((hv x ⟨hx, hopen⟩ (settle_version x t).symm).keep (settle_timer x t ▸ id)
        (settle_version x t) rfl hwork)
    · exact Or.inl ((hv z ⟨hk, hz.2⟩ rfl).keep id rfl rfl hwork)
  | ignore hw => exact Or.inl ((hv z hz rfl).keep id rfl rfl (hupdate hw (by simp)))
  | close =>
    rcases update_cases hz.1 with ⟨rfl, rfl⟩ | ⟨_, hk⟩
    · exact absurd hz.2 (by simp)
    · exact Or.inl ((hv z ⟨hk, hz.2⟩ rfl).keep id rfl rfl id)

/-- What holds of the pushes of a service at all times. -/
structure PushInvariant (v : PushState) : Prop where
  numbered : v.Numbered
  called : v.Called
  outstanding : v.Outstanding
  answered : v.Answered
  ordered : v.Ordered
  owned : v.Owned
  timed : v.Timed
  phased : v.Phased
  marked : v.Marked

theorem Part.invariant (hp : Part place v d w) (hv : PushInvariant v) : PushInvariant w where
  numbered := hp.numbered hv.numbered
  called := hp.called hv.called
  outstanding := hp.outstanding hv.outstanding
  answered := hp.answered hv.outstanding hv.answered
  ordered := hp.ordered hv.called hv.ordered
  owned := hp.owned hv.owned
  timed := hp.timed hv.timed
  phased := hp.phased hv.called hv.answered hv.phased
  marked := hp.marked hv.called hv.answered hv.owned hv.marked

theorem not_open_initial {syncDelay completionDelay : Nat} {input : AbbreviationInput} :
    ¬(initial syncDelay completionDelay input).pushState.IsOpen h x :=
  fun hx => Option.some_ne_none _ hx.1.symm

theorem invariant_initial (syncDelay completionDelay : Nat) (input : AbbreviationInput) :
    PushInvariant (initial syncDelay completionDelay input).pushState where
  numbered _ _ := rfl
  called hm := absurd hm List.not_mem_nil
  outstanding hk := absurd hk (Option.some_ne_none _).symm
  answered hs := absurd (List.suffix_nil.mp hs) (List.cons_ne_nil _ _)
  ordered _ := List.Pairwise.nil
  owned := ⟨fun hx => (not_open_initial hx).elim, fun hx => (not_open_initial hx).elim⟩
  timed := ⟨fun hf => absurd hf (Option.some_ne_none _).symm,
    fun hx => (not_open_initial hx).elim⟩
  phased hx := (not_open_initial hx).elim
  marked := ⟨fun hx => (not_open_initial hx).elim, fun hb => absurd hb Bool.false_ne_true⟩

theorem next_invariant {s : Service} (hs : PushInvariant s.pushState) {e : Event}
    (he : e.isWhole = true) (place : Place := .inside) :
    PushInvariant (s.next e place).pushState :=
  ((next_parts hs.numbered he place).parts trivial).keep Part.invariant hs

theorem Parts.delivers {P : Deed → Prop} (hp : Parts place P v w) (hv : PushInvariant v)
    (hz : w.IsOpen k z) (hd : ∀ y, v.IsOpen k y → y.version = z.version → v.Delivers k y) :
    w.Delivers k z ∨ v.Abandons place k z.version := by
  induction hp generalizing z with
  | refl => exact Or.inl (hd z hz rfl)
  | @tail u w d hp hq _ ih =>
    have hu : PushInvariant u := hp.keep Part.invariant hv
    by_cases hy : ∀ y, u.IsOpen k y → y.version = z.version → u.Delivers k y
    · refine (hq.delivers hu.numbered hu.owned hz hy).imp id fun ⟨hout, hlt⟩ => ⟨hout, ?_⟩
      intro x hx
      obtain ⟨y, hy, hxy⟩ := hp.evolves hx
      exact Nat.lt_of_le_of_lt hxy.version (hlt y hy)
    · -- the text was not on its way before the part, so an earlier part left the version behind
      simp only [not_forall] at hy
      obtain ⟨y, hy, hversion, hnot⟩ := hy
      have hd' := ih hy fun x hx he => hd x hx (he.trans hversion)
      exact Or.inr (hversion ▸ hd'.resolve_left hnot)

end DocSync.Service
