import DocSync.Proofs.Histories
import DocSync.Proofs.TimerLapses
import Mathlib.Order.Nat

/-!
Timers fire exactly the survivors. In a run of any calls, clock moves and turns, an action is armed
from the call that schedules it until its timer is touched again or its task gets a turn after the
deadline, and in that turn it fires. What an action calls besides scheduling again once stands as
events right after its turn. A run is punctual when no clock move skips a deadline.
-/

namespace DocSync.Timer

open History

variable {β : Type}

/-- An unending run that starts without timers. -/
structure Run (β : Type) where
  event : Nat → Event β

namespace Run

variable {r : Run β} {i j k m n : Nat} {c d : Call β} {x : Alarm β}

def state (r : Run β) : Nat → Group β
  | 0 => .empty
  | k + 1 => (r.state k).next (r.event k)

def time (r : Run β) (k : Nat) : Nat := (r.state k).now

/-- The number of the task that a call at a step puts to sleep. -/
def task (r : Run β) (k : Nat) : Nat := (r.state k).agenda.nextId

def call? (r : Run β) (k : Nat) : Option (Call β) := (r.state k).call? (r.event k)

def touched? (r : Run β) (k : Nat) : Option String := (r.state k).touched? (r.event k)

def isPending (r : Run β) (k : Nat) (name : String) : Bool :=
  ((r.state k).timers.lookup name).any Timer.isPending

/-- The action of a call is armed before a step. -/
structure Armed (r : Run β) (k n : Nat) (c : Call β) : Prop where
  call : r.call? k = some c
  later : k < n
  untouched : ∀ m, k < m → m < n → r.touched? m ≠ some c.name
  /-- Every turn of its task so far came before the deadline. -/
  asleep : ∀ m, k < m → m < n → r.event m = .run (r.task k) → r.time m < r.time k + c.delay

/-- The action of a call fires in a step. -/
structure Fires (r : Run β) (k n : Nat) (c : Call β) : Prop where
  armed : r.Armed k n c
  turn : r.event n = .run (r.task k)
  due : r.time k + c.delay ≤ r.time n

/-- The action of a call is discarded in a step. -/
structure Superseded (r : Run β) (k n : Nat) (c : Call β) : Prop where
  armed : r.Armed k n c
  touched : r.touched? n = some c.name
  unfired : ¬r.Fires k n c

/-- The clock never moves past the deadline of a task that sleeps. -/
def Punctual (r : Run β) : Prop :=
  ∀ k t, r.event k = .pass t → ∀ s ∈ (r.state k).agenda.sleepers, r.time k + t ≤ s.deadline

theorem sound (r : Run β) (k : Nat) : (r.state k).Armed := by
  induction k with
  | zero => exact ⟨nofun, nofun, nofun⟩
  | succ k ih => exact ih.next (r.event k)

theorem distinct (r : Run β) (k : Nat) : (r.state k).agenda.Distinct := by
  induction k with
  | zero => exact ⟨List.nodup_nil, nofun⟩
  | succ k ih => exact Group.distinct_next ih (r.event k)

theorem counted (r : Run β) : Counted r.task r.call? :=
  fun k => Group.nextId_next (r.sound k) (r.event k)

theorem armed_self (hc : r.call? k = some c) : r.Armed k (k + 1) c :=
  ⟨hc, Nat.lt_succ_self k, between_self _ k, between_self _ k⟩

theorem armed_succ (hk : k < n) : r.Armed k (n + 1) c ↔ r.Armed k n c ∧
    (r.state n).Spares (r.event n) (r.task k) ⟨c.name, r.time k + c.delay, c.plan⟩ := by
  constructor
  · intro h
    obtain ⟨huntouched, hspared⟩ := (between_succ hk).mp h.untouched
    obtain ⟨hasleep, hturn⟩ := (between_succ hk).mp h.asleep
    exact ⟨⟨h.call, hk, huntouched, hasleep⟩, hspared, hturn⟩
  · rintro ⟨h, hspared, hturn⟩
    exact ⟨h.call, Nat.lt_succ_of_lt hk, (between_succ hk).mpr ⟨h.untouched, hspared⟩,
      (between_succ hk).mpr ⟨h.asleep, hturn⟩⟩

theorem alarm?_iff (r : Run β) (n : Nat) : (r.state n).alarm? i = some x ↔
    ∃ k c, r.Armed k n c ∧ i = r.task k ∧ x = ⟨c.name, r.time k + c.delay, c.plan⟩ := by
  induction n generalizing i x with
  | zero =>
    constructor
    · exact nofun
    · rintro ⟨k, c, h, _⟩
      exact absurd h.later (Nat.not_lt_zero k)
  | succ n ih =>
    rw [state, Group.alarm?_next (r.sound n), ih]
    constructor
    · rintro (⟨⟨k, c, h, rfl, rfl⟩, hs⟩ | ⟨rfl, c, hc, rfl⟩)
      · exact ⟨k, c, (armed_succ h.later).mpr ⟨h, hs⟩, rfl, rfl⟩
      · exact ⟨n, c, armed_self hc, rfl, rfl⟩
    · rintro ⟨k, c, h, rfl, rfl⟩
      rcases Nat.lt_succ_iff_lt_or_eq.mp h.later with hk | rfl
      · obtain ⟨h, hs⟩ := (armed_succ hk).mp h
        exact Or.inl ⟨⟨k, c, h, rfl, rfl⟩, hs⟩
      · exact Or.inr ⟨rfl, c, h.call, rfl⟩

theorem acting_iff (r : Run β) (n : Nat) :
    (∃ s, (r.state n).acting? (r.event n) = some s ∧
        ⟨s.job.name, s.deadline, s.job.plan⟩ = x) ↔
      ∃ k c, r.Fires k n c ∧ x = ⟨c.name, r.time k + c.delay, c.plan⟩ := by
  rw [Group.acting?_iff]
  constructor
  · rintro ⟨i, hturn, hx, hd⟩
    obtain ⟨k, c, h, rfl, rfl⟩ := (r.alarm?_iff n).mp hx
    exact ⟨k, c, ⟨h, hturn, hd⟩, rfl⟩
  · rintro ⟨k, c, h, rfl⟩
    exact ⟨r.task k, h.turn, (r.alarm?_iff n).mpr ⟨k, c, h.armed, rfl, rfl⟩, h.due⟩

theorem Fires.acting (hf : r.Fires k n c) :
    ∃ s, (r.state n).acting? (r.event n) = some s ∧ s.job.name = c.name ∧ s.job.plan = c.plan := by
  obtain ⟨s, hs, he⟩ := (r.acting_iff n).mpr ⟨k, c, hf, rfl⟩
  exact ⟨s, hs, congrArg Alarm.name he, congrArg Alarm.plan he⟩

theorem not_acting (hf : ∀ k c, ¬r.Fires k n c) :
    (r.state n).acting? (r.event n) = none := by
  cases hs : (r.state n).acting? (r.event n) with
  | none => rfl
  | some s =>
    obtain ⟨k, c, h, _⟩ := (r.acting_iff n).mp ⟨s, hs, rfl⟩
    exact absurd h (hf k c)

theorem Fires.log (hf : r.Fires k n c) : (r.state (n + 1)).fired =
    ⟨r.time n, c.plan.label, false⟩ :: (r.state n).fired := by
  obtain ⟨s, hs, _, hplan⟩ := hf.acting
  rw [state, Group.fired_next (r.sound n), hs, ← hplan]
  rfl

theorem log_kept (hf : ∀ k c, ¬r.Fires k n c) :
    (r.state (n + 1)).fired = (r.state n).fired := by
  rw [state, Group.fired_next (r.sound n), not_acting hf]
  rfl

theorem Fires.over (hf : r.Fires k m c) (hm : m < n) : ¬r.Armed k n d := by
  intro h
  obtain rfl := Option.some.inj (hf.armed.call.symm.trans h.call)
  have := h.asleep m hf.armed.later hm hf.turn
  have := hf.due
  omega

theorem Fires.once (hf : r.Fires k m c) (hg : r.Fires k n d) : m = n := by
  rcases Nat.lt_trichotomy m n with hlt | he | hlt
  · exact absurd hg.armed (hf.over hlt)
  · exact he
  · exact absurd hf.armed (hg.over hlt)

theorem survives (hc : r.call? k = some c) (hk : k < n)
    (hu : ∀ m, k < m → m < n → r.touched? m ≠ some c.name) (ht : r.event n = .run (r.task k))
    (hd : r.time k + c.delay ≤ r.time n) : ∃ m ≤ n, r.Fires k m c := by
  classical
  have hturn : ∃ m, k < m ∧ r.event m = .run (r.task k) ∧ r.time k + c.delay ≤ r.time m :=
    ⟨n, hk, ht, hd⟩
  obtain ⟨hkm, htm, hdm⟩ := Nat.find_spec hturn
  have hle : Nat.find hturn ≤ n := Nat.find_min' hturn ⟨hk, ht, hd⟩
  refine ⟨Nat.find hturn, hle, ⟨hc, hkm, fun i hi hm => ?_, fun i hi hm hti => ?_⟩, htm, hdm⟩
  · exact hu i hi (Nat.lt_of_lt_of_le hm hle)
  · exact Nat.lt_of_not_le fun hdi => Nat.find_min hturn hm ⟨hi, hti, hdi⟩

theorem fate (hc : r.call? k = some c) (hk : k < n) :
    r.Armed k n c ∨ ∃ m < n, r.Fires k m c ∨ r.Superseded k m c := by
  induction n with
  | zero => exact absurd hk (Nat.not_lt_zero k)
  | succ n ih =>
    rcases Nat.lt_succ_iff_lt_or_eq.mp hk with hlt | rfl
    · rcases ih hlt with ha | ⟨m, hm, he⟩
      · by_cases hf : r.Fires k n c
        · exact Or.inr ⟨n, Nat.lt_succ_self n, Or.inl hf⟩
        · by_cases ht : r.touched? n = some c.name
          · exact Or.inr ⟨n, Nat.lt_succ_self n, Or.inr ⟨ha, ht, hf⟩⟩
          · refine Or.inl ((armed_succ hlt).mpr ⟨ha, ht, fun hturn => ?_⟩)
            exact Nat.lt_of_not_le fun hd => hf ⟨ha, hturn, hd⟩
      · exact Or.inr ⟨m, Nat.lt_succ_of_lt hm, he⟩
    · exact Or.inl (armed_self hc)

theorem Armed.unique (hj : r.Armed j n c) (hk : r.Armed k n d) (hn : c.name = d.name) :
    j = k := by
  rcases Nat.lt_trichotomy j k with hlt | he | hlt
  · exact absurd (hn ▸ Group.touched?_of_call hk.call) (hj.untouched k hlt hk.later)
  · exact he
  · exact absurd (hn ▸ Group.touched?_of_call hj.call) (hk.untouched j hlt hj.later)

theorem isPending_iff (r : Run β) (n : Nat) (name : String) :
    r.isPending n name = true ↔ ∃ k c, r.Armed k n c ∧ c.name = name := by
  rw [isPending, (r.sound n).isPending_iff]
  constructor
  · rintro ⟨i, x, hx, rfl⟩
    obtain ⟨k, c, h, _, rfl⟩ := (r.alarm?_iff n).mp hx
    exact ⟨k, c, h, rfl⟩
  · rintro ⟨k, c, h, rfl⟩
    exact ⟨r.task k, _, (r.alarm?_iff n).mpr ⟨k, c, h, rfl, rfl⟩, rfl⟩

theorem time_kept (hp : ∀ t, r.event n ≠ .pass t) : r.time (n + 1) = r.time n :=
  Group.now_next (r.sound n) hp

/-- In a punctual run no action is armed after its deadline. -/
theorem Punctual.time_le (hr : r.Punctual) (ha : r.Armed k n c) :
    r.time n ≤ r.time k + c.delay := by
  induction n with
  | zero => exact absurd ha.later (Nat.not_lt_zero k)
  | succ n ih =>
    by_cases hpass : ∃ t, r.event n = .pass t
    · obtain ⟨t, ht⟩ := hpass
      have hk : k ≠ n := by
        rintro rfl
        have hc : (r.state k).call? (r.event k) = some c := ha.call
        rw [ht] at hc
        cases hc
      obtain ⟨h, _⟩ := (armed_succ (by have := ha.later; omega)).mp ha
      obtain ⟨s, hs, hx⟩ := Group.alarm?_eq_some.mp ((r.alarm?_iff n).mpr ⟨k, c, h, rfl, rfl⟩)
      have hle := hr n t ht s (Agenda.mem_of_find? hs)
      have hd : s.deadline = r.time k + c.delay := congrArg Alarm.deadline hx
      rw [hd] at hle
      rw [time, state, ht]
      exact hle
    · rw [time_kept fun t ht => hpass ⟨t, ht⟩]
      rcases Nat.lt_succ_iff_lt_or_eq.mp ha.later with hk | rfl
      · exact ih ((armed_succ hk).mp ha).1
      · exact Nat.le_add_right _ _

end Run

/-- What fires in a run, and when. -/
structure Run.FiresSurvivors (r : Run β) : Prop where
  /-- An action whose task gets a turn after its deadline fires, then or before, unless its timer
  was touched since the call. -/
  survives : ∀ k n c, r.call? k = some c → k < n →
    (∀ m, k < m → m < n → r.touched? m ≠ some c.name) → r.event n = .run (r.task k) →
    r.time k + c.delay ≤ r.time n → ∃ m ≤ n, r.Fires k m c
  /-- An action that fires is logged, with nothing pending. -/
  logged : ∀ k n c, r.Fires k n c →
    (r.state (n + 1)).fired = ⟨r.time n, c.plan.label, false⟩ :: (r.state n).fired
  only : ∀ n, (∀ k c, ¬r.Fires k n c) → (r.state (n + 1)).fired = (r.state n).fired
  once : ∀ k m n c d, r.Fires k m c → r.Fires k n d → m = n
  apart : ∀ j k n c d, r.Fires j n c → r.Fires k n d → j = k
  /-- Besides the calls made by events there are those that actions make as they fire. -/
  again : ∀ k n c, r.Fires k n c → r.call? n = c.plan.call? c.name
  pending : ∀ n name, r.isPending n name = true ↔ ∃ k c, r.Armed k n c ∧ c.name = name
  alone : ∀ j k n c d, r.Armed j n c → r.Armed k n d → c.name = d.name → j = k
  /-- Until it fires or is discarded, an action is armed. -/
  fate : ∀ k n c, r.call? k = some c → k < n →
    r.Armed k n c ∨ ∃ m < n, r.Fires k m c ∨ r.Superseded k m c
  /-- Where tasks run at every instant, an action fires at its deadline, and none waits longer. -/
  exact : r.Punctual → ∀ k n c, r.Fires k n c → r.time n = r.time k + c.delay
  prompt : r.Punctual → ∀ k n c, r.Armed k n c → r.time n ≤ r.time k + c.delay
  /-- To let time flow is to run every task at its deadline. -/
  flows : ∀ n time, (r.state n).Lapses ((r.state n).advance time) ∧
    ((r.state n).advance time).now = r.time n + time ∧
      ∀ s ∈ ((r.state n).advance time).agenda.sleepers, r.time n + time < s.deadline

theorem fires_survivors (r : Run β) : r.FiresSurvivors where
  survives _ _ _ hc hk hu ht hd := Run.survives hc hk hu ht hd
  logged _ _ _ hf := hf.log
  only _ hf := Run.log_kept hf
  once _ _ _ _ _ hf hg := hf.once hg
  apart _ _ _ _ _ hf hg :=
    r.counted.apart hf.armed.call hg.armed.call (Event.run.inj (hf.turn.symm.trans hg.turn))
  again k n c hf := by
    obtain ⟨s, hs, hname, hplan⟩ := hf.acting
    rw [Run.call?, Group.call?_acting hs, hname, hplan]
  pending := r.isPending_iff
  alone _ _ _ _ _ hj hk hn := hj.unique hk hn
  fate _ _ _ hc hk := Run.fate hc hk
  exact hr _ _ _ hf := Nat.le_antisymm (hr.time_le hf.armed) hf.due
  prompt hr _ _ _ ha := hr.time_le ha
  flows n := Group.advance_lapses (r.sound n) (r.distinct n)

/-- A burst on one timer, of which the last action schedules again; another timer is cancelled. -/
def burstRun : Run Nat where
  event
    | 0 => .schedule "a" 10 (.last 1)
    | 1 => .schedule "a" 10 (.andThen 2 5 (.last 3))
    | 2 => .schedule "b" 0 (.last 4)
    | 3 => .run 2
    | 4 => .pass 10
    | 5 => .run 0
    | 6 => .run 1
    | 7 => .schedule "b" 3 (.last 5)
    | 8 => .cancel "b"
    | 9 => .pass 5
    | 10 => .run 3
    | _ => .run 4

theorem burst_fires_last :
    burstRun.Punctual ∧
      burstRun.Fires 1 6 ⟨"a", 10, .andThen 2 5 (.last 3)⟩ ∧ burstRun.time 6 = 10 ∧
        (burstRun.state 11).fired = [⟨15, 3, false⟩, ⟨10, 2, false⟩, ⟨0, 4, false⟩] := by
  have hp : burstRun.Punctual := by
    intro k t hk
    match k with
    | 4 | 9 => cases hk; decide
    | 0 | 1 | 2 | 3 | 5 | 6 | 7 | 8 | 10 => cases hk
    | k + 11 => cases hk
  have huntouched : ∀ m < 6, 1 < m → burstRun.touched? m ≠ some "a" := by decide
  have hearlier : ∀ m < 6, 1 < m → burstRun.time m < 10 ∨ m = 5 := by decide
  have hf : burstRun.Fires 1 6 ⟨"a", 10, .andThen 2 5 (.last 3)⟩ := by
    refine ⟨⟨rfl, by decide, fun m hm hn => huntouched m hn hm, fun m hm hn ht => ?_⟩, rfl, ?_⟩
    · rcases hearlier m hn hm with hlt | rfl
      · exact hlt
      · cases ht
    · decide
  exact ⟨hp, hf, (fires_survivors burstRun).exact hp 1 6 _ hf, rfl⟩

end DocSync.Timer
