import DocSync.Proofs.Histories
import DocSync.Proofs.WaitLapses
import Mathlib.Order.Nat

/-!
Every waiter gets exactly one right answer. In a run of any calls, drops, clock moves and turns, the
first call after a wait decides that it is rejected, and why; without one its delay elapses. The
task of a wait answers in its first turn in which the wait was rejected or its deadline has come,
unless it was dropped. A run is punctual when the clock moves only while no task can answer, and
skips no deadline.
-/

namespace DocSync.Wait

open History

variable {β : Type}

/-- An unending run of one wait and its clones. -/
structure Run (β : Type) where
  event : Nat → Event β

namespace Run

variable {r : Run β} {j k m n g : Nat} {c d : Call β} {a b : Option WaitError} {e : WaitError}

def state (r : Run β) : Nat → Group β
  | 0 => .empty
  | k + 1 => (r.state k).next (r.event k)

def time (r : Run β) (k : Nat) : Nat := (r.state k).now

def call? (r : Run β) (k : Nat) : Option (Call β) := (r.event k).call?

/-- The number of the task of a wait that starts in a step. -/
def task (r : Run β) (k : Nat) : Nat := (r.state k).agenda.nextId

/-- What the first call after a wait and before a step says to it. -/
def verdict? (r : Run β) (k n : Nat) : Option WaitError :=
  (List.range n).findSome? fun m => if k < m then (r.event m).verdict? else none

/-- What a wait gives when it is looked at in a step, if it gives anything yet. -/
def answer? (r : Run β) (k n : Nat) (c : Call β) : Option (Option WaitError) :=
  match r.verdict? k n with
  | some e => some (some e)
  | none => if r.time k + c.delay ≤ r.time n then some none else none

/-- The task of a wait is there before a step: it was not dropped, and had no answer in any turn. -/
structure Open (r : Run β) (k n : Nat) (c : Call β) : Prop where
  call : r.call? k = some c
  later : k < n
  kept : ∀ m, k < m → m < n → r.event m ≠ .abandon (r.task k)
  unanswered : ∀ m, k < m → m < n → r.event m = .run (r.task k) → r.answer? k m c = none

/-- A wait resolves in a step. -/
structure Resolves (r : Run β) (k n : Nat) (c : Call β) (a : Option WaitError) : Prop where
  alive : r.Open k n c
  turn : r.event n = .run (r.task k)
  answer : r.answer? k n c = some a

/-- A wait was neither rejected nor resolved before a step. Its task may have been dropped. -/
structure Outstanding (r : Run β) (k n : Nat) (c : Call β) : Prop where
  call : r.call? k = some c
  later : k < n
  unrejected : r.verdict? k n = none
  unresolved : ∀ m < n, ∀ a, ¬r.Resolves k m c a

/-- The clock moves only while no task can answer, and never past the deadline of one. -/
def Punctual (r : Run β) : Prop :=
  ∀ k t, r.event k = .pass t → ∀ s ∈ (r.state k).agenda.sleepers,
    (r.state k).poll? s = none ∧ r.time k + t ≤ s.deadline

theorem verdict?_succ (hk : k < n) :
    r.verdict? k (n + 1) = (r.verdict? k n).or (r.event n).verdict? := by
  rw [verdict?, List.range_succ, List.findSome?_append]
  refine congrArg _ ?_
  simp [hk]

theorem verdict?_early (hn : n ≤ k + 1) : r.verdict? k n = none := by
  refine List.findSome?_eq_none_iff.mpr fun m hm => if_neg ?_
  have := List.mem_range.mp hm
  omega

theorem open_self (hc : r.call? k = some c) : r.Open k (k + 1) c :=
  ⟨hc, Nat.lt_succ_self k, between_self _ k, between_self _ k⟩

theorem open_succ (hk : k < n) : r.Open k (n + 1) c ↔ r.Open k n c ∧
    r.event n ≠ .abandon (r.task k) ∧
      (r.event n = .run (r.task k) → r.answer? k n c = none) := by
  constructor
  · intro h
    obtain ⟨hkept, hspared⟩ := (between_succ hk).mp h.kept
    obtain ⟨hunanswered, hturn⟩ := (between_succ hk).mp h.unanswered
    exact ⟨⟨h.call, hk, hkept, hunanswered⟩, hspared, hturn⟩
  · rintro ⟨h, hspared, hturn⟩
    exact ⟨h.call, Nat.lt_succ_of_lt hk, (between_succ hk).mpr ⟨h.kept, hspared⟩,
      (between_succ hk).mpr ⟨h.unanswered, hturn⟩⟩

theorem Resolves.later (hr : r.Resolves k n c a) : k < n := hr.alive.later

theorem Resolves.over (hr : r.Resolves k m c a) (hm : m < n) : ¬r.Open k n d := by
  intro ho
  obtain rfl := Option.some.inj (hr.alive.call.symm.trans ho.call)
  have hnone := ho.unanswered m hr.later hm hr.turn
  exact Option.some_ne_none a (hr.answer.symm.trans hnone)

theorem outstanding_self (hc : r.call? k = some c) : r.Outstanding k (k + 1) c := by
  refine ⟨hc, Nat.lt_succ_self k, verdict?_early (Nat.le_refl _), fun m hm a hr => ?_⟩
  have := hr.later
  omega

theorem outstanding_succ (hk : k < n) : r.Outstanding k (n + 1) c ↔ r.Outstanding k n c ∧
    (r.event n).verdict? = none ∧ ∀ a, ¬r.Resolves k n c a := by
  constructor
  · intro h
    have hv := h.unrejected
    rw [verdict?_succ hk, Option.or_eq_none_iff] at hv
    exact ⟨⟨h.call, hk, hv.1, fun m hm => h.unresolved m (by omega)⟩, hv.2,
      h.unresolved n (Nat.lt_succ_self n)⟩
  · rintro ⟨h, hv, hn⟩
    refine ⟨h.call, by omega, ?_, fun m hm => ?_⟩
    · rw [verdict?_succ hk, h.unrejected, hv]
      rfl
    · rcases Nat.lt_succ_iff_lt_or_eq.mp hm with hm | rfl
      · exact h.unresolved m hm
      · exact hn

theorem sound (r : Run β) (n : Nat) : (r.state n).Sound := by
  induction n with
  | zero => exact Group.sound_empty
  | succ n ih => exact ih.next (r.event n)

/-- The generation of a wait that starts in a step. -/
def generation (r : Run β) (k : Nat) : Nat := (r.state k).wait.generation + 1

theorem counted (r : Run β) : Counted r.task r.call? :=
  fun n => Group.nextId_next (r.state n) (r.event n)

theorem generation_eq (r : Run β) (n : Nat) : r.generation n = r.task n + 1 :=
  congrArg (· + 1) (r.sound n).counted

theorem generation_apart (hc : r.call? j = some c) (hd : r.call? k = some d)
    (hg : r.generation j = r.generation k) : j = k := by
  rw [generation_eq, generation_eq] at hg
  exact r.counted.apart hc hd (Nat.succ.inj hg)

/-- The task that a wait puts to sleep. -/
def sleeper (r : Run β) (k : Nat) (c : Call β) : Sleeper (Caller β) :=
  ⟨r.task k, r.time k + c.delay, c.label, r.generation k⟩

/-- The tasks that sleep, the rejections and the outstanding wait are those that the history
tells. -/
structure Told (r : Run β) (n : Nat) : Prop where
  asleep : ∀ i s, (r.state n).agenda.find? i = some s ↔
    ∃ k c, r.Open k n c ∧ i = r.task k ∧ s = r.sleeper k c
  rejected : ∀ k c, r.call? k = some c → k < n → (∀ m < n, ∀ a, ¬r.Resolves k m c a) →
    (r.state n).wait.rejections.lookup (r.generation k) = r.verdict? k n
  outstanding : ∀ g, (r.state n).wait.outstanding = some g ↔
    ∃ k c, r.Outstanding k n c ∧ g = r.generation k

theorem Told.poll (ht : r.Told n) (ho : r.Open k n c) :
    ((r.state n).poll? (r.sleeper k c)).map Prod.fst = r.answer? k n c := by
  have hl := ht.rejected k c ho.call ho.later fun m hm a hr => hr.over hm ho
  simp only [Group.poll?, Wait.poll?, sleeper, hl, answer?]
  cases r.verdict? k n with
  | some e => rfl
  | none =>
    change Option.map Prod.fst (if decide (r.time k + c.delay ≤ r.time n) = true then _ else _) = _
    simp only [decide_eq_true_eq]
    split <;> rfl

theorem Told.resolves (ht : r.Told n) :
    r.Resolves k n c a ↔ r.Open k n c ∧
      ∃ w, (r.state n).answering? (r.event n) = some (r.sleeper k c, a, w) := by
  constructor
  · intro hr
    have hp := ht.poll hr.alive
    rw [hr.answer] at hp
    obtain ⟨⟨_, w⟩, hlook, rfl⟩ := Option.map_eq_some_iff.mp hp
    have hf := (ht.asleep _ _).mpr ⟨k, c, hr.alive, rfl, rfl⟩
    exact ⟨hr.alive, w, Group.answering?_eq_some.mpr ⟨_, hr.turn, hf, hlook⟩⟩
  · rintro ⟨ho, w, ha⟩
    obtain ⟨i, hturn, hf, hp⟩ := Group.answering?_eq_some.mp ha
    have hid : r.task k = i := Agenda.find?_id hf
    refine ⟨ho, hid ▸ hturn, ?_⟩
    rw [← ht.poll ho, hp]
    rfl

theorem Told.answers {s : Sleeper (Caller β)} {w : Wait} (ht : r.Told n)
    (ha : (r.state n).answering? (r.event n) = some (s, a, w)) :
    ∃ k c, r.Resolves k n c a ∧ s = r.sleeper k c := by
  obtain ⟨i, _, hf, _⟩ := Group.answering?_eq_some.mp ha
  obtain ⟨k, c, ho, _, rfl⟩ := (ht.asleep i s).mp hf
  exact ⟨k, c, ht.resolves.mpr ⟨ho, w, ha⟩, rfl⟩

theorem Told.spares (ht : r.Told n) (hc : r.call? k = some c) :
    (r.state n).Spares (r.event n) (r.generation k) ↔ ∀ a, ¬r.Resolves k n c a := by
  constructor
  · intro hs a hr
    obtain ⟨_, w, ha⟩ := ht.resolves.mp hr
    exact hs _ _ ha rfl
  · rintro hn s ⟨a, w⟩ ha hg
    obtain ⟨j, d, hr, rfl⟩ := ht.answers ha
    obtain rfl := generation_apart hr.alive.call hc hg
    obtain rfl := Option.some.inj (hc.symm.trans hr.alive.call)
    exact hn a hr

theorem Told.asleep_next (ht : r.Told n) (i : Nat) (s : Sleeper (Caller β)) :
    (r.state (n + 1)).agenda.find? i = some s ↔
      ∃ k c, r.Open k (n + 1) c ∧ i = r.task k ∧ s = r.sleeper k c := by
  rw [state, Group.find?_next (r.sound n), ht.asleep]
  have hlook {k : Nat} {c : Call β} (ho : r.Open k n c) :
      (r.state n).poll? (r.sleeper k c) = none ↔ r.answer? k n c = none := by
    rw [← ht.poll ho, Option.map_eq_none_iff]
  constructor
  · rintro (⟨⟨k, c, ho, rfl, rfl⟩, hdrop, hturn⟩ | ⟨rfl, c, hc, rfl⟩)
    · refine ⟨k, c, (open_succ ho.later).mpr ⟨ho, hdrop, fun he => ?_⟩, rfl, rfl⟩
      exact (hlook ho).mp (hturn he)
    · exact ⟨n, c, open_self hc, rfl, rfl⟩
  · rintro ⟨k, c, ho, rfl, rfl⟩
    rcases Nat.lt_succ_iff_lt_or_eq.mp ho.later with hk | rfl
    · obtain ⟨ho, hdrop, hturn⟩ := (open_succ hk).mp ho
      exact Or.inl ⟨⟨k, c, ho, rfl, rfl⟩, hdrop, fun he => (hlook ho).mpr (hturn he)⟩
    · exact Or.inr ⟨rfl, c, ho.call, rfl⟩

theorem Told.rejected_next (ht : r.Told n) (hc : r.call? k = some c) (hk : k < n + 1)
    (hr : ∀ m < n + 1, ∀ a, ¬r.Resolves k m c a) :
    (r.state (n + 1)).wait.rejections.lookup (r.generation k) = r.verdict? k (n + 1) := by
  have hspared := (ht.spares hc).mpr (hr n (Nat.lt_succ_self n))
  have hold : ∀ m < n, ∀ a, ¬r.Resolves k m c a := fun m hm => hr m (Nat.lt_succ_of_lt hm)
  rw [state, Group.lookup_next (r.sound n) hspared]
  rcases Nat.lt_succ_iff_lt_or_eq.mp hk with hk | rfl
  · rw [ht.rejected k c hc hk hold, verdict?_succ hk]
    cases hv : r.verdict? k n with
    | some e => rfl
    | none =>
      have hout := (ht.outstanding _).mpr ⟨k, c, ⟨hc, hk, hv, hold⟩, rfl⟩
      rw [if_pos hout]
  · have hfresh : (r.state k).wait.rejections.lookup (r.generation k) = none :=
      (r.sound k).tidy.fresh
    have hout : (r.state k).wait.outstanding ≠ some (r.generation k) := by
      intro ho
      have := (r.sound k).tidy.latest _ ho
      simp only [generation] at this
      omega
    rw [hfresh, if_neg hout, verdict?_early (Nat.le_refl _)]
    rfl

theorem Told.outstanding_next (ht : r.Told n) (g : Nat) :
    (r.state (n + 1)).wait.outstanding = some g ↔
      ∃ k c, r.Outstanding k (n + 1) c ∧ g = r.generation k := by
  rw [state, Group.outstanding_next (r.sound n), ht.outstanding]
  constructor
  · rintro (⟨⟨k, c, ho, rfl⟩, hv, hs⟩ | ⟨hc, rfl⟩)
    · exact ⟨k, c, (outstanding_succ ho.later).mpr ⟨ho, hv, (ht.spares ho.call).mp hs⟩, rfl⟩
    · obtain ⟨c, hc⟩ := Option.isSome_iff_exists.mp hc
      exact ⟨n, c, outstanding_self hc, rfl⟩
  · rintro ⟨k, c, ho, rfl⟩
    rcases Nat.lt_succ_iff_lt_or_eq.mp ho.later with hk | rfl
    · obtain ⟨ho, hv, hr⟩ := (outstanding_succ hk).mp ho
      exact Or.inl ⟨⟨k, c, ho, rfl⟩, hv, (ht.spares ho.call).mpr hr⟩
    · exact Or.inr ⟨Option.isSome_iff_exists.mpr ⟨c, ho.call⟩, rfl⟩

theorem told (r : Run β) (n : Nat) : r.Told n := by
  induction n with
  | zero =>
    refine ⟨fun i s => ⟨nofun, ?_⟩, fun k c hc hk => absurd hk (Nat.not_lt_zero k),
      fun g => ⟨nofun, ?_⟩⟩
    · rintro ⟨k, c, ho, _⟩
      exact absurd ho.later (Nat.not_lt_zero k)
    · rintro ⟨k, c, ho, _⟩
      exact absurd ho.later (Nat.not_lt_zero k)
  | succ n ih => exact ⟨ih.asleep_next, fun _ _ => ih.rejected_next, ih.outstanding_next⟩

theorem Resolves.log (hr : r.Resolves k n c a) :
    (r.state (n + 1)).done = ⟨r.time n, c.label, a⟩ :: (r.state n).done := by
  obtain ⟨_, w, ha⟩ := (r.told n).resolves.mp hr
  rw [state, Group.done_next, ha]
  rfl

theorem log_kept (hr : ∀ k c a, ¬r.Resolves k n c a) :
    (r.state (n + 1)).done = (r.state n).done := by
  rw [state, Group.done_next]
  cases ha : (r.state n).answering? (r.event n) with
  | none => rfl
  | some x =>
    obtain ⟨k, c, h, _⟩ := (r.told n).answers (s := x.1) (a := x.2.1) (w := x.2.2) ha
    exact absurd h (hr k c x.2.1)

theorem resolves_by (hc : r.call? k = some c) (hk : k < n)
    (hkept : ∀ m, k < m → m < n → r.event m ≠ .abandon (r.task k))
    (ht : r.event n = .run (r.task k)) (ha : r.answer? k n c ≠ none) :
    ∃ m ≤ n, ∃ a, r.Resolves k m c a := by
  classical
  have hturn : ∃ m, k < m ∧ r.event m = .run (r.task k) ∧ r.answer? k m c ≠ none :=
    ⟨n, hk, ht, ha⟩
  obtain ⟨hkm, htm, ham⟩ := Nat.find_spec hturn
  have hle : Nat.find hturn ≤ n := Nat.find_min' hturn ⟨hk, ht, ha⟩
  obtain ⟨a, ham⟩ := Option.ne_none_iff_exists'.mp ham
  refine ⟨Nat.find hturn, hle, a, ⟨hc, hkm, fun i hi hm => ?_, fun i hi hm hti => ?_⟩, htm, ham⟩
  · exact hkept i hi (Nat.lt_of_lt_of_le hm hle)
  · exact Classical.byContradiction fun hai => Nat.find_min hturn hm ⟨hi, hti, hai⟩

theorem Resolves.unique (hr : r.Resolves k m c a) (hs : r.Resolves k n d b) : m = n ∧ a = b := by
  obtain rfl := Option.some.inj (hr.alive.call.symm.trans hs.alive.call)
  rcases Nat.lt_trichotomy m n with hlt | rfl | hlt
  · exact absurd hs.alive (hr.over hlt)
  · exact ⟨rfl, Option.some.inj (hr.answer.symm.trans hs.answer)⟩
  · exact absurd hr.alive (hs.over hlt)

theorem Resolves.apart (hr : r.Resolves j n c a) (hs : r.Resolves k n d b) : j = k :=
  r.counted.apart hr.alive.call hs.alive.call (Event.run.inj (hr.turn.symm.trans hs.turn))

theorem Resolves.answer_eq (hr : r.Resolves k n c a) :
    a = r.verdict? k n ∧ (a = none → r.time k + c.delay ≤ r.time n) := by
  have ha := hr.answer
  cases hv : r.verdict? k n with
  | some e =>
    simp only [answer?, hv] at ha
    obtain rfl := Option.some.inj ha
    exact ⟨rfl, nofun⟩
  | none =>
    simp only [answer?, hv] at ha
    split at ha
    · next hd =>
      obtain rfl := Option.some.inj ha
      exact ⟨rfl, fun _ => hd⟩
    · cases ha

theorem verdict?_first (hv : r.verdict? k n = some e) :
    ∃ m, k < m ∧ m < n ∧ (r.event m).verdict? = some e ∧ r.verdict? k m = none := by
  induction n with
  | zero => cases hv
  | succ n ih =>
    by_cases hk : k < n
    · rw [verdict?_succ hk] at hv
      rcases Option.or_eq_some_iff.mp hv with hv | ⟨hnone, hv⟩
      · obtain ⟨m, hkm, hmn, he⟩ := ih hv
        exact ⟨m, hkm, by omega, he⟩
      · exact ⟨n, hk, Nat.lt_succ_self n, hv, hnone⟩
    · rw [verdict?_early (by omega)] at hv
      cases hv

theorem isWaiting_iff (r : Run β) (n : Nat) :
    (r.state n).wait.isWaiting = true ↔ ∃ k c, r.Outstanding k n c := by
  rw [isWaiting, Option.isSome_iff_exists]
  constructor
  · rintro ⟨g, hg⟩
    obtain ⟨k, c, ho, _⟩ := ((r.told n).outstanding g).mp hg
    exact ⟨k, c, ho⟩
  · rintro ⟨k, c, ho⟩
    exact ⟨_, ((r.told n).outstanding _).mpr ⟨k, c, ho, rfl⟩⟩

theorem Outstanding.unique (hj : r.Outstanding j n c) (hk : r.Outstanding k n d) : j = k := by
  have hoj := ((r.told n).outstanding _).mpr ⟨j, c, hj, rfl⟩
  have hok := ((r.told n).outstanding _).mpr ⟨k, d, hk, rfl⟩
  exact generation_apart hj.call hk.call (Option.some.inj (hoj.symm.trans hok))

theorem Resolves.spares (hr : r.Resolves j n c a) (ho : r.Outstanding k n d) :
    k = j ∨ r.Outstanding k (n + 1) d := by
  by_cases hk : k = j
  · exact Or.inl hk
  · refine Or.inr ((outstanding_succ ho.later).mpr ⟨ho, ?_, fun b hs => hk (hs.apart hr)⟩)
    rw [hr.turn]
    rfl

theorem time_kept (hp : ∀ t, r.event n ≠ .pass t) : r.time (n + 1) = r.time n :=
  Group.now_next hp

theorem Open.asleep (ho : r.Open k n c) :
    r.sleeper k c ∈ (r.state n).agenda.sleepers :=
  Agenda.mem_of_find? (((r.told n).asleep _ _).mpr ⟨k, c, ho, rfl, rfl⟩)

theorem Punctual.time_le (hr : r.Punctual) (ho : r.Open k n c) :
    r.time n ≤ r.time k + c.delay := by
  induction n with
  | zero => exact absurd ho.later (Nat.not_lt_zero k)
  | succ n ih =>
    rcases Nat.lt_succ_iff_lt_or_eq.mp ho.later with hk | rfl
    · obtain ⟨ho, _⟩ := (open_succ hk).mp ho
      by_cases hpass : ∃ t, r.event n = .pass t
      · obtain ⟨t, ht⟩ := hpass
        rw [time, state, ht]
        exact (hr n t ht _ ho.asleep).2
      · rw [time_kept fun t ht => hpass ⟨t, ht⟩]
        exact ih ho
    · have hcall : ∀ t, r.event k ≠ .pass t := by
        intro t ht
        have hc := ho.call
        rw [call?, ht] at hc
        cases hc
      rw [time_kept hcall]
      exact Nat.le_add_right _ _

/-- In a punctual run a task that was rejected is there only until the clock moves. -/
theorem Punctual.time_eq (hr : r.Punctual) (ho : r.Open k n c) (hv : r.verdict? k n = some e) :
    ∃ m, k < m ∧ m < n ∧ (r.event m).verdict? = some e ∧ r.verdict? k m = none ∧
      r.time n = r.time m := by
  induction n with
  | zero => exact absurd ho.later (Nat.not_lt_zero k)
  | succ n ih =>
    rcases Nat.lt_succ_iff_lt_or_eq.mp ho.later with hk | rfl
    · obtain ⟨ho, _⟩ := (open_succ hk).mp ho
      rw [verdict?_succ hk] at hv
      rcases Option.or_eq_some_iff.mp hv with hv | ⟨hnone, hv⟩
      · have hstill : ∀ t, r.event n ≠ .pass t := by
          intro t ht
          obtain ⟨hp, _⟩ := hr n t ht _ ho.asleep
          have ha := (r.told n).poll ho
          rw [hp, answer?, hv] at ha
          cases ha
        obtain ⟨m, hkm, hmn, he, hfirst, htime⟩ := ih ho hv
        exact ⟨m, hkm, by omega, he, hfirst, (time_kept hstill).trans htime⟩
      · refine ⟨n, hk, Nat.lt_succ_self n, hv, hnone, time_kept fun t ht => ?_⟩
        rw [ht] at hv
        cases hv
    · rw [verdict?_early (Nat.le_refl _)] at hv
      cases hv

end Run

/-- Who is answered in a run, how and when. -/
structure Run.AnswersOnce (r : Run β) : Prop where
  /-- A wait whose task is not dropped, and gets a turn after its deadline or after it was rejected,
  resolves by then. -/
  resolves : ∀ k n c, r.call? k = some c → k < n →
    (∀ m, k < m → m < n → r.event m ≠ .abandon (r.task k)) → r.event n = .run (r.task k) →
    r.verdict? k n ≠ none ∨ r.time k + c.delay ≤ r.time n → ∃ m ≤ n, ∃ a, r.Resolves k m c a
  logged : ∀ k n c a, r.Resolves k n c a →
    (r.state (n + 1)).done = ⟨r.time n, c.label, a⟩ :: (r.state n).done
  only : ∀ n, (∀ k c a, ¬r.Resolves k n c a) → (r.state (n + 1)).done = (r.state n).done
  once : ∀ k m n c d a b, r.Resolves k m c a → r.Resolves k n d b → m = n ∧ a = b
  apart : ∀ j k n c d a b, r.Resolves j n c a → r.Resolves k n d b → j = k
  /-- The first call after a wait decides, also when its deadline has come since. -/
  reason : ∀ k n c a, r.Resolves k n c a → a = r.verdict? k n
  first : ∀ k n e, r.verdict? k n = some e →
    ∃ m, k < m ∧ m < n ∧ (r.event m).verdict? = some e ∧ r.verdict? k m = none
  early : ∀ k n c, r.Resolves k n c none → r.time k + c.delay ≤ r.time n
  waiting : ∀ n, (r.state n).wait.isWaiting = true ↔ ∃ k c, r.Outstanding k n c
  alone : ∀ j k n c d, r.Outstanding j n c → r.Outstanding k n d → j = k
  spared : ∀ j k n c d a, r.Resolves j n c a → r.Outstanding k n d →
    k = j ∨ r.Outstanding k (n + 1) d
  /-- Where tasks run at every instant, a delay elapses at the deadline, and a rejection arrives at
  once. -/
  exact : r.Punctual → ∀ k n c, r.Resolves k n c none → r.time n = r.time k + c.delay
  prompt : r.Punctual → ∀ k n c, r.Open k n c → r.time n ≤ r.time k + c.delay
  rejected : r.Punctual → ∀ k n c e, r.Resolves k n c (some e) →
    ∃ m, k < m ∧ m < n ∧ (r.event m).verdict? = some e ∧ r.verdict? k m = none ∧
      r.time n = r.time m
  /-- To let time flow is to run every task as soon as it can answer. -/
  flows : ∀ n time, (r.state n).Lapses ((r.state n).advance time) ∧
    ((r.state n).advance time).now = r.time n + time ∧
      ∀ s ∈ ((r.state n).advance time).agenda.sleepers, r.time n + time < s.deadline

theorem answers_once (r : Run β) : r.AnswersOnce where
  resolves k n c hc hk hkept ht hd := by
    refine Run.resolves_by hc hk hkept ht fun ha => ?_
    simp only [Run.answer?] at ha
    split at ha
    · cases ha
    · next hv =>
      rw [if_pos (hd.resolve_left fun hne => hne hv)] at ha
      cases ha
  logged _ _ _ _ hr := hr.log
  only _ hr := Run.log_kept hr
  once _ _ _ _ _ _ _ hr hs := hr.unique hs
  apart _ _ _ _ _ _ _ hr hs := hr.apart hs
  reason _ _ _ _ hr := hr.answer_eq.1
  first _ _ _ hv := Run.verdict?_first hv
  early _ _ _ hr := hr.answer_eq.2 rfl
  waiting := r.isWaiting_iff
  alone _ _ _ _ _ hj hk := hj.unique hk
  spared _ _ _ _ _ _ hr ho := hr.spares ho
  exact hp _ _ _ hr := Nat.le_antisymm (hp.time_le hr.alive) (hr.answer_eq.2 rfl)
  prompt hp _ _ _ ho := hp.time_le ho
  rejected hp _ _ _ _ hr := hp.time_eq hr.alive hr.answer_eq.1.symm
  flows n := Group.advance_lapses (r.sound n)

/-- A wait that is replaced looks late, its successor is cancelled, and the third one elapses. The
fourth is dropped and stays outstanding. -/
def crowdedRun : Run String where
  event
    | 0 => .wait 10 "first"
    | 1 => .wait 20 "second"
    | 2 => .run 0
    | 3 => .cancel
    | 4 => .run 1
    | 5 => .wait 10 "third"
    | 6 => .pass 10
    | 7 => .run 2
    | 8 => .wait 5 "fourth"
    | 9 => .abandon 3
    | _ => .run 3

theorem crowd_answered_once :
    crowdedRun.Punctual ∧ crowdedRun.Resolves 5 7 ⟨10, "third"⟩ none ∧ crowdedRun.time 7 = 10 ∧
      (crowdedRun.state 12).done =
        [⟨10, "third", none⟩, ⟨0, "second", some .cancelled⟩, ⟨0, "first", some .superseded⟩] ∧
      (crowdedRun.state 12).wait.isWaiting = true := by
  have hp : crowdedRun.Punctual := by
    intro k t hk
    match k with
    | 6 => cases hk; decide
    | 0 | 1 | 2 | 3 | 4 | 5 | 7 | 8 | 9 => cases hk
    | k + 10 => cases hk
  have hkept : ∀ m < 7, 5 < m → m = 6 := by decide
  have hr : crowdedRun.Resolves 5 7 ⟨10, "third"⟩ none := by
    refine ⟨⟨rfl, by decide, fun m hm hn => ?_, fun m hm hn ht => ?_⟩, rfl, by decide⟩
    · obtain rfl := hkept m hn hm
      nofun
    · obtain rfl := hkept m hn hm
      cases ht
  exact ⟨hp, hr, (answers_once crowdedRun).exact hp 5 7 _ hr, by decide, by decide⟩

end DocSync.Wait
