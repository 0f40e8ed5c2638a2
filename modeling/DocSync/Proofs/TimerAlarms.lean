import DocSync.Proofs.Agendas
import DocSync.Timer.Group

/-!
The alarms of named timers. A sleeping task is the pending one of its timer and of its generation,
so it acts whenever it gets its turn after its deadline. What a step does to the sleeping tasks is
told by the calls that it makes, the timer that it touches and the task whose turn it is.
-/

namespace DocSync.Timer

variable {β : Type}

/-- A call that schedules a plan on a timer. -/
structure Call (β : Type) where
  name : String
  delay : Nat
  plan : Plan β

/-- The call that an action makes on its own timer. -/
def Plan.call? (name : String) : Plan β → Option (Call β)
  | last _ => none
  | andThen _ delay next => some ⟨name, delay, next⟩

/-- What a sleeping task will do, and when. -/
structure Alarm (β : Type) where
  name : String
  deadline : Nat
  plan : Plan β

namespace Group

variable {g h : Group β} {name : String} {i : Nat} {s : Sleeper (Job β)} {x : Alarm β}
  {e : Event β}

def alarm? (g : Group β) (i : Nat) : Option (Alarm β) :=
  (g.agenda.find? i).map fun s => ⟨s.job.name, s.deadline, s.job.plan⟩

/-- The pending tasks of the timers are those that sleep, each of its timer's generation. -/
structure Armed (g : Group β) : Prop where
  fresh : ∀ {i s}, g.agenda.find? i = some s → i < g.agenda.nextId
  owned : ∀ {i s}, g.agenda.find? i = some s → ∃ t, g.timers.lookup s.job.name = some t ∧
    t.pending = some i ∧ t.generation = s.job.generation
  sleeps : ∀ {name t i}, g.timers.lookup name = some t → t.pending = some i →
    ∃ s, g.agenda.find? i = some s ∧ s.job.name = name

theorem Armed.alone {j : Nat} {t : Sleeper (Job β)} (hg : g.Armed) (hi : g.agenda.find? i = some s)
    (hj : g.agenda.find? j = some t) (hn : t.job.name = s.job.name) : j = i := by
  obtain ⟨_, hs, hi, _⟩ := hg.owned hi
  obtain ⟨_, ht, hj, _⟩ := hg.owned hj
  rw [hn] at ht
  obtain rfl := Option.some.inj (hs.symm.trans ht)
  exact Option.some.inj (hj.symm.trans hi)

/-- The tasks asleep that are not those of a timer. -/
def others (g : Group β) (name : String) (i : Nat) : Option (Sleeper (Job β)) :=
  (g.agenda.find? i).filter fun s => s.job.name != name

theorem others_eq_some : g.others name i = some s ↔
    g.agenda.find? i = some s ∧ s.job.name ≠ name := by
  rw [others, Option.filter_eq_some_iff, bne_iff_ne]

/-- What a timer's pending task leaves when it is dropped. -/
theorem Armed.abort (hg : g.Armed) (name : String) (i : Nat) :
    (((g.timers.lookup name).getD .idle).abort g.agenda).find? i = g.others name i := by
  rw [find?_abort]
  cases hf : g.agenda.find? i with
  | none =>
    rw [others, hf]
    split <;> rfl
  | some s =>
    obtain ⟨t, ht, hp, _⟩ := hg.owned hf
    by_cases hn : s.job.name = name
    · rw [others, hf, ← hn, ht, Option.getD_some, if_pos hp, Option.filter_some,
        bne_self_eq_false]
      rfl
    · have hother : ((g.timers.lookup name).getD .idle).pending ≠ some i := by
        intro hi
        cases hl : g.timers.lookup name with
        | none =>
          rw [hl] at hi
          cases hi
        | some u =>
          rw [hl] at hi
          obtain ⟨s', hs', hname⟩ := hg.sleeps hl hi
          obtain rfl := Option.some.inj (hf.symm.trans hs')
          exact hn hname
      rw [if_neg hother]
      exact (others_eq_some.mpr ⟨hf, hn⟩).symm

theorem Armed.disarm (hg : g.Armed) (ha : ∀ i, h.agenda.find? i = g.others name i)
    (hn : h.agenda.nextId = g.agenda.nextId)
    (ht : ∀ t, h.timers.lookup name = some t → t.pending = none)
    (ho : ∀ other, other ≠ name → h.timers.lookup other = g.timers.lookup other) : h.Armed where
  fresh hi := by
    rw [ha] at hi
    exact hn ▸ hg.fresh (others_eq_some.mp hi).1
  owned hi := by
    rw [ha] at hi
    obtain ⟨hi, hne⟩ := others_eq_some.mp hi
    rw [ho _ hne]
    exact hg.owned hi
  sleeps {other t i} hl hp := by
    have hne : other ≠ name := by
      rintro rfl
      exact Option.some_ne_none i (hp.symm.trans (ht t hl))
    rw [ho _ hne] at hl
    obtain ⟨s, hs, hname⟩ := hg.sleeps hl hp
    exact ⟨s, (ha i).trans (others_eq_some.mpr ⟨hs, hname.symm ▸ hne⟩), hname⟩

/-- A timer comes to have a new task pending. -/
theorem Armed.arm {deadline generation : Nat} {plan : Plan β} (hg : g.Armed)
    (ha : ∀ i, h.agenda.find? i = (g.others name i).or
      (if i = g.agenda.nextId then some ⟨g.agenda.nextId, deadline, name, generation, plan⟩
        else none))
    (hn : h.agenda.nextId = g.agenda.nextId + 1)
    (ht : h.timers.lookup name = some ⟨generation, some g.agenda.nextId⟩)
    (ho : ∀ other, other ≠ name → h.timers.lookup other = g.timers.lookup other) : h.Armed := by
  have hcases {i : Nat} {s : Sleeper (Job β)} (hi : h.agenda.find? i = some s) :
      (g.agenda.find? i = some s ∧ s.job.name ≠ name) ∨
        i = g.agenda.nextId ∧ s = ⟨g.agenda.nextId, deadline, name, generation, plan⟩ := by
    rw [ha] at hi
    rcases Option.or_eq_some_iff.mp hi with hi | ⟨_, hi⟩
    · exact Or.inl (others_eq_some.mp hi)
    · split at hi
      · next hid => exact Or.inr ⟨hid, (Option.some.inj hi).symm⟩
      · cases hi
  constructor
  · intro i s hi
    rw [hn]
    rcases hcases hi with ⟨hi, _⟩ | ⟨rfl, _⟩
    · exact Nat.lt_succ_of_lt (hg.fresh hi)
    · exact Nat.lt_succ_self _
  · intro i s hi
    rcases hcases hi with ⟨hi, hne⟩ | ⟨rfl, rfl⟩
    · rw [ho _ hne]
      exact hg.owned hi
    · exact ⟨_, ht, rfl, rfl⟩
  · intro other t i hl hp
    by_cases hne : other = name
    · subst hne
      obtain rfl := Option.some.inj (ht.symm.trans hl)
      obtain rfl := Option.some.inj hp
      refine ⟨⟨g.agenda.nextId, deadline, other, generation, plan⟩, ?_, rfl⟩
      have hfree : g.others other g.agenda.nextId = none := by
        cases hf : g.others other g.agenda.nextId with
        | none => rfl
        | some s => exact absurd (hg.fresh (others_eq_some.mp hf).1) (Nat.lt_irrefl _)
      rw [ha, hfree, if_pos rfl]
      rfl
    · rw [ho _ hne] at hl
      obtain ⟨s, hs, hname⟩ := hg.sleeps hl hp
      refine ⟨s, ?_, hname⟩
      rw [ha, others_eq_some.mpr ⟨hs, hname.symm ▸ hne⟩]
      rfl

theorem Armed.free (hg : g.Armed) : g.agenda.find? g.agenda.nextId = none := by
  cases hf : g.agenda.find? g.agenda.nextId with
  | none => rfl
  | some s => exact absurd (hg.fresh hf) (Nat.lt_irrefl _)

theorem find?_schedule_group (hg : g.Armed) (name : String) (delay : Nat) (plan : Plan β)
    (i : Nat) :
    (g.schedule name delay plan).agenda.find? i = (g.others name i).or
      (if i = g.agenda.nextId then
        some ⟨g.agenda.nextId, g.now + delay, name,
          ((g.timers.lookup name).getD .idle).generation + 1, plan⟩
      else none) := by
  have hs := find?_schedule ((g.timers.lookup name).getD .idle) g.agenda (g.now + delay)
    (fun n => ⟨name, n, plan⟩) i
  rw [← find?_abort, hg.abort] at hs
  exact hs

theorem nextId_schedule (g : Group β) (name : String) (delay : Nat) (plan : Plan β) :
    (g.schedule name delay plan).agenda.nextId = g.agenda.nextId + 1 :=
  congrArg (· + 1) (nextId_abort _ _)

theorem Armed.schedule (hg : g.Armed) (name : String) (delay : Nat) (plan : Plan β) :
    (g.schedule name delay plan).Armed := by
  refine hg.arm (find?_schedule_group hg name delay plan) (nextId_schedule g name delay plan) ?_ ?_
  · refine (Keyed.lookup_put _ _ _ _).trans ((if_pos rfl).trans ?_)
    exact congrArg (fun n => some (Timer.mk _ (some n))) (nextId_abort _ _)
  · intro other hne
    exact (Keyed.lookup_put _ _ _ _).trans (if_neg hne)

theorem find?_cancel (hg : g.Armed) (name : String) (i : Nat) :
    (g.cancel name).agenda.find? i = g.others name i := by
  rw [← hg.abort]
  simp only [cancel]
  cases g.timers.lookup name with
  | none => rfl
  | some t => exact congrArg (Agenda.find? · i) (cancel_agenda t g.agenda)

theorem nextId_cancel (g : Group β) (name : String) :
    (g.cancel name).agenda.nextId = g.agenda.nextId := by
  simp only [cancel]
  cases g.timers.lookup name with
  | none => rfl
  | some t =>
    exact (congrArg Agenda.nextId (cancel_agenda t g.agenda)).trans (nextId_abort t g.agenda)

theorem lookup_cancel (g : Group β) (name other : String) :
    (g.cancel name).timers.lookup other =
      if other = name then (g.timers.lookup name).map fun t => (t.cancel g.agenda).1
      else g.timers.lookup other := by
  simp only [cancel]
  cases hl : g.timers.lookup name with
  | none =>
    by_cases ho : other = name
    · rw [if_pos ho, ho]
      exact hl
    · rw [if_neg ho]
  | some t => exact Keyed.lookup_put _ _ _ _

theorem Armed.cancel (hg : g.Armed) (name : String) : (g.cancel name).Armed := by
  refine hg.disarm (find?_cancel hg name) (nextId_cancel g name) ?_ ?_
  · intro t ht
    rw [lookup_cancel, if_pos rfl] at ht
    obtain ⟨t, _, rfl⟩ := Option.map_eq_some_iff.mp ht
    exact cancel_pending _ _
  · intro other hne
    rw [lookup_cancel, if_neg hne]

theorem Armed.drop (hg : g.Armed) (name : String) : (g.drop name).Armed := by
  refine hg.disarm (find?_cancel hg name) (nextId_cancel g name) ?_ ?_
  · intro t ht
    change (Keyed.remove name _).lookup name = some t at ht
    rw [Keyed.lookup_remove, if_pos rfl] at ht
    cases ht
  · intro other hne
    change (Keyed.remove name _).lookup other = _
    rw [Keyed.lookup_remove, if_neg hne]

/-- A timer whose task has left the agenda. -/
def clear (g : Group β) (s : Sleeper (Job β)) : Group β :=
  { g with
    agenda := g.agenda.drop s.id
    timers := Keyed.put s.job.name ⟨s.job.generation, none⟩ g.timers }

theorem find?_clear (hg : g.Armed) (hs : g.agenda.find? i = some s) (j : Nat) :
    (g.clear s).agenda.find? j = g.others s.job.name j := by
  have hid := Agenda.find?_id hs
  change (g.agenda.drop s.id).find? j = _
  rw [Agenda.find?_drop, hid]
  by_cases hj : j = i
  · subst hj
    rw [if_pos rfl, others, hs, Option.filter_some, bne_self_eq_false]
    rfl
  · rw [if_neg hj]
    cases hf : g.agenda.find? j with
    | none => rw [others, hf]; rfl
    | some t => exact (others_eq_some.mpr ⟨hf, fun hn => hj (hg.alone hs hf hn)⟩).symm

theorem Armed.clear (hg : g.Armed) (hs : g.agenda.find? i = some s) : (g.clear s).Armed := by
  refine hg.disarm (find?_clear hg hs) rfl ?_ ?_
  · intro t ht
    have hput := (Keyed.lookup_put _ _ _ _).symm.trans ht
    rw [if_pos rfl] at hput
    exact Option.some.inj hput ▸ rfl
  · intro other hne
    exact (Keyed.lookup_put _ _ _ _).trans (if_neg hne)

theorem run_eq (hg : g.Armed) (hs : g.agenda.find? i = some s) :
    g.run s = (g.clear s).act s.job.name false s.job.plan := by
  obtain ⟨t, ht, _, hgen⟩ := hg.owned hs
  simp only [run, ht, Option.bind_some, Timer.fire?, hgen, ↓reduceIte]
  rfl

/-- The task whose turn comes after its deadline. -/
def acting? (g : Group β) : Event β → Option (Sleeper (Job β))
  | .run i => (g.agenda.find? i).filter fun s => s.deadline ≤ g.now
  | _ => none

/-- The call that an event makes: by itself, or by the action that it lets run. -/
def call? (g : Group β) : Event β → Option (Call β)
  | .schedule name delay plan => some ⟨name, delay, plan⟩
  | e => (g.acting? e).bind fun s => s.job.plan.call? s.job.name

/-- The timer that an event schedules on, cancels or drops. -/
def touched? (g : Group β) : Event β → Option String
  | .cancel name => some name
  | .drop name => some name
  | e => (g.call? e).map Call.name

theorem next_acting (hg : g.Armed) (hs : g.acting? e = some s) :
    ∃ i, e = .run i ∧ g.agenda.find? i = some s ∧ s.deadline ≤ g.now ∧
      g.next e = (g.clear s).act s.job.name false s.job.plan := by
  cases e with
  | run i =>
    obtain ⟨hf, hd⟩ := Option.filter_eq_some_iff.mp hs
    have hd : s.deadline ≤ g.now := of_decide_eq_true hd
    refine ⟨i, rfl, hf, hd, ?_⟩
    simp only [next, hf, hd, ↓reduceIte]
    exact run_eq hg hf
  | _ => cases hs

theorem call?_acting (hs : g.acting? e = some s) : g.call? e = s.job.plan.call? s.job.name := by
  cases e with
  | run i =>
    change (g.acting? (.run i)).bind _ = _
    rw [hs]
    rfl
  | _ => cases hs

theorem call?_idle (hs : g.acting? (.run i) = none) : g.call? (.run i) = none := by
  change (g.acting? (.run i)).bind _ = none
  rw [hs]
  rfl

theorem touched?_of_call {c : Call β} (hc : g.call? e = some c) : g.touched? e = some c.name := by
  cases e with
  | cancel => cases hc
  | drop => cases hc
  | _ => exact congrArg (Option.map Call.name) hc

theorem next_idle {i : Nat} (hs : g.acting? (.run i) = none) : g.next (.run i) = g := by
  simp only [next]
  cases hf : g.agenda.find? i with
  | none => rfl
  | some s =>
    refine if_neg fun hd => ?_
    have hacts : g.acting? (.run i) = some s :=
      Option.filter_eq_some_iff.mpr ⟨hf, decide_eq_true hd⟩
    exact absurd (hacts.symm.trans hs) (Option.some_ne_none s)

theorem Armed.next (hg : g.Armed) (e : Event β) : (g.next e).Armed := by
  cases e with
  | schedule name delay plan => exact hg.schedule name delay plan
  | cancel name => exact hg.cancel name
  | drop name => exact hg.drop name
  | pass time => exact ⟨hg.fresh, hg.owned, hg.sleeps⟩
  | run i =>
    cases hs : g.acting? (.run i) with
    | none => exact (next_idle hs).symm ▸ hg
    | some s =>
      obtain ⟨_, _, hf, _, he⟩ := next_acting hg hs
      have hc := hg.clear hf
      rw [he]
      cases s.job.plan with
      | last label => exact ⟨hc.fresh, hc.owned, hc.sleeps⟩
      | andThen label delay next =>
        refine Armed.schedule ?_ _ delay next
        exact ⟨hc.fresh, hc.owned, hc.sleeps⟩

theorem now_act (g : Group β) (name : String) (pending : Bool) (plan : Plan β) :
    (g.act name pending plan).now = g.now := by
  cases plan <;> rfl

theorem now_next (hg : g.Armed) (he : ∀ t, e ≠ .pass t) : (g.next e).now = g.now := by
  cases e with
  | schedule => rfl
  | cancel name =>
    simp only [next, cancel]
    split <;> rfl
  | drop name =>
    simp only [next, drop, cancel]
    split <;> rfl
  | pass t => exact absurd rfl (he t)
  | run i =>
    cases hs : g.acting? (.run i) with
    | none => rw [next_idle hs]
    | some s =>
      obtain ⟨_, _, _, _, he⟩ := next_acting hg hs
      rw [he, now_act]
      rfl

theorem now_turn (hg : g.Armed) (i : Nat) : (g.next (.run i)).now = g.now :=
  now_next hg fun _ => nofun

theorem fired_next (hg : g.Armed) (e : Event β) :
    (g.next e).fired =
      ((g.acting? e).map fun s => ⟨g.now, s.job.plan.label, false⟩).toList ++ g.fired := by
  cases hs : g.acting? e with
  | some s =>
    obtain ⟨_, _, _, _, he⟩ := next_acting hg hs
    rw [he]
    simp only [act, Option.map_some, Option.toList_some]
    cases s.job.plan <;> rfl
  | none =>
    cases e with
    | run i => rw [next_idle hs]; rfl
    | cancel name =>
      simp only [next, cancel]
      split <;> rfl
    | drop name =>
      simp only [next, drop, cancel]
      split <;> rfl
    | _ => rfl

theorem alarm?_eq_some : g.alarm? i = some x ↔
    ∃ s, g.agenda.find? i = some s ∧ ⟨s.job.name, s.deadline, s.job.plan⟩ = x :=
  Option.map_eq_some_iff

theorem alarm?_others (ha : ∀ i, h.agenda.find? i = g.others name i) :
    h.alarm? i = some x ↔ g.alarm? i = some x ∧ x.name ≠ name := by
  rw [alarm?_eq_some, alarm?_eq_some, ha]
  constructor
  · rintro ⟨s, hs, rfl⟩
    obtain ⟨hs, hn⟩ := others_eq_some.mp hs
    exact ⟨⟨s, hs, rfl⟩, hn⟩
  · rintro ⟨⟨s, hs, rfl⟩, hn⟩
    exact ⟨s, others_eq_some.mpr ⟨hs, hn⟩, rfl⟩

theorem alarm?_schedule (hg : g.Armed) (name : String) (delay : Nat) (plan : Plan β) :
    (g.schedule name delay plan).alarm? i = some x ↔ (g.alarm? i = some x ∧ x.name ≠ name) ∨
      (i = g.agenda.nextId ∧ x = ⟨name, g.now + delay, plan⟩) := by
  rw [alarm?_eq_some, alarm?_eq_some, find?_schedule_group hg]
  by_cases hi : i = g.agenda.nextId
  · subst hi
    rw [others, hg.free, if_pos rfl]
    constructor
    · rintro ⟨s, hs, rfl⟩
      obtain rfl := Option.some.inj hs
      exact Or.inr ⟨rfl, rfl⟩
    · rintro (⟨⟨s, hs, _⟩, _⟩ | ⟨_, rfl⟩)
      · cases hs
      · exact ⟨_, rfl, rfl⟩
  · rw [if_neg hi, Option.or_none]
    constructor
    · rintro ⟨s, hs, rfl⟩
      obtain ⟨hs, hn⟩ := others_eq_some.mp hs
      exact Or.inl ⟨⟨s, hs, rfl⟩, hn⟩
    · rintro (⟨⟨s, hs, rfl⟩, hn⟩ | ⟨hid, _⟩)
      · exact ⟨s, others_eq_some.mpr ⟨hs, hn⟩, rfl⟩
      · exact absurd hid hi

/-- The event leaves a task asleep: it touches another timer or none, and is no turn of the task
after its deadline. -/
def Spares (g : Group β) (e : Event β) (i : Nat) (x : Alarm β) : Prop :=
  g.touched? e ≠ some x.name ∧ (e = .run i → g.now < x.deadline)

theorem spares_of_touched (hr : ∀ j, e ≠ .run j) (ht : g.touched? e = some name) :
    x.name ≠ name ↔ g.Spares e i x := by
  rw [Spares, ht]
  constructor
  · intro hn
    exact ⟨fun he => hn (Option.some.inj he).symm, fun he => absurd he (hr i)⟩
  · rintro ⟨hn, _⟩ rfl
    exact hn rfl

theorem spares_of_acting {j : Nat} (hg : g.Armed) (hs : g.acting? (.run j) = some s)
    (hx : g.alarm? i = some x) : x.name ≠ s.job.name ↔ g.Spares (.run j) i x := by
  obtain ⟨_, he, hf, hd, _⟩ := next_acting hg hs
  obtain rfl := Event.run.inj he
  obtain ⟨t, ht, rfl⟩ := alarm?_eq_some.mp hx
  constructor
  · intro hn
    refine ⟨fun hc => hn ?_, fun he => ?_⟩
    · obtain ⟨c, hc, hname⟩ := Option.map_eq_some_iff.mp hc
      rw [call?_acting hs] at hc
      cases hp : s.job.plan with
      | last => rw [hp] at hc; cases hc
      | andThen =>
        rw [hp] at hc
        obtain rfl := Option.some.inj hc
        exact hname.symm
    · obtain rfl := Event.run.inj he
      obtain rfl := Option.some.inj (hf.symm.trans ht)
      exact absurd rfl hn
  · rintro ⟨_, hlate⟩ hn
    obtain rfl := hg.alone hf ht hn
    obtain rfl := Option.some.inj (hf.symm.trans ht)
    exact absurd (hlate rfl) (Nat.not_lt_of_le hd)

theorem spares_of_idle {j : Nat} (hs : g.acting? (.run j) = none) (hx : g.alarm? i = some x) :
    g.Spares (.run j) i x := by
  have ht : g.touched? (.run j) = none := congrArg (Option.map Call.name) (call?_idle hs)
  refine ⟨ht ▸ nofun, fun he => ?_⟩
  obtain rfl := Event.run.inj he
  obtain ⟨s, hf, rfl⟩ := alarm?_eq_some.mp hx
  refine Nat.lt_of_not_le fun hd => ?_
  have hacts : g.acting? (.run j) = some s :=
    Option.filter_eq_some_iff.mpr ⟨hf, decide_eq_true hd⟩
  exact Option.some_ne_none s (hacts.symm.trans hs)

/-- The call puts a task to sleep. -/
def Begins (g : Group β) (c? : Option (Call β)) (i : Nat) (x : Alarm β) : Prop :=
  i = g.agenda.nextId ∧ ∃ c, c? = some c ∧ x = ⟨c.name, g.now + c.delay, c.plan⟩

theorem not_begins : ¬g.Begins none i x := by
  rintro ⟨_, c, hc, _⟩
  cases hc

theorem begins_some {c : Call β} :
    g.Begins (some c) i x ↔ i = g.agenda.nextId ∧ x = ⟨c.name, g.now + c.delay, c.plan⟩ := by
  refine and_congr_right fun _ => ⟨?_, fun hx => ⟨c, rfl, hx⟩⟩
  rintro ⟨d, hd, rfl⟩
  exact Option.some.inj hd ▸ rfl

theorem alarm?_acting {j : Nat} (hg : g.Armed) (hs : g.acting? (.run j) = some s) :
    (g.next (.run j)).alarm? i = some x ↔ (g.alarm? i = some x ∧ x.name ≠ s.job.name) ∨
      g.Begins (s.job.plan.call? s.job.name) i x := by
  obtain ⟨_, _, hf, _, he⟩ := next_acting hg hs
  have hclear := alarm?_others (i := i) (x := x) (find?_clear hg hf)
  rw [he, ← hclear]
  cases s.job.plan with
  | last label => exact (or_iff_left not_begins).symm
  | andThen label delay next =>
    let h : Group β := { g.clear s with fired := ⟨g.now, label, false⟩ :: g.fired }
    have hh : h.Armed := by
      have hc := hg.clear hf
      exact ⟨hc.fresh, hc.owned, hc.sleeps⟩
    rw [Plan.call?, begins_some]
    refine (alarm?_schedule hh s.job.name delay next).trans (or_congr_left ?_)
    exact and_iff_left_of_imp fun hx => (hclear.mp hx).2

/-- A task stays asleep until its timer is touched or it acts; a call puts a new one to sleep. -/
theorem alarm?_next (hg : g.Armed) (e : Event β) :
    (g.next e).alarm? i = some x ↔
      (g.alarm? i = some x ∧ g.Spares e i x) ∨ g.Begins (g.call? e) i x := by
  cases e with
  | schedule name delay plan =>
    rw [call?, begins_some]
    refine (alarm?_schedule hg name delay plan).trans (or_congr_left (and_congr_right fun _ => ?_))
    exact spares_of_touched (fun _ => nofun) rfl
  | cancel name =>
    refine (alarm?_others (find?_cancel hg name)).trans ((and_congr_right fun _ => ?_).trans
      (or_iff_left not_begins).symm)
    exact spares_of_touched (fun _ => nofun) rfl
  | drop name =>
    refine (alarm?_others (find?_cancel hg name)).trans ((and_congr_right fun _ => ?_).trans
      (or_iff_left not_begins).symm)
    exact spares_of_touched (fun _ => nofun) rfl
  | pass time =>
    refine Iff.trans ?_ (or_iff_left not_begins).symm
    exact (and_iff_left ⟨nofun, nofun⟩).symm
  | run j =>
    cases hs : g.acting? (.run j) with
    | none =>
      rw [call?_idle hs, or_iff_left not_begins, next_idle hs]
      exact (and_iff_left_of_imp (spares_of_idle hs)).symm
    | some s =>
      rw [call?_acting hs, alarm?_acting hg hs]
      exact or_congr_left (and_congr_right (spares_of_acting hg hs))

theorem acting?_iff : (∃ s, g.acting? e = some s ∧ ⟨s.job.name, s.deadline, s.job.plan⟩ = x) ↔
    ∃ i, e = .run i ∧ g.alarm? i = some x ∧ x.deadline ≤ g.now := by
  constructor
  · rintro ⟨s, hs, rfl⟩
    cases e with
    | run i =>
      obtain ⟨hf, hd⟩ := Option.filter_eq_some_iff.mp hs
      exact ⟨i, rfl, alarm?_eq_some.mpr ⟨s, hf, rfl⟩, of_decide_eq_true hd⟩
    | _ => cases hs
  · rintro ⟨i, rfl, hx, hd⟩
    obtain ⟨s, hf, rfl⟩ := alarm?_eq_some.mp hx
    exact ⟨s, Option.filter_eq_some_iff.mpr ⟨hf, decide_eq_true hd⟩, rfl⟩

theorem nextId_next (hg : g.Armed) (e : Event β) :
    (g.next e).agenda.nextId = g.agenda.nextId + (g.call? e).toList.length := by
  cases e with
  | schedule name delay plan => exact nextId_schedule g name delay plan
  | cancel name => exact nextId_cancel g name
  | drop name => exact nextId_cancel g name
  | pass t => rfl
  | run i =>
    cases hs : g.acting? (.run i) with
    | none =>
      rw [next_idle hs, call?_idle hs]
      rfl
    | some s =>
      obtain ⟨_, _, _, _, he⟩ := next_acting hg hs
      rw [he, call?_acting hs]
      cases s.job.plan with
      | last label => rfl
      | andThen label delay next => exact nextId_schedule _ s.job.name delay next

theorem Armed.isPending_iff (hg : g.Armed) (name : String) :
    (g.timers.lookup name).any isPending = true ↔ ∃ i x, g.alarm? i = some x ∧ x.name = name := by
  constructor
  · intro hp
    cases ht : g.timers.lookup name with
    | none =>
      rw [ht] at hp
      cases hp
    | some t =>
      rw [ht] at hp
      obtain ⟨i, hi⟩ := Option.isSome_iff_exists.mp hp
      obtain ⟨s, hs, hn⟩ := hg.sleeps ht hi
      exact ⟨i, _, alarm?_eq_some.mpr ⟨s, hs, rfl⟩, hn⟩
  · rintro ⟨i, x, hx, rfl⟩
    obtain ⟨s, hs, rfl⟩ := alarm?_eq_some.mp hx
    obtain ⟨t, ht, hi, _⟩ := hg.owned hs
    change (g.timers.lookup s.job.name).any isPending = true
    rw [ht]
    exact congrArg Option.isSome hi

end Group

end DocSync.Timer
