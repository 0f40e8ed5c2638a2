import DocSync.Proofs.Agendas
import DocSync.Proofs.Waits
import DocSync.Wait.Group

/-!
What a step does to a wait and to the tasks of its callers. A call rejects what is outstanding; a
task that answers takes away its own wait and no other.
-/

namespace DocSync.Wait

section Looks

variable {w v : Wait} {g o : Nat} {elapsed : Bool} {reason : Option WaitError}

theorem poll?_cases (hp : w.poll? g elapsed = some (reason, v)) :
    (∃ e, w.rejections.lookup g = some e ∧ reason = some e ∧
        v = { w with rejections := Keyed.remove g w.rejections }) ∨
      (w.rejections.lookup g = none ∧ reason = none ∧ v = w.elapse g) := by
  simp only [poll?] at hp
  cases hl : w.rejections.lookup g with
  | some e =>
    rw [hl] at hp
    cases hp
    exact Or.inl ⟨e, rfl, rfl, rfl⟩
  | none =>
    rw [hl] at hp
    cases elapsed with
    | false => cases hp
    | true =>
      cases hp
      exact Or.inr ⟨rfl, rfl, rfl⟩

theorem Tidy.poll? (hw : w.Tidy) (hp : w.poll? g elapsed = some (reason, v)) : v.Tidy := by
  rcases poll?_cases hp with ⟨_, _, _, rfl⟩ | ⟨_, _, rfl⟩
  · exact hw.collect g
  · exact hw.elapse g

theorem poll?_generation (hp : w.poll? g elapsed = some (reason, v)) :
    v.generation = w.generation := by
  rcases poll?_cases hp with ⟨_, _, _, rfl⟩ | ⟨_, _, rfl⟩
  · rfl
  · simp only [elapse]
    split <;> rfl

theorem poll?_rejections (hp : w.poll? g elapsed = some (reason, v)) (ho : o ≠ g) :
    v.rejections.lookup o = w.rejections.lookup o := by
  rcases poll?_cases hp with ⟨_, _, _, rfl⟩ | ⟨_, _, rfl⟩
  · exact (Keyed.lookup_remove g w.rejections o).trans (if_neg ho)
  · simp only [elapse]
    split <;> rfl

theorem poll?_outstanding (hw : w.Tidy) (hp : w.poll? g elapsed = some (reason, v)) :
    v.outstanding = some o ↔ w.outstanding = some o ∧ o ≠ g := by
  rcases poll?_cases hp with ⟨e, hl, _, rfl⟩ | ⟨_, _, rfl⟩
  · refine (and_iff_left_of_imp fun ho => ?_).symm
    rintro rfl
    rw [hw.unanswered o ho] at hl
    cases hl
  · simp only [elapse]
    split
    · next hg =>
      constructor
      · intro hnone
        cases hnone
      · rintro ⟨ho, hne⟩
        exact absurd ((hw.latest o ho).trans hg) hne
    · next hg =>
      refine (and_iff_left_of_imp fun ho => ?_).symm
      rintro rfl
      exact hg (hw.latest o ho).symm

end Looks

variable {β : Type}

/-- A call that starts a wait. -/
structure Call (β : Type) where
  delay : Nat
  label : β

def Event.call? : Event β → Option (Call β)
  | .wait delay label => some ⟨delay, label⟩
  | _ => none

/-- What a call says to the wait that is outstanding. -/
def Event.verdict? : Event β → Option WaitError
  | .wait _ _ => some .superseded
  | .cancel => some .cancelled
  | _ => none

namespace Group

variable {g : Group β} {e : Event β} {c : Call β} {i o : Nat} {s : Sleeper (Caller β)}
  {reason : Option WaitError} {w : Wait}

/-- The task that answers in a step, with its answer and what becomes of the wait. -/
def answering? (g : Group β) : Event β → Option (Sleeper (Caller β) × Option WaitError × Wait)
  | .run i => (g.agenda.find? i).bind fun s => (g.poll? s).map fun a => (s, a)
  | _ => none

theorem answering?_eq_some : g.answering? e = some (s, reason, w) ↔
    ∃ i, e = .run i ∧ g.agenda.find? i = some s ∧ g.poll? s = some (reason, w) := by
  constructor
  · intro ha
    cases e with
    | run i =>
      obtain ⟨t, hf, hp⟩ := Option.bind_eq_some_iff.mp ha
      obtain ⟨a, hp, he⟩ := Option.map_eq_some_iff.mp hp
      cases he
      exact ⟨i, rfl, hf, hp⟩
    | _ => cases ha
  · rintro ⟨i, rfl, hf, hp⟩
    simp only [answering?, hf, Option.bind_some, hp, Option.map_some]

theorem next_answering (ha : g.answering? e = some (s, reason, w)) :
    g.next e = { g with
      wait := w
      agenda := g.agenda.drop s.id
      done := ⟨g.now, s.job.label, reason⟩ :: g.done } := by
  obtain ⟨i, rfl, hf, hp⟩ := answering?_eq_some.mp ha
  simp only [next, hf, run, hp]

theorem next_unanswered (ha : g.answering? (.run i) = none) : g.next (.run i) = g := by
  cases hf : g.agenda.find? i with
  | none => simp only [next, hf]
  | some s =>
    cases hp : g.poll? s with
    | none => simp only [next, hf, run, hp]
    | some a =>
      have hsome := answering?_eq_some.mpr ⟨i, rfl, hf, hp⟩
      exact absurd (hsome.symm.trans ha) (Option.some_ne_none _)

theorem done_next (g : Group β) (e : Event β) : (g.next e).done =
    ((g.answering? e).map fun a => ⟨g.now, a.1.job.label, a.2.1⟩).toList ++ g.done := by
  cases ha : g.answering? e with
  | some a =>
    obtain ⟨s, reason, w⟩ := a
    rw [next_answering ha]
    rfl
  | none =>
    cases e with
    | run i => rw [next_unanswered ha]; rfl
    | _ => rfl

theorem generation_next (g : Group β) (e : Event β) :
    (g.next e).wait.generation = g.wait.generation + e.call?.toList.length := by
  cases e with
  | wait delay label => exact start_generation g.wait
  | cancel => exact reject_generation g.wait .cancelled
  | abandon i => rfl
  | pass time => rfl
  | run i =>
    cases ha : g.answering? (.run i) with
    | none => rw [next_unanswered ha]; rfl
    | some a =>
      obtain ⟨s, reason, w⟩ := a
      obtain ⟨_, _, _, hp⟩ := answering?_eq_some.mp ha
      rw [next_answering ha]
      exact poll?_generation hp

theorem nextId_next (g : Group β) (e : Event β) :
    (g.next e).agenda.nextId = g.agenda.nextId + e.call?.toList.length := by
  cases e with
  | run i =>
    cases ha : g.answering? (.run i) with
    | none => rw [next_unanswered ha]; rfl
    | some a =>
      obtain ⟨s, reason, w⟩ := a
      rw [next_answering ha]
      rfl
  | _ => rfl

/-- The tasks and their waits are counted alike, so a task is known by its wait. -/
structure Sound (g : Group β) : Prop where
  tidy : g.wait.Tidy
  distinct : g.agenda.Distinct
  counted : g.wait.generation = g.agenda.nextId
  numbered : ∀ s ∈ g.agenda.sleepers, s.job.generation = s.id + 1

theorem sound_empty : (empty : Group β).Sound :=
  ⟨⟨nofun, nofun, nofun⟩, ⟨List.nodup_nil, nofun⟩, rfl, nofun⟩

theorem Sound.next (hg : g.Sound) (e : Event β) : (g.next e).Sound := by
  have hcounted : (g.next e).wait.generation = (g.next e).agenda.nextId := by
    rw [generation_next, nextId_next, hg.counted]
  have hdrop (j : Nat) : ∀ s ∈ (g.agenda.drop j).sleepers, s.job.generation = s.id + 1 :=
    fun s hs => hg.numbered s (List.mem_of_mem_filter hs)
  cases e with
  | wait delay label =>
    refine ⟨hg.tidy.start, hg.distinct.sleep _ _, hcounted, fun s hs => ?_⟩
    rcases List.mem_append.mp hs with hs | hs
    · exact hg.numbered s hs
    · obtain rfl := List.mem_singleton.mp hs
      change g.wait.start.2 = g.agenda.nextId + 1
      rw [start_generation, hg.counted]
  | cancel => exact ⟨hg.tidy.reject .cancelled, hg.distinct, hcounted, hg.numbered⟩
  | abandon i => exact ⟨hg.tidy, hg.distinct.drop i, hcounted, hdrop i⟩
  | pass time => exact ⟨hg.tidy, hg.distinct, hcounted, hg.numbered⟩
  | run i =>
    cases ha : g.answering? (.run i) with
    | none => exact (next_unanswered ha).symm ▸ hg
    | some a =>
      obtain ⟨s, reason, w⟩ := a
      obtain ⟨_, _, _, hp⟩ := answering?_eq_some.mp ha
      rw [next_answering ha] at hcounted ⊢
      exact ⟨hg.tidy.poll? hp, hg.distinct.drop _, hcounted, hdrop s.id⟩

theorem now_next (he : ∀ t, e ≠ .pass t) : (g.next e).now = g.now := by
  cases e with
  | pass t => exact absurd rfl (he t)
  | run i =>
    cases ha : g.answering? (.run i) with
    | none => rw [next_unanswered ha]
    | some a =>
      obtain ⟨s, reason, w⟩ := a
      rw [next_answering ha]
  | _ => rfl

/-- The step answers no task of a wait. -/
def Spares (g : Group β) (e : Event β) (o : Nat) : Prop :=
  ∀ s a, g.answering? e = some (s, a) → s.job.generation ≠ o

/-- A call rejects the wait that is outstanding; other rejections stay until they are collected. -/
theorem lookup_next (hg : g.Sound) (hs : g.Spares e o) :
    (g.next e).wait.rejections.lookup o =
      (g.wait.rejections.lookup o).or
        (if g.wait.outstanding = some o then e.verdict? else none) := by
  have hreject (reason : WaitError) : (g.wait.reject reason).rejections.lookup o =
      (g.wait.rejections.lookup o).or
        (if g.wait.outstanding = some o then some reason else none) := by
    rw [lookup_reject hg.tidy]
    split
    · next ho => rw [hg.tidy.unanswered o ho]; rfl
    · rw [Option.or_none]
  have hquiet : (g.wait.rejections.lookup o).or
      (if g.wait.outstanding = some o then none else none) = g.wait.rejections.lookup o := by
    rw [ite_self, Option.or_none]
  cases e with
  | wait delay label => exact hreject .superseded
  | cancel => exact hreject .cancelled
  | abandon i => exact hquiet.symm
  | pass time => exact hquiet.symm
  | run i =>
    refine Eq.trans ?_ hquiet.symm
    cases ha : g.answering? (.run i) with
    | none => rw [next_unanswered ha]
    | some a =>
      obtain ⟨s, reason, w⟩ := a
      obtain ⟨_, _, _, hp⟩ := answering?_eq_some.mp ha
      rw [next_answering ha]
      exact poll?_rejections hp (hs s _ ha).symm

/-- The step makes no call and answers no task of a wait. -/
def Leaves (g : Group β) (e : Event β) (o : Nat) : Prop := e.verdict? = none ∧ g.Spares e o

/-- A wait is outstanding until a call is made or it is answered. -/
theorem outstanding_next (hg : g.Sound) (e : Event β) (o : Nat) :
    (g.next e).wait.outstanding = some o ↔ (g.wait.outstanding = some o ∧ g.Leaves e o) ∨
      (e.call?.isSome = true ∧ o = g.wait.generation + 1) := by
  cases e with
  | wait delay label =>
    have hnew : (g.next (.wait delay label)).wait.outstanding = some (g.wait.generation + 1) :=
      congrArg some (start_generation g.wait)
    rw [hnew]
    simp [Leaves, Event.verdict?, Event.call?, eq_comm]
  | cancel =>
    have hnone : (g.next (.cancel : Event β)).wait.outstanding = none :=
      reject_outstanding g.wait .cancelled
    rw [hnone]
    simp [Leaves, Event.verdict?, Event.call?]
  | abandon i =>
    change g.wait.outstanding = some o ↔ _
    simp [Leaves, Spares, answering?, Event.verdict?, Event.call?]
  | pass time =>
    change g.wait.outstanding = some o ↔ _
    simp [Leaves, Spares, answering?, Event.verdict?, Event.call?]
  | run i =>
    rw [Leaves, Spares]
    cases ha : g.answering? (.run i) with
    | none =>
      rw [next_unanswered ha]
      simp [Event.verdict?, Event.call?]
    | some a =>
      obtain ⟨s, reason, w⟩ := a
      obtain ⟨_, _, _, hp⟩ := answering?_eq_some.mp ha
      rw [next_answering ha]
      refine (poll?_outstanding hg.tidy hp).trans ?_
      simp [Event.verdict?, Event.call?, eq_comm]

/-- The step neither drops a task nor lets it answer. -/
def Keeps (g : Group β) (e : Event β) (i : Nat) (s : Sleeper (Caller β)) : Prop :=
  e ≠ .abandon i ∧ (e = .run i → g.poll? s = none)

/-- The step puts a task to sleep. -/
def Begins (g : Group β) (e : Event β) (i : Nat) (s : Sleeper (Caller β)) : Prop :=
  i = g.agenda.nextId ∧ ∃ c, e.call? = some c ∧
    s = ⟨i, g.now + c.delay, c.label, g.wait.generation + 1⟩

theorem not_begins (hc : e.call? = none) : ¬g.Begins e i s := by
  rintro ⟨_, c, he, _⟩
  exact Option.some_ne_none c (he.symm.trans hc)

theorem find?_drop_iff (g : Group β) (j i : Nat) :
    (g.agenda.drop j).find? i = some s ↔ g.agenda.find? i = some s ∧ i ≠ j := by
  rw [Agenda.find?_drop]
  by_cases hi : i = j
  · simp [hi]
  · simp [hi]

theorem find?_call (hg : g.Sound) (delay : Nat) (label : β) (i : Nat) :
    (g.next (.wait delay label)).agenda.find? i = some s ↔
      g.agenda.find? i = some s ∨ g.Begins (.wait delay label) i s := by
  have hsleep : (g.next (.wait delay label)).agenda.find? i =
      (g.agenda.find? i).or (if i = g.agenda.nextId then
        some ⟨g.agenda.nextId, g.now + delay, label, g.wait.generation + 1⟩ else none) := by
    rw [← start_generation]
    exact Agenda.find?_sleep _ _ _ _
  rw [hsleep]
  by_cases hi : i = g.agenda.nextId
  · subst hi
    rw [hg.distinct.free, if_pos rfl]
    simp [Begins, Event.call?, eq_comm]
  · simp [Begins, hi]

/-- A turn ends the task that answers, and no other. -/
theorem find?_run (j i : Nat) : (g.next (.run j)).agenda.find? i = some s ↔
    g.agenda.find? i = some s ∧ g.Keeps (.run j) i s := by
  cases ha : g.answering? (.run j) with
  | none =>
    rw [next_unanswered ha]
    refine (and_iff_left_of_imp fun hf => ⟨nofun, fun he => ?_⟩).symm
    obtain rfl := Event.run.inj he
    cases hp : g.poll? s with
    | none => rfl
    | some a =>
      have hsome := answering?_eq_some.mpr ⟨j, rfl, hf, hp⟩
      exact absurd (hsome.symm.trans ha) (Option.some_ne_none _)
  | some a =>
    obtain ⟨t, reason, w⟩ := a
    obtain ⟨_, hj, hf, hp⟩ := answering?_eq_some.mp ha
    obtain rfl := Event.run.inj hj
    rw [next_answering ha]
    refine (g.find?_drop_iff t.id i).trans (and_congr_right fun hs => ?_)
    rw [Agenda.find?_id hf]
    constructor
    · intro hi
      exact ⟨nofun, fun he => absurd (Event.run.inj he).symm hi⟩
    · rintro ⟨_, hkept⟩ rfl
      obtain rfl := Option.some.inj (hf.symm.trans hs)
      exact Option.some_ne_none _ (hp.symm.trans (hkept rfl))

theorem find?_next (hg : g.Sound) (e : Event β) (i : Nat) :
    (g.next e).agenda.find? i = some s ↔
      (g.agenda.find? i = some s ∧ g.Keeps e i s) ∨ g.Begins e i s := by
  cases e with
  | wait delay label =>
    refine (find?_call hg delay label i).trans (or_congr_left ?_)
    exact (and_iff_left ⟨nofun, nofun⟩).symm
  | cancel =>
    rw [or_iff_left (not_begins rfl)]
    exact (and_iff_left ⟨nofun, nofun⟩).symm
  | abandon j =>
    rw [or_iff_left (not_begins rfl)]
    refine (g.find?_drop_iff j i).trans (and_congr_right fun _ => ?_)
    simp [Keeps, eq_comm]
  | pass time =>
    rw [or_iff_left (not_begins rfl)]
    exact (and_iff_left ⟨nofun, nofun⟩).symm
  | run j =>
    rw [or_iff_left (not_begins rfl)]
    exact find?_run j i

end Group

end DocSync.Wait
