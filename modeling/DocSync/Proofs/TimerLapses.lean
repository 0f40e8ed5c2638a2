import DocSync.Proofs.TimerAlarms

/-!
Time that lapses with every task run at its deadline. Running the first task that is due, over and
over, is a course of turns and of clock moves that skip no deadline; each turn leaves fewer actions
to come, so in the end nothing is due.
-/

namespace DocSync.Timer.Group

variable {β : Type} {g h k : Group β} {i n time : Nat} {s : Sleeper (Job β)}

/-- Only turns that are due, and clock moves that skip no deadline, lead from a group to another. -/
inductive Lapses (g : Group β) : Group β → Prop where
  | refl : g.Lapses g
  | turn {h : Group β} {i : Nat} {s : Sleeper (Job β)} (hl : g.Lapses h)
      (hs : h.acting? (.run i) = some s) : g.Lapses (h.next (.run i))
  | pass {h : Group β} {t : Nat} (hl : g.Lapses h)
      (ht : ∀ s ∈ h.agenda.sleepers, h.now + t ≤ s.deadline) : g.Lapses (h.next (.pass t))

theorem Lapses.trans (hg : g.Lapses h) (hh : h.Lapses k) : g.Lapses k := by
  induction hh with
  | refl => exact hg
  | turn _ hs ih => exact ih.turn hs
  | pass _ ht ih => exact ih.pass ht

theorem Lapses.armed (hl : g.Lapses h) (hg : g.Armed) : h.Armed := by
  induction hl with
  | refl => exact hg
  | turn _ _ ih => exact ih.next _
  | pass _ _ ih => exact ih.next _

theorem Lapses.now_le (hl : g.Lapses h) (hg : g.Armed) : g.now ≤ h.now := by
  induction hl with
  | refl => exact Nat.le_refl _
  | turn hl _ ih =>
    rw [now_turn (hl.armed hg)]
    exact ih
  | pass _ _ ih => exact Nat.le_trans ih (Nat.le_add_right _ _)

theorem distinct_act (hd : g.agenda.Distinct) (name : String) (pending : Bool) (plan : Plan β) :
    (g.act name pending plan).agenda.Distinct := by
  cases plan with
  | last label => exact hd
  | andThen label delay next => exact (distinct_abort hd _).sleep _ _

theorem distinct_run (hd : g.agenda.Distinct) (s : Sleeper (Job β)) :
    (g.run s).agenda.Distinct := by
  simp only [run]
  split
  · exact hd.drop s.id
  · exact distinct_act (hd.drop s.id) _ _ _

theorem distinct_next (hd : g.agenda.Distinct) (e : Event β) : (g.next e).agenda.Distinct := by
  have hcancel (name : String) : (g.cancel name).agenda.Distinct := by
    simp only [cancel]
    split
    · exact hd
    · exact cancel_agenda _ g.agenda ▸ distinct_abort hd _
  cases e with
  | schedule name delay plan => exact (distinct_abort hd _).sleep _ _
  | cancel name => exact hcancel name
  | drop name => exact hcancel name
  | pass t => exact hd
  | run i =>
    simp only [next]
    split
    · exact hd
    · split
      · exact distinct_run hd _
      · exact hd

/-- How many actions the sleeping tasks have still to come. -/
def actions (sleepers : List (Sleeper (Job β))) : Nat :=
  sleepers.foldr (fun s n => s.job.plan.length + n) 0

theorem actions_filter_le (p : Sleeper (Job β) → Bool) (sleepers : List (Sleeper (Job β))) :
    actions (sleepers.filter p) ≤ actions sleepers := by
  induction sleepers with
  | nil => exact Nat.le_refl 0
  | cons s rest ih =>
    rw [List.filter_cons]
    split
    · exact Nat.add_le_add_left ih _
    · exact Nat.le_trans ih (Nat.le_add_left _ _)

theorem actions_append (sleepers : List (Sleeper (Job β))) (s : Sleeper (Job β)) :
    actions (sleepers ++ [s]) = actions sleepers + s.job.plan.length := by
  induction sleepers with
  | nil => exact Nat.add_comm _ 0
  | cons t rest ih =>
    change t.job.plan.length + actions (rest ++ [s]) = t.job.plan.length + actions rest + _
    omega

theorem actions_drop {sleepers : List (Sleeper (Job β))} (hs : s ∈ sleepers) :
    actions (sleepers.filter fun t => t.id != s.id) + s.job.plan.length ≤ actions sleepers := by
  induction sleepers with
  | nil => cases hs
  | cons t rest ih =>
    have hle := actions_filter_le (fun t => t.id != s.id) rest
    have hcons : actions (t :: rest) = t.job.plan.length + actions rest := rfl
    rw [List.filter_cons]
    rcases List.mem_cons.mp hs with rfl | hs
    · rw [bne_self_eq_false, if_neg Bool.false_ne_true]
      omega
    · have hrest := ih hs
      split
      · change t.job.plan.length + actions _ + _ ≤ _
        omega
      · omega

theorem load_schedule_le (g : Group β) (name : String) (delay : Nat) (plan : Plan β) :
    (g.schedule name delay plan).load ≤ g.load + plan.length := by
  have habort (t : Timer) : actions (t.abort g.agenda).sleepers ≤ actions g.agenda.sleepers := by
    simp only [abort]
    split
    · exact Nat.le_refl _
    · exact actions_filter_le _ _
  refine Nat.le_trans (Nat.le_of_eq (actions_append _ _)) ?_
  exact Nat.add_le_add_right (habort _) _

theorem plan_length_pos (p : Plan β) : 0 < p.length := by
  cases p with
  | last => exact Nat.one_pos
  | andThen => exact Nat.succ_pos _

theorem load_run (hs : s ∈ g.agenda.sleepers) : (g.run s).load < g.load := by
  have hdrop : actions (g.agenda.drop s.id).sleepers + s.job.plan.length ≤ g.load :=
    actions_drop hs
  have hpos := plan_length_pos s.job.plan
  simp only [run]
  split
  · change actions (g.agenda.drop s.id).sleepers < _
    omega
  · simp only [act]
    split
    · next hp =>
      change actions (g.agenda.drop s.id).sleepers < _
      omega
    · next label delay next hp =>
      have hlength : s.job.plan.length = next.length + 1 := congrArg Plan.length hp
      refine Nat.lt_of_le_of_lt (load_schedule_le _ s.job.name delay next) ?_
      change actions (g.agenda.drop s.id).sleepers + _ < _
      omega

/-- The task that is due first gets its turn, at its deadline unless that has passed. -/
theorem lapses_due (hg : g.Armed) (hd : g.agenda.Distinct) (hs : g.agenda.due? time = some s) :
    g.Lapses (({ g with now := max g.now s.deadline }).run s) ∧
      (({ g with now := max g.now s.deadline }).run s).now = max g.now s.deadline := by
  have hf := hd.find? (Agenda.mem_of_due? hs).1
  have hmoved : g.Lapses { g with now := max g.now s.deadline } := by
    by_cases hlate : s.deadline ≤ g.now
    · rw [Nat.max_eq_left hlate]
      exact .refl
    · have hsum : g.now + (s.deadline - g.now) = s.deadline := by omega
      have hpass := Lapses.pass (t := s.deadline - g.now) (Lapses.refl (g := g)) fun t ht => by
        rw [hsum]
        exact Agenda.due?_le hs ht
      rw [Nat.max_eq_right (by omega)]
      simp only [next, hsum] at hpass
      exact hpass
  have harmed := hmoved.armed hg
  generalize hh : ({ g with now := max g.now s.deadline } : Group β) = h at hmoved harmed ⊢
  have hfind : h.agenda.find? s.id = some s := hh ▸ hf
  have hnow : h.now = max g.now s.deadline := hh ▸ rfl
  have hdue : s.deadline ≤ h.now := hnow ▸ Nat.le_max_right _ _
  have hturn : h.next (.run s.id) = h.run s := by
    simp only [next, hfind, hdue, ↓reduceIte]
  have hacts : h.acting? (.run s.id) = some s :=
    Option.filter_eq_some_iff.mpr ⟨hfind, decide_eq_true hdue⟩
  rw [← hturn]
  refine ⟨hmoved.turn hacts, ?_⟩
  rw [now_turn harmed]
  exact hnow

/-- Turns at the deadlines up to a time, as many as there are actions to come, leave nothing due. -/
theorem runDue_lapses (hg : g.Armed) (hd : g.agenda.Distinct) (hn : g.load ≤ n)
    (ht : g.now ≤ time) :
    g.Lapses (g.runDue time n) ∧ (g.runDue time n).agenda.Distinct ∧
      (g.runDue time n).now ≤ time ∧
      ∀ s ∈ (g.runDue time n).agenda.sleepers, time < s.deadline := by
  induction n generalizing g with
  | zero =>
    refine ⟨.refl, hd, ht, fun s hs => ?_⟩
    exact absurd (Nat.lt_of_lt_of_le (load_run hs) hn) (Nat.not_lt_zero _)
  | succ n ih =>
    simp only [runDue]
    cases hs : g.agenda.due? time with
    | none => exact ⟨.refl, hd, ht, fun _ => Agenda.due?_none hs⟩
    | some s =>
      obtain ⟨hmem, hle⟩ := Agenda.mem_of_due? hs
      obtain ⟨hl, hnow⟩ := lapses_due hg hd hs
      have hload : (({ g with now := max g.now s.deadline }).run s).load < g.load :=
        load_run (g := { g with now := max g.now s.deadline }) hmem
      have hdistinct := distinct_run (g := { g with now := max g.now s.deadline }) hd s
      obtain ⟨hrest, hlater⟩ := ih (hl.armed hg) hdistinct (by omega)
        (Nat.le_trans (Nat.le_of_eq hnow) (Nat.max_le.mpr ⟨ht, hle⟩))
      exact ⟨hl.trans hrest, hlater⟩

theorem settle_lapses (hg : g.Armed) (hd : g.agenda.Distinct) :
    g.Lapses g.settle ∧ g.settle.agenda.Distinct ∧ g.settle.now = g.now := by
  obtain ⟨hl, hd, hle, _⟩ := runDue_lapses hg hd (Nat.le_refl g.load) (Nat.le_refl g.now)
  exact ⟨hl, hd, Nat.le_antisymm hle (hl.now_le hg)⟩

theorem advance_lapses (hg : g.Armed) (hd : g.agenda.Distinct) (time : Nat) :
    g.Lapses (g.advance time) ∧ (g.advance time).now = g.now + time ∧
      ∀ s ∈ (g.advance time).agenda.sleepers, g.now + time < s.deadline := by
  obtain ⟨hsettle, hd, hnow⟩ := settle_lapses hg hd
  have hbefore : g.settle.now ≤ g.now + time := by
    rw [hnow]
    exact Nat.le_add_right _ _
  obtain ⟨hflow, _, hle, hlate⟩ :=
    runDue_lapses (hsettle.armed hg) hd (Nat.le_refl g.settle.load) hbefore
  have hend : g.advance time = { g.settle.runDue (g.now + time) g.settle.load with
      now := g.now + time } := by
    simp only [advance, hnow]
  generalize g.settle.runDue (g.now + time) g.settle.load = h at hflow hle hlate hend
  have hsum : h.now + (g.now + time - h.now) = g.now + time := Nat.add_sub_cancel' hle
  have hpass := Lapses.pass (t := g.now + time - h.now) (hsettle.trans hflow) fun s hs => by
    rw [hsum]
    exact Nat.le_of_lt (hlate s hs)
  simp only [next, hsum] at hpass
  rw [hend]
  exact ⟨hpass, rfl, hlate⟩

end DocSync.Timer.Group
