import DocSync.Proofs.WaitTurns

/-!
Time that lapses with every task run as soon as it can answer. To settle is to let each task look at
its wait in turn, after which none can answer; letting time flow stops at each deadline and settles
there, and every stop ends a task.
-/

namespace DocSync.Wait

theorem poll?_eq_none {w : Wait} {g : Nat} {elapsed : Bool} :
    w.poll? g elapsed = none ↔ w.rejections.lookup g = none ∧ elapsed = false := by
  simp only [poll?]
  cases w.rejections.lookup g with
  | some e => simp
  | none => cases elapsed <;> simp

namespace Group

variable {β : Type} {g h k : Group β} {n time : Nat} {s t : Sleeper (Caller β)}

/-- Only turns, and clock moves while no task can answer and that skip no deadline, lead from a
group to another. -/
inductive Lapses (g : Group β) : Group β → Prop where
  | refl : g.Lapses g
  | turn {h : Group β} (hl : g.Lapses h) (i : Nat) : g.Lapses (h.next (.run i))
  | pass {h : Group β} {t : Nat} (hl : g.Lapses h)
      (ht : ∀ s ∈ h.agenda.sleepers, h.poll? s = none ∧ h.now + t ≤ s.deadline) :
      g.Lapses (h.next (.pass t))

theorem Lapses.trans (hg : g.Lapses h) (hh : h.Lapses k) : g.Lapses k := by
  induction hh with
  | refl => exact hg
  | turn _ i ih => exact ih.turn i
  | pass _ ht ih => exact ih.pass ht

theorem Lapses.sound (hl : g.Lapses h) (hg : g.Sound) : h.Sound := by
  induction hl with
  | refl => exact hg
  | turn _ i ih => exact ih.next _
  | pass _ _ ih => exact ih.next _

/-- No task can answer. -/
def Settled (g : Group β) : Prop := ∀ s ∈ g.agenda.sleepers, g.poll? s = none

theorem Settled.lt (hg : g.Settled) (hs : s ∈ g.agenda.sleepers) : g.now < s.deadline := by
  have hp := (poll?_eq_none.mp (hg s hs)).2
  exact Nat.lt_of_not_le (of_decide_eq_false hp)

/-- A task that looks at its wait is gone or has no answer, and the others see no difference. -/
structure Looked (g h : Group β) (looks : List (Sleeper (Caller β))) : Prop where
  lapses : g.Lapses h
  now : h.now = g.now
  fewer : h.agenda.sleepers.Sublist g.agenda.sleepers
  sees : ∀ t ∈ h.agenda.sleepers, h.poll? t = none ↔ g.poll? t = none
  unanswered : ∀ t ∈ h.agenda.sleepers, t ∈ looks → g.poll? t = none
  others : ∀ t ∈ g.agenda.sleepers, t ∉ looks → t ∈ h.agenda.sleepers

theorem looked_run (hg : g.Sound) (hs : s ∈ g.agenda.sleepers) : g.Looked (g.run s) [s] := by
  have hf := hg.distinct.find? hs
  have hnext : g.next (.run s.id) = g.run s := by simp only [next, hf]
  have hlapses : g.Lapses (g.run s) := hnext ▸ Lapses.refl.turn s.id
  cases hp : g.poll? s with
  | none =>
    have he : g.run s = g := by simp only [run, hp]
    rw [he]
    refine ⟨.refl, rfl, List.Sublist.refl _, fun _ _ => Iff.rfl, fun t _ ht => ?_, fun _ ht _ => ht⟩
    exact List.mem_singleton.mp ht ▸ hp
  | some a =>
    obtain ⟨reason, w⟩ := a
    have he : g.run s = { g with
        wait := w
        agenda := g.agenda.drop s.id
        done := ⟨g.now, s.job.label, reason⟩ :: g.done } := by
      simp only [run, hp]
    have hother : ∀ t ∈ (g.agenda.drop s.id).sleepers, t ∈ g.agenda.sleepers ∧ t.id ≠ s.id := by
      intro t ht
      obtain ⟨ht, hne⟩ := List.mem_filter.mp ht
      exact ⟨ht, bne_iff_ne.mp hne⟩
    rw [he] at hlapses ⊢
    refine ⟨hlapses, rfl, List.filter_sublist, fun t ht => ?_, fun t ht hts => ?_,
      fun t ht hne => ?_⟩
    · obtain ⟨ht, hne⟩ := hother t ht
      have hgen : t.job.generation ≠ s.job.generation := by
        rw [hg.numbered t ht, hg.numbered s hs]
        omega
      have hlook := poll?_rejections hp hgen
      simp only [Group.poll?, poll?_eq_none, hlook]
    · exact absurd (congrArg Sleeper.id (List.mem_singleton.mp hts)) (hother t ht).2
    · refine List.mem_filter.mpr ⟨ht, bne_iff_ne.mpr fun hid => hne (List.mem_singleton.mpr ?_)⟩
      exact List.inj_on_of_nodup_map hg.distinct.nodup ht hs hid

/-- Tasks that look at their waits in turn. -/
theorem looked_foldl {looks : List (Sleeper (Caller β))} (hg : g.Sound)
    (hl : ∀ s ∈ looks, s ∈ g.agenda.sleepers) (hn : looks.Nodup) :
    g.Looked (looks.foldl run g) looks := by
  induction looks generalizing g with
  | nil => exact ⟨.refl, rfl, List.Sublist.refl _, fun _ _ => Iff.rfl, nofun, fun _ ht _ => ht⟩
  | cons s rest ih =>
    obtain ⟨hs, hn⟩ := List.nodup_cons.mp hn
    have hfirst := looked_run hg (hl s List.mem_cons_self)
    have hrest : ∀ t ∈ rest, t ∈ (g.run s).agenda.sleepers := by
      intro t ht
      refine hfirst.others t (hl t (List.mem_cons_of_mem s ht)) fun he => hs ?_
      exact List.mem_singleton.mp he ▸ ht
    have hlater := ih (hfirst.lapses.sound hg) hrest hn
    have hback : ∀ t ∈ (rest.foldl run (g.run s)).agenda.sleepers,
        t ∈ (g.run s).agenda.sleepers := hlater.fewer.subset
    refine ⟨hfirst.lapses.trans hlater.lapses, hlater.now.trans hfirst.now,
      hlater.fewer.trans hfirst.fewer, fun t ht => ?_, fun t ht hts => ?_, fun t ht hne => ?_⟩
    · exact (hlater.sees t ht).trans (hfirst.sees t (hback t ht))
    · rcases List.mem_cons.mp hts with rfl | hts
      · exact hfirst.unanswered t (hback t ht) (List.mem_singleton.mpr rfl)
      · exact (hfirst.sees t (hback t ht)).mp (hlater.unanswered t ht hts)
    · obtain ⟨hts, htr⟩ := not_or.mp fun h => hne (List.mem_cons.mpr h)
      exact hlater.others t (hfirst.others t ht fun he => hts (List.mem_singleton.mp he)) htr

theorem settle_looked (hg : g.Sound) : g.Looked g.settle g.agenda.sleepers := by
  refine looked_foldl hg (fun _ hs => hs) ?_
  exact hg.distinct.nodup.of_map _

theorem Looked.settled (hl : g.Looked h g.agenda.sleepers) : h.Settled := by
  intro s hs
  exact (hl.sees s hs).mpr (hl.unanswered s hs (hl.fewer.subset hs))

/-- Stops at the deadlines up to a time, as many as there are tasks, leave nothing due. -/
theorem flow_lapses (hg : g.Sound) (hs : g.Settled) (hn : g.agenda.sleepers.length ≤ n)
    (ht : g.now ≤ time) :
    g.Lapses (g.flow time n) ∧ (g.flow time n).Settled ∧ (g.flow time n).now ≤ time ∧
      ∀ s ∈ (g.flow time n).agenda.sleepers, time < s.deadline := by
  induction n generalizing g with
  | zero =>
    refine ⟨.refl, hs, ht, fun s hm => ?_⟩
    exact absurd (List.length_pos_of_mem hm) (Nat.not_lt_of_le hn)
  | succ n ih =>
    simp only [flow]
    cases hd : g.agenda.due? time with
    | none => exact ⟨.refl, hs, ht, fun _ => Agenda.due?_none hd⟩
    | some s =>
      obtain ⟨hmem, hle⟩ := Agenda.mem_of_due? hd
      have hlt := hs.lt hmem
      let h : Group β := { g with now := max g.now s.deadline }
      have hpass : g.Lapses h := by
        have hsum : g.now + (s.deadline - g.now) = max g.now s.deadline := by omega
        have hp := Lapses.refl.pass (g := g) (t := s.deadline - g.now) fun t hm => by
          have hfirst := Agenda.due?_le hd hm
          exact ⟨hs t hm, by omega⟩
        simp only [next, hsum] at hp
        exact hp
      have hh := hpass.sound hg
      have hl := settle_looked hh
      have hnow : h.settle.now ≤ time := by
        rw [hl.now]
        exact Nat.max_le.mpr ⟨ht, hle⟩
      -- The first task has its deadline reached, so it does not sleep on.
      have hgone : s ∉ h.settle.agenda.sleepers := by
        intro hm
        have hp := (poll?_eq_none.mp (hl.unanswered s hm hmem)).2
        have hdue : s.deadline ≤ h.now := Nat.le_max_right _ _
        exact absurd hdue (of_decide_eq_false hp)
      have hfewer : h.settle.agenda.sleepers.length < g.agenda.sleepers.length := by
        refine Nat.lt_of_le_of_ne hl.fewer.length_le fun he => hgone ?_
        exact (hl.fewer.eq_of_length he).symm ▸ hmem
      obtain ⟨hrest, hlater⟩ := ih (hl.lapses.sound hh) hl.settled (by omega) hnow
      exact ⟨(hpass.trans hl.lapses).trans hrest, hlater⟩

theorem advance_lapses (hg : g.Sound) (time : Nat) :
    g.Lapses (g.advance time) ∧ (g.advance time).now = g.now + time ∧
      ∀ s ∈ (g.advance time).agenda.sleepers, g.now + time < s.deadline := by
  have hl := settle_looked hg
  have hbefore : g.settle.now ≤ g.now + time := by
    rw [hl.now]
    exact Nat.le_add_right _ _
  obtain ⟨hflow, hsettled, hle, hlate⟩ :=
    flow_lapses (hl.lapses.sound hg) hl.settled (Nat.le_refl _) hbefore
  have hend : g.advance time = { g.settle.flow (g.now + time) g.settle.agenda.sleepers.length with
      now := g.now + time } := by
    simp only [advance, hl.now]
  generalize g.settle.flow (g.now + time) _ = h at hflow hsettled hle hlate hend
  have hsum : h.now + (g.now + time - h.now) = g.now + time := Nat.add_sub_cancel' hle
  have hpass := (hl.lapses.trans hflow).pass (t := g.now + time - h.now) fun s hs => by
    rw [hsum]
    exact ⟨hsettled s hs, Nat.le_of_lt (hlate s hs)⟩
  simp only [next, hsum] at hpass
  rw [hend]
  exact ⟨hpass, rfl, hlate⟩

end Group

end DocSync.Wait
