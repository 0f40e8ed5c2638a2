import DocSync.Proofs.Lookup
import DocSync.Timer
import Mathlib.Data.List.Nodup

/-!
Which task comes first, that tasks have numbers of their own, and what a timer makes of the tasks
that sleep.
-/

namespace DocSync

namespace Agenda

variable {ι : Type} {a : Agenda ι} {sleeper : Sleeper ι} {i time : Nat}

/-- The first task has a deadline no later than any. -/
theorem first?_le {sleeper : Sleeper ι} {sleepers : List (Sleeper ι)} (hs : sleeper ∈ sleepers) :
    ∃ first, first? sleepers = some first ∧ first.deadline ≤ sleeper.deadline := by
  induction sleepers with
  | nil => cases hs
  | cons s rest ih =>
    cases hr : first? rest with
    | none =>
      refine ⟨s, by simp only [first?, hr], ?_⟩
      rcases List.mem_cons.mp hs with rfl | hm
      · exact Nat.le_refl _
      · obtain ⟨_, hf, _⟩ := ih hm
        exact absurd (hr.symm.trans hf).symm (Option.some_ne_none _)
    | some t =>
      refine ⟨earlier s t, by simp only [first?, hr], ?_⟩
      have hboth : (earlier s t).deadline ≤ s.deadline ∧ (earlier s t).deadline ≤ t.deadline := by
        simp only [earlier]
        split <;> omega
      rcases List.mem_cons.mp hs with rfl | hm
      · exact hboth.1
      · obtain ⟨first, hf, hle⟩ := ih hm
        obtain rfl := Option.some.inj (hr.symm.trans hf)
        exact Nat.le_trans hboth.2 hle

theorem mem_of_find? (hf : a.find? i = some sleeper) : sleeper ∈ a.sleepers :=
  List.mem_of_find?_eq_some hf

/-- The tasks that sleep have different numbers, which were given before. -/
structure Distinct (a : Agenda ι) : Prop where
  nodup : (a.sleepers.map Sleeper.id).Nodup
  fresh : ∀ sleeper ∈ a.sleepers, sleeper.id < a.nextId

theorem Distinct.drop (ha : a.Distinct) (i : Nat) : (a.drop i).Distinct where
  nodup := ha.nodup.sublist (List.filter_sublist.map Sleeper.id)
  fresh sleeper hs := ha.fresh sleeper (List.mem_of_mem_filter hs)

theorem Distinct.sleep (ha : a.Distinct) (deadline : Nat) (job : ι) :
    (a.sleep deadline job).1.Distinct where
  nodup := by
    simp only [Agenda.sleep, List.map_append, List.map_singleton]
    refine List.nodup_append.mpr ⟨ha.nodup, List.nodup_singleton _, fun j hj k hk => ?_⟩
    obtain ⟨sleeper, hs, rfl⟩ := List.mem_map.mp hj
    obtain rfl := List.mem_singleton.mp hk
    exact Nat.ne_of_lt (ha.fresh sleeper hs)
  fresh sleeper hs := by
    rcases List.mem_append.mp hs with hs | hs
    · exact Nat.lt_succ_of_lt (ha.fresh sleeper hs)
    · obtain rfl := List.mem_singleton.mp hs
      exact Nat.lt_succ_self _

theorem Distinct.find? (ha : a.Distinct) (hs : sleeper ∈ a.sleepers) :
    a.find? sleeper.id = some sleeper := by
  cases hf : a.find? sleeper.id with
  | none => exact absurd (beq_self_eq_true sleeper.id) (List.find?_eq_none.mp hf sleeper hs)
  | some other =>
    have hid := find?_id hf
    exact congrArg some (List.inj_on_of_nodup_map ha.nodup (mem_of_find? hf) hs hid)

theorem Distinct.free (ha : a.Distinct) : a.find? a.nextId = none := by
  cases hf : a.find? a.nextId with
  | none => rfl
  | some s =>
    have hlt := ha.fresh s (mem_of_find? hf)
    rw [find?_id hf] at hlt
    exact absurd hlt (Nat.lt_irrefl _)

theorem mem_of_first? {sleepers : List (Sleeper ι)} (hs : first? sleepers = some sleeper) :
    sleeper ∈ sleepers := by
  induction sleepers generalizing sleeper with
  | nil => cases hs
  | cons s rest ih =>
    simp only [first?] at hs
    cases hr : first? rest with
    | none =>
      rw [hr] at hs
      cases hs
      exact List.mem_cons_self
    | some t =>
      rw [hr] at hs
      obtain rfl := Option.some.inj hs
      simp only [earlier]
      split
      · exact List.mem_cons_of_mem s (ih hr)
      · exact List.mem_cons_self

theorem mem_of_due? (hs : a.due? time = some sleeper) :
    sleeper ∈ a.sleepers ∧ sleeper.deadline ≤ time := by
  obtain ⟨hfirst, hle⟩ := Option.filter_eq_some_iff.mp hs
  exact ⟨mem_of_first? hfirst, of_decide_eq_true hle⟩

theorem due?_le {t : Sleeper ι} (hs : a.due? time = some sleeper) (ht : t ∈ a.sleepers) :
    sleeper.deadline ≤ t.deadline := by
  obtain ⟨first, hfirst, hle⟩ := first?_le ht
  obtain ⟨hs, _⟩ := Option.filter_eq_some_iff.mp hs
  obtain rfl := Option.some.inj (hs.symm.trans hfirst)
  exact hle

theorem due?_none (hn : a.due? time = none) (hs : sleeper ∈ a.sleepers) :
    time < sleeper.deadline := by
  obtain ⟨first, hfirst, hle⟩ := first?_le hs
  refine Nat.lt_of_not_le fun hd => ?_
  rw [due?, hfirst, Option.filter_some, if_pos] at hn
  · cases hn
  · exact decide_eq_true (Nat.le_trans hle hd)

theorem length_drop_lt (hs : sleeper ∈ a.sleepers) :
    (a.drop sleeper.id).sleepers.length < a.sleepers.length := by
  refine List.length_filter_lt_length_iff_exists.mpr ⟨sleeper, hs, ?_⟩
  simp

end Agenda

namespace Timer

variable {ι : Type}

theorem find?_abort (t : Timer) (a : Agenda ι) (j : Nat) :
    (t.abort a).find? j = if t.pending = some j then none else a.find? j := by
  simp only [abort]
  cases t.pending with
  | none => simp
  | some i => simp [Agenda.find?_drop, eq_comm]

theorem nextId_abort (t : Timer) (a : Agenda ι) : (t.abort a).nextId = a.nextId := by
  simp only [abort]
  split <;> rfl

theorem cancel_agenda (t : Timer) (a : Agenda ι) : (t.cancel a).2 = t.abort a := by
  simp only [cancel, abort]
  cases t.pending <;> rfl

theorem cancel_pending (t : Timer) (a : Agenda ι) : (t.cancel a).1.pending = none := by
  simp only [cancel]
  split <;> simp_all

theorem find?_schedule (t : Timer) (a : Agenda ι) (deadline : Nat) (job : Nat → ι) (j : Nat) :
    (t.schedule a deadline job).2.find? j =
      (if t.pending = some j then none else a.find? j).or
        (if j = a.nextId then some ⟨a.nextId, deadline, job (t.generation + 1)⟩ else none) := by
  have hs := Agenda.find?_sleep (t.abort a) deadline (job (t.generation + 1)) j
  rwa [find?_abort, nextId_abort] at hs

theorem distinct_abort {a : Agenda ι} (ha : a.Distinct) (t : Timer) : (t.abort a).Distinct := by
  simp only [abort]
  split
  · exact ha
  · exact ha.drop _

end Timer

end DocSync
