import DocSync.Agenda
import DocSync.Keyed
import Mathlib.Logic.Function.Basic

/-! What can be found in keyed lists and agendas after each of their operations. -/

namespace DocSync

namespace Keyed

variable {κ α : Type} [DecidableEq κ]

theorem lookup_cons_ite (k : κ) (a : α) (entries : List (κ × α)) (j : κ) :
    ((k, a) :: entries).lookup j = if j = k then some a else entries.lookup j := by
  by_cases hj : j = k
  · subst j
    simp
  · rw [List.lookup_cons, beq_eq_false_iff_ne.mpr hj, if_neg hj]

theorem lookup_put (k : κ) (a : α) (entries : List (κ × α)) (j : κ) :
    (put k a entries).lookup j = if j = k then some a else entries.lookup j := by
  induction entries with
  | nil => exact lookup_cons_ite k a [] j
  | cons e rest ih =>
    rcases e with ⟨l, b⟩
    by_cases hl : l = k
    · subst l
      simp only [put, beq_self_eq_true, ↓reduceIte, lookup_cons_ite]
      split <;> rfl
    · simp only [put, beq_iff_eq, hl, ↓reduceIte, lookup_cons_ite, ih]
      by_cases hj : j = l
      · subst j
        simp [hl]
      · simp [hj]

theorem lookup_remove (k : κ) (entries : List (κ × α)) (j : κ) :
    (remove k entries).lookup j = if j = k then none else entries.lookup j := by
  induction entries with
  | nil => simp [remove]
  | cons e rest ih =>
    rcases e with ⟨l, b⟩
    simp only [remove] at ih ⊢
    by_cases hl : l = k
    · subst l
      simp only [List.filter_cons, beq_self_eq_true, Bool.not_true, Bool.false_eq_true,
        ↓reduceIte, ih, lookup_cons_ite]
      split <;> rfl
    · simp only [List.filter_cons, beq_eq_false_iff_ne.mpr hl, Bool.not_false, ↓reduceIte,
        lookup_cons_ite, ih]
      by_cases hj : j = l
      · subst j
        simp [hl]
      · simp [hj]

theorem lookup_concat (entries : List (κ × α)) (k : κ) (a : α) (j : κ) :
    (entries ++ [(k, a)]).lookup j = (entries.lookup j).or (if j = k then some a else none) := by
  rw [List.lookup_append, lookup_cons_ite]
  rfl

theorem lookup_of_mem {entries : List (κ × α)} (hn : (entries.map Prod.fst).Nodup) {k : κ} {a : α}
    (hm : (k, a) ∈ entries) : entries.lookup k = some a := by
  induction entries with
  | nil => cases hm
  | cons e rest ih =>
    rcases e with ⟨l, b⟩
    obtain ⟨hl, hn⟩ := List.nodup_cons.mp hn
    rw [lookup_cons_ite]
    rcases List.mem_cons.mp hm with he | hr
    · cases he
      rw [if_pos rfl]
    · have hk : k ≠ l := by
        rintro rfl
        exact hl (List.mem_map.mpr ⟨(k, a), hr, rfl⟩)
      rw [if_neg hk]
      exact ih hn hr

theorem keepLast_of_nodup {entries : List (κ × α)} (hn : (entries.map Prod.fst).Nodup) :
    keepLast entries = entries := by
  induction entries with
  | nil => rfl
  | cons e rest ih =>
    rcases e with ⟨k, a⟩
    obtain ⟨hk, hn⟩ := List.nodup_cons.mp hn
    have hlater : (rest.any fun e => e.1 == k) = false := by
      refine List.any_eq_false.mpr fun e he heq => hk ?_
      exact List.mem_map.mpr ⟨e, he, by simpa using heq⟩
    rw [keepLast, hlater, ih hn]
    rfl

theorem mem_put_self (k : κ) (a : α) (entries : List (κ × α)) : (k, a) ∈ put k a entries := by
  induction entries with
  | nil => exact List.mem_singleton.mpr rfl
  | cons e rest ih =>
    rcases e with ⟨l, b⟩
    by_cases hl : l = k
    · simp [put, hl]
    · simp [put, hl, ih]

theorem mem_put_of_ne {k : κ} {e : κ × α} {entries : List (κ × α)} (he : e ∈ entries)
    (hk : e.1 ≠ k) (a : α) : e ∈ put k a entries := by
  induction entries with
  | nil => cases he
  | cons f rest ih =>
    rcases f with ⟨l, b⟩
    by_cases hl : l = k
    · subst l
      rcases List.mem_cons.mp he with rfl | he
      · exact absurd rfl hk
      · simp [put, he]
    · rcases List.mem_cons.mp he with rfl | he
      · simp [put, hl]
      · simp [put, hl, ih he]

theorem keys_put {k : κ} {a b : α} {entries : List (κ × α)} (hk : entries.lookup k = some b) :
    (put k a entries).map Prod.fst = entries.map Prod.fst := by
  induction entries with
  | nil => cases hk
  | cons e rest ih =>
    rcases e with ⟨l, c⟩
    by_cases hl : l = k
    · subst l
      simp [put]
    · rw [lookup_cons_ite, if_neg (Ne.symm hl)] at hk
      simp [put, hl, ih hk]

theorem keys_remove (k : κ) (entries : List (κ × α)) :
    ((remove k entries).map Prod.fst).Sublist (entries.map Prod.fst) :=
  List.filter_sublist.map Prod.fst

theorem mem_remove_of_ne {k : κ} {e : κ × α} {entries : List (κ × α)} (he : e ∈ entries)
    (hk : e.1 ≠ k) : e ∈ remove k entries :=
  List.mem_filter.mpr ⟨he, by simp [hk]⟩

theorem mem_of_lookup {entries : List (κ × α)} {k : κ} {a : α} (hk : entries.lookup k = some a) :
    (k, a) ∈ entries := by
  induction entries with
  | nil => cases hk
  | cons e rest ih =>
    rcases e with ⟨l, b⟩
    rw [lookup_cons_ite] at hk
    by_cases hl : k = l
    · subst l
      rw [if_pos rfl] at hk
      cases hk
      exact List.mem_cons_self
    · rw [if_neg hl] at hk
      exact List.mem_cons_of_mem _ (ih hk)

theorem lookup_isSome_iff {entries : List (κ × α)} {k : κ} :
    (entries.lookup k).isSome = true ↔ k ∈ entries.map Prod.fst := by
  constructor
  · intro hs
    obtain ⟨a, ha⟩ := Option.isSome_iff_exists.mp hs
    exact List.mem_map_of_mem (mem_of_lookup ha)
  · intro hk
    cases hl : entries.lookup k with
    | some a => rfl
    | none =>
      obtain ⟨e, he, rfl⟩ := List.mem_map.mp hk
      have hne := List.lookup_eq_none_iff.mp hl e he
      exact absurd hne (by simp)

theorem lookup_eq_none {entries : List (κ × α)} {k : κ} (hk : k ∉ entries.map Prod.fst) :
    entries.lookup k = none := by
  cases hl : entries.lookup k with
  | none => rfl
  | some a => exact absurd (List.mem_map_of_mem (mem_of_lookup hl)) hk

theorem mem_put {k : κ} {a : α} {e : κ × α} {entries : List (κ × α)}
    (he : e ∈ put k a entries) : e = (k, a) ∨ e ∈ entries := by
  induction entries with
  | nil => exact Or.inl (List.mem_singleton.mp he)
  | cons f rest ih =>
    rcases f with ⟨l, b⟩
    by_cases hl : l = k
    · simp only [put, hl, beq_self_eq_true, ↓reduceIte, List.mem_cons] at he
      exact he.imp_right (List.mem_cons_of_mem _)
    · simp only [put, beq_iff_eq, hl, ↓reduceIte, List.mem_cons] at he
      rcases he with rfl | he
      · exact Or.inr List.mem_cons_self
      · exact (ih he).imp_right (List.mem_cons_of_mem _)

variable {entries : List (κ × α)} {k : κ} {a b : α}

theorem nodup_put (hn : (entries.map Prod.fst).Nodup) (k : κ) (a : α) :
    ((put k a entries).map Prod.fst).Nodup := by
  induction entries with
  | nil => exact List.nodup_cons.mpr ⟨List.not_mem_nil, List.nodup_nil⟩
  | cons e rest ih =>
    rcases e with ⟨l, c⟩
    obtain ⟨hnot, hrest⟩ := List.nodup_cons.mp hn
    by_cases hl : l = k
    · subst hl
      simp only [put, beq_self_eq_true, ↓reduceIte]
      exact List.nodup_cons.mpr ⟨hnot, hrest⟩
    · simp only [put, beq_iff_eq, hl, ↓reduceIte]
      refine List.nodup_cons.mpr ⟨fun hm => ?_, ih hrest⟩
      obtain ⟨e, he, hfst⟩ := List.mem_map.mp hm
      rcases mem_put he with rfl | he
      · exact hl hfst.symm
      · exact hnot (hfst ▸ List.mem_map_of_mem he)

section Total

omit [DecidableEq κ]

theorem total_cons (f : κ × α → Nat) (e : κ × α) (entries : List (κ × α)) :
    total f (e :: entries) = f e + total f entries := rfl

theorem total_singleton (f : κ × α → Nat) (e : κ × α) : total f [e] = f e := rfl

theorem total_append (f : κ × α → Nat) (entries rest : List (κ × α)) :
    total f (entries ++ rest) = total f entries + total f rest := by
  induction entries with
  | nil => exact (Nat.zero_add _).symm
  | cons e entries ih => rw [List.cons_append, total_cons, total_cons, ih, Nat.add_assoc]

end Total

theorem total_put (f : κ × α → Nat) (hk : entries.lookup k = some b) :
    total f (put k a entries) + f (k, b) = total f entries + f (k, a) := by
  induction entries with
  | nil => cases hk
  | cons e rest ih =>
    rcases e with ⟨l, c⟩
    rw [lookup_cons_ite] at hk
    by_cases hl : k = l
    · subst hl
      rw [if_pos rfl] at hk
      cases hk
      simp only [put, beq_self_eq_true, ↓reduceIte, total_cons]
      omega
    · rw [if_neg hl] at hk
      simp only [put, beq_iff_eq, Ne.symm hl, ↓reduceIte, total_cons]
      have hrest := ih hk
      omega

theorem remove_of_notMem (hk : k ∉ entries.map Prod.fst) : remove k entries = entries := by
  refine List.filter_eq_self.mpr fun e he => ?_
  have hne : e.1 ≠ k := by
    rintro rfl
    exact hk (List.mem_map_of_mem he)
  simp [hne]

theorem total_remove (f : κ × α → Nat) (hn : (entries.map Prod.fst).Nodup)
    (hk : entries.lookup k = some b) :
    total f (remove k entries) + f (k, b) = total f entries := by
  induction entries with
  | nil => cases hk
  | cons e rest ih =>
    rcases e with ⟨l, c⟩
    obtain ⟨hnot, hn⟩ := List.nodup_cons.mp hn
    rw [lookup_cons_ite] at hk
    by_cases hl : k = l
    · subst hl
      rw [if_pos rfl] at hk
      cases hk
      have hrest := remove_of_notMem hnot
      simp only [remove] at hrest
      simp only [remove, List.filter_cons, beq_self_eq_true, Bool.not_true, Bool.false_eq_true,
        ↓reduceIte, hrest, total_cons]
      omega
    · rw [if_neg hl] at hk
      have hrest := ih hn hk
      simp only [remove] at hrest ⊢
      simp only [List.filter_cons, beq_eq_false_iff_ne.mpr (Ne.symm hl), Bool.not_false, ↓reduceIte,
        total_cons]
      omega

omit [DecidableEq κ] in
theorem countP_eq_total (f : κ × α → Bool) (entries : List (κ × α)) :
    entries.countP f = total (fun e => (f e).toNat) entries := by
  induction entries with
  | nil => rfl
  | cons e rest ih =>
    rw [List.countP_cons, total_cons, ih]
    cases f e <;> simp [Nat.add_comm]

theorem countP_put (f : κ × α → Bool) (hk : entries.lookup k = some b) :
    (put k a entries).countP f + (f (k, b)).toNat = entries.countP f + (f (k, a)).toNat := by
  rw [countP_eq_total, countP_eq_total]
  exact total_put (fun e => (f e).toNat) hk

theorem countP_remove (f : κ × α → Bool) (hn : (entries.map Prod.fst).Nodup)
    (hk : entries.lookup k = some b) :
    (remove k entries).countP f + (f (k, b)).toNat = entries.countP f := by
  rw [countP_eq_total, countP_eq_total]
  exact total_remove (fun e => (f e).toNat) hn hk

end Keyed

namespace Agenda

variable {ι : Type}

theorem find?_drop (a : Agenda ι) (i j : Nat) :
    (a.drop i).find? j = if j = i then none else a.find? j := by
  simp only [drop, find?]
  rw [List.find?_filter]
  by_cases hj : j = i
  · subst j
    simp
  · rw [if_neg hj]
    congr 1
    funext s
    by_cases hs : s.id = j <;> simp [hs, hj]

theorem find?_sleep (a : Agenda ι) (deadline : Nat) (job : ι) (j : Nat) :
    (a.sleep deadline job).1.find? j =
      (a.find? j).or (if j = a.nextId then some ⟨a.nextId, deadline, job⟩ else none) := by
  simp only [sleep, find?, List.find?_append]
  by_cases hj : j = a.nextId
  · subst j
    simp
  · simp [hj, Ne.symm hj]

theorem find?_id {a : Agenda ι} {j : Nat} {s : Sleeper ι} (h : a.find? j = some s) : s.id = j := by
  simpa [find?] using List.find?_some h

end Agenda

end DocSync
