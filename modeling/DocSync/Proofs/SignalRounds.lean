import DocSync.Proofs.Histories
import DocSync.Proofs.RoundNesting
import Mathlib.Data.List.Nodup

/-!
What is attached, and who is called. Handlers that are attached and released while rounds are under
way change the list of the signal at once, but a round calls those that were attached when it
started. The list is told by the history alone: a handler is in it from its attachment until the
next move that names its subscription.
-/

namespace DocSync.Signal

variable {κ α : Type}

/-- The subscription that a move ends, and may begin anew. -/
def Move.name? : Move κ α → Option String
  | .attach name _ => some name
  | .release name => some name
  | _ => none

namespace Delivery

variable {d : Delivery κ α} {roll : List (String × Nat × κ)} {m : Move κ α} {name : String}

/-- The attachments that stand, each with its name and its number, are the handlers of the signal,
and the names in use. -/
structure Tallies (d : Delivery κ α) (roll : List (String × Nat × κ)) : Prop where
  handlers : d.signal.handlers = roll.map Prod.snd
  held : ∀ name, d.held.lookup name = (roll.lookup name).map Prod.fst
  names : (roll.map Prod.fst).Nodup
  ordered : (d.signal.handlers.map Prod.fst).Pairwise (· < ·)
  fresh : ∀ e ∈ d.signal.handlers, e.1 < d.signal.nextId

/-- The attachment that a move makes: its name, its number and its handler. -/
def attached? (d : Delivery κ α) : Move κ α → Option (String × Nat × κ)
  | .attach name handler => some (name, d.signal.nextId, handler)
  | _ => none

theorem Tallies.numbers (hd : d.Tallies roll) : (roll.map fun a => a.2.1).Nodup := by
  have hp := hd.ordered
  rw [hd.handlers, List.map_map] at hp
  exact hp.imp Nat.ne_of_lt

theorem Tallies.detach {a : String × Nat × κ} (hd : d.Tallies roll) (ha : a ∈ roll) :
    (d.signal.detach a.2.1).handlers = (Keyed.remove a.1 roll).map Prod.snd := by
  have hsame : ∀ b ∈ roll, (b.2.1 == a.2.1) = (b.1 == a.1) := by
    intro b hb
    have hiff : b.2.1 = a.2.1 ↔ b.1 = a.1 := by
      constructor
      · intro hid
        rw [List.inj_on_of_nodup_map hd.numbers hb ha hid]
      · intro hname
        rw [List.inj_on_of_nodup_map hd.names hb ha hname]
    exact Bool.eq_iff_iff.mpr (by simpa using hiff)
  change d.signal.handlers.filter (fun h => h.1 != a.2.1) = _
  rw [hd.handlers, Keyed.remove, List.filter_map]
  exact congrArg _ (List.filter_congr fun b hb => congrArg not (hsame b hb))

theorem Tallies.release (hd : d.Tallies roll) (name : String) :
    (d.release name).Tallies (Keyed.remove name roll) := by
  have hlookup := hd.held name
  cases hr : roll.lookup name with
  | none =>
    rw [hr] at hlookup
    have hsame : Keyed.remove name roll = roll := by
      refine Keyed.remove_of_notMem fun hm => ?_
      have hs := Keyed.lookup_isSome_iff.mpr hm
      rw [hr] at hs
      cases hs
    have he : d.release name = d := by
      simp only [Delivery.release, hlookup, Option.map_none]
    rw [he, hsame]
    exact hd
  | some a =>
    rw [hr] at hlookup
    have he : d.release name =
        { d with signal := d.signal.detach a.1, held := Keyed.remove name d.held } := by
      simp only [Delivery.release, hlookup, Option.map_some]
    have hsub : (d.signal.detach a.1).handlers.Sublist d.signal.handlers := List.filter_sublist
    rw [he]
    refine ⟨hd.detach (Keyed.mem_of_lookup hr), ?_, hd.names.sublist (Keyed.keys_remove name roll),
      hd.ordered.sublist (hsub.map Prod.fst), fun e hm => hd.fresh e (hsub.subset hm)⟩
    intro other
    change (Keyed.remove name d.held).lookup other = _
    rw [Keyed.lookup_remove, Keyed.lookup_remove, hd.held other]
    split <;> rfl

theorem attach_eq (hf : d.held.lookup name ≠ some d.signal.nextId) (handler : κ) :
    d.attach name handler = { d.release name with
      signal := ⟨d.signal.nextId + 1,
        (d.release name).signal.handlers ++ [(d.signal.nextId, handler)]⟩
      held := Keyed.put name d.signal.nextId (d.release name).held } := by
  simp only [attach, Signal.attach, release]
  cases hl : d.held.lookup name with
  | none => rfl
  | some id =>
    have hne : d.signal.nextId ≠ id := fun he => hf (he ▸ hl)
    simp [detach, hne]

theorem release_nextId (d : Delivery κ α) (name : String) :
    (d.release name).signal.nextId = d.signal.nextId := by
  simp only [release]
  split <;> rfl

theorem Tallies.attach (hd : d.Tallies roll) (name : String) (handler : κ) :
    (d.attach name handler).Tallies
      (Keyed.remove name roll ++ [(name, d.signal.nextId, handler)]) := by
  have hf : d.held.lookup name ≠ some d.signal.nextId := by
    rw [hd.held]
    intro hl
    obtain ⟨a, ha, hid⟩ := Option.map_eq_some_iff.mp hl
    have hm : a ∈ d.signal.handlers := by
      rw [hd.handlers]
      exact List.mem_map_of_mem (Keyed.mem_of_lookup ha)
    exact absurd hid (Nat.ne_of_lt (hd.fresh a hm))
  have hr := hd.release name
  have hfresh := hr.fresh
  rw [release_nextId] at hfresh
  rw [attach_eq hf]
  refine ⟨?_, ?_, ?_, ?_, ?_⟩
  · simp [hr.handlers]
  · intro other
    rw [Keyed.lookup_put, Keyed.lookup_concat, hr.held, Keyed.lookup_remove]
    by_cases ho : other = name
    · simp [ho]
    · simp [ho]
  · rw [List.map_append]
    refine List.nodup_append'.mpr ⟨hr.names, List.nodup_singleton _, ?_⟩
    intro other hm ho
    obtain rfl : other = name := List.mem_singleton.mp ho
    have hs := Keyed.lookup_isSome_iff.mpr hm
    rw [Keyed.lookup_remove, if_pos rfl] at hs
    cases hs
  · rw [List.map_append, List.pairwise_append]
    refine ⟨hr.ordered, List.pairwise_singleton _ _, fun i hi j hj => ?_⟩
    obtain ⟨e, he, rfl⟩ := List.mem_map.mp hi
    obtain rfl := List.mem_singleton.mp hj
    exact hfresh e he
  · intro e he
    rcases List.mem_append.mp he with he | he
    · exact Nat.lt_succ_of_lt (hfresh e he)
    · obtain rfl := List.mem_singleton.mp he
      exact Nat.lt_succ_self _

theorem Tallies.same {e : Delivery κ α} (hd : d.Tallies roll) (hs : e.signal = d.signal)
    (hh : e.held = d.held) : e.Tallies roll := by
  refine ⟨hs ▸ hd.handlers, hh ▸ hd.held, hd.names, ?_, ?_⟩
  · exact hs ▸ hd.ordered
  · exact hs ▸ hd.fresh

theorem filter_unnamed (roll : List (String × Nat × κ)) :
    roll.filter (fun a => (none : Option String) != some a.1) ++ [] = roll := by
  rw [List.append_nil]
  exact List.filter_eq_self.mpr fun a _ => rfl

/-- A move ends the subscription that it names, and may begin it anew; other moves leave what is
attached. -/
theorem Tallies.perform (hd : d.Tallies roll) (m : Move κ α) :
    (d.perform m).Tallies
      (roll.filter (fun a => m.name? != some a.1) ++ (d.attached? m).toList) := by
  have hname (name : String) :
      roll.filter (fun a => some name != some a.1) = Keyed.remove name roll := by
    refine List.filter_congr fun a _ => ?_
    refine congrArg not (Bool.eq_iff_iff.mpr ?_)
    simp only [beq_iff_eq, Option.some.injEq]
    exact eq_comm
  cases m with
  | attach name handler =>
    have ha := hd.attach name handler
    rw [← hname] at ha
    exact ha
  | release name =>
    have hr := hd.release name
    rw [← hname, ← List.append_nil (List.filter _ _)] at hr
    exact hr
  | fire value =>
    rw [← filter_unnamed roll] at hd
    exact hd.same rfl rfl
  | store revise =>
    rw [← filter_unnamed roll] at hd
    simp only [Delivery.perform]
    split
    · exact hd
    · exact hd.same rfl rfl

end Delivery

namespace Run

variable {r : Run κ α} {k n id : Nat} {name : String}

/-- The subscription that a turn ends, and may begin anew. -/
def named? (r : Run κ α) (k : Nat) : Option String := (r.made? k).bind Move.name?

/-- The attachment that a turn makes: its name, its number and its handler. -/
def attached? (r : Run κ α) (k : Nat) : Option (String × Nat × κ) :=
  (r.made? k).bind (r.state k).attached?

/-- The number of the attachment that a turn undoes. -/
def released? (r : Run κ α) (k : Nat) : Option Nat :=
  (r.named? k).bind fun name => (r.state k).held.lookup name

/-- The attachment of a turn, unless another turn before a time named its subscription again. -/
def standing? (r : Run κ α) (n k : Nat) : Option (String × Nat × κ) :=
  (r.attached? k).filter fun a => ∀ m < n, k < m → r.named? m ≠ some a.1

/-- The attachments that stand before a turn, in the order in which they were made. -/
def roll (r : Run κ α) (n : Nat) : List (String × Nat × κ) :=
  (List.range n).filterMap (r.standing? n)

theorem standing?_succ (hk : k < n) :
    r.standing? (n + 1) k = (r.standing? n k).filter fun a => r.named? n != some a.1 := by
  simp only [standing?, Option.filter_filter]
  refine congrArg (Option.filter · _) (funext fun a => ?_)
  refine Bool.eq_iff_iff.mpr ?_
  simp only [decide_eq_true_eq, Bool.and_eq_true, bne_iff_ne]
  constructor
  · intro h
    exact ⟨fun m hm => h m (Nat.lt_succ_of_lt hm), h n (Nat.lt_succ_self n) hk⟩
  · rintro ⟨h, hn⟩ m hm hkm
    rcases Nat.lt_succ_iff_lt_or_eq.mp hm with hm | rfl
    · exact h m hm hkm
    · exact hn

theorem standing?_self (r : Run κ α) (n : Nat) : r.standing? (n + 1) n = r.attached? n := by
  have hall (a : String × Nat × κ) : ∀ m < n + 1, n < m → r.named? m ≠ some a.1 := by
    intro m hm hn
    omega
  rw [standing?]
  cases r.attached? n with
  | none => rfl
  | some a => exact Option.filter_eq_some_iff.mpr ⟨rfl, decide_eq_true (hall a)⟩

theorem roll_succ (r : Run κ α) (n : Nat) :
    r.roll (n + 1) =
      (r.roll n).filter (fun a => r.named? n != some a.1) ++ (r.attached? n).toList := by
  have hold : ∀ k ∈ List.range n, r.standing? (n + 1) k =
      (r.standing? n k).filter fun a => r.named? n != some a.1 :=
    fun k hk => standing?_succ (List.mem_range.mp hk)
  rw [roll, List.range_succ, List.filterMap_append, List.filterMap_congr hold, roll,
    List.filter_filterMap]
  exact congrArg _ (congrArg Option.toList (r.standing?_self n))

theorem tallies (r : Run κ α) (n : Nat) : (r.state n).Tallies (r.roll n) := by
  induction n with
  | zero =>
    refine ⟨rfl, fun _ => rfl, List.nodup_nil, List.Pairwise.nil, fun e he => ?_⟩
    exact absurd he List.not_mem_nil
  | succ n ih =>
    rw [roll_succ, named?, attached?, state]
    cases hm : r.made? n with
    | none =>
      obtain ⟨stack, journal, he⟩ := Delivery.next_unmade hm
      rw [he]
      rw [← Delivery.filter_unnamed (r.roll n)] at ih
      exact ih.same rfl rfl
    | some m =>
      obtain ⟨stack, -, he⟩ := Delivery.next_made hm
      have hp := (ih.same (e := { r.state n with stack := stack }) rfl rfl).perform m
      rw [he]
      cases m <;> exact hp

/-- The handler that a turn attaches, under its number. -/
def added (r : Run κ α) (k : Nat) : List (Nat × κ) := ((r.attached? k).map Prod.snd).toList

theorem handlers_eq (r : Run κ α) (n : Nat) : r.handlers n = (r.roll n).map Prod.snd :=
  (r.tallies n).handlers

theorem handlers_succ (r : Run κ α) (n : Nat) :
    r.handlers (n + 1) =
      ((r.roll n).filter fun a => r.named? n != some a.1).map Prod.snd ++ r.added n := by
  rw [handlers_eq, roll_succ, List.map_append, added]
  cases r.attached? n <;> rfl

theorem held_iff (r : Run κ α) (n : Nat) {name : String} {id : Nat} :
    (r.state n).held.lookup name = some id ↔ ∃ h, (name, id, h) ∈ r.roll n := by
  rw [(r.tallies n).held, Option.map_eq_some_iff]
  constructor
  · rintro ⟨⟨i, h⟩, ha, rfl⟩
    exact ⟨h, Keyed.mem_of_lookup ha⟩
  · rintro ⟨h, hm⟩
    exact ⟨(id, h), Keyed.lookup_of_mem (r.tallies n).names hm, rfl⟩

theorem mem_roll {a : String × Nat × κ} :
    a ∈ r.roll n ↔ ∃ k < n, r.attached? k = some a ∧
      ∀ m, k < m → m < n → r.named? m ≠ some a.1 := by
  simp only [roll, List.mem_filterMap, List.mem_range, standing?, Option.filter_eq_some_iff,
    decide_eq_true_eq]
  constructor
  · rintro ⟨k, hk, ha, hl⟩
    exact ⟨k, hk, ha, fun m hkm hm => hl m hm hkm⟩
  · rintro ⟨k, hk, ha, hl⟩
    exact ⟨k, hk, ha, fun m hm hkm => hl m hkm hm⟩

theorem handlers_kept (hr : r.released? n = none) :
    r.handlers (n + 1) = r.handlers n ++ r.added n := by
  rw [handlers_succ, handlers_eq]
  refine congrArg (· ++ _) (congrArg _ (List.filter_eq_self.mpr fun a ha => ?_))
  refine bne_iff_ne.mpr fun hn => ?_
  have hheld := (r.held_iff n).mpr ⟨a.2.2, ha⟩
  rw [released?, hn, Option.bind_some, hheld] at hr
  cases hr

/-- A turn that undoes an attachment takes its handler out, and leaves the others in their order. -/
theorem handlers_removed (hr : r.released? n = some id) :
    ∃ name before h after, r.named? n = some name ∧ (name, id, h) ∈ r.roll n ∧
      r.handlers n = before ++ (id, h) :: after ∧
      r.handlers (n + 1) = before ++ after ++ r.added n := by
  obtain ⟨name, hn, hheld⟩ := Option.bind_eq_some_iff.mp hr
  obtain ⟨h, hm⟩ := (r.held_iff n).mp hheld
  obtain ⟨before, after, hsplit⟩ := List.append_of_mem hm
  refine ⟨name, before.map Prod.snd, h, after.map Prod.snd, hn, hm, ?_, ?_⟩
  · rw [handlers_eq, hsplit, List.map_append]
    rfl
  · have hnames := (r.tallies n).names
    have hout : (r.roll n).filter (fun a => r.named? n != some a.1) = before ++ after := by
      rw [hsplit, List.map_append, List.map_cons] at hnames
      obtain ⟨_, hrest, hapart⟩ := List.nodup_append'.mp hnames
      have hbefore : ∀ a ∈ before, (r.named? n != some a.1) = true := by
        intro a ha
        rw [hn]
        refine bne_iff_ne.mpr fun he => hapart (List.mem_map_of_mem ha) ?_
        exact Option.some.inj he ▸ List.mem_cons_self
      have hafter : ∀ a ∈ after, (r.named? n != some a.1) = true := by
        intro a ha
        rw [hn]
        refine bne_iff_ne.mpr fun he => (List.nodup_cons.mp hrest).1 ?_
        exact List.mem_map.mpr ⟨a, ha, (Option.some.inj he).symm⟩
      have hself : (r.named? n != some name) = false := by
        rw [hn]
        exact bne_self_eq_false _
      rw [hsplit, List.filter_append, List.filter_cons, hself, List.filter_eq_self.mpr hbefore,
        List.filter_eq_self.mpr hafter]
      rfl
    rw [handlers_succ, hout, List.map_append]

theorem length_handlers_succ (r : Run κ α) (n : Nat) :
    (r.handlers (n + 1)).length + (r.released? n).toList.length =
      (r.handlers n).length + (r.added n).length := by
  cases hr : r.released? n with
  | none =>
    rw [handlers_kept hr, List.length_append]
    rfl
  | some id =>
    obtain ⟨_, before, h, after, _, _, hn, hs⟩ := handlers_removed hr
    rw [hn, hs]
    simp only [List.length_append, List.length_cons, Option.toList_some, List.length_nil]
    omega

theorem counted (r : Run κ α) :
    History.Counted (fun n => (r.state n).signal.nextId) r.attached? := by
  intro n
  simp only [attached?, state]
  cases hm : r.made? n with
  | none =>
    obtain ⟨stack, journal, he⟩ := Delivery.next_unmade hm
    rw [he]
    rfl
  | some m =>
    obtain ⟨stack, -, he⟩ := Delivery.next_made hm
    rw [he]
    cases m with
    | attach name handler => exact Delivery.release_nextId _ name
    | release name => exact Delivery.release_nextId _ name
    | fire value => rfl
    | store revise =>
      simp only [Delivery.perform]
      split <;> rfl

theorem nextId_le (r : Run κ α) (hk : k ≤ n) :
    (r.state k).signal.nextId ≤ (r.state n).signal.nextId := r.counted.monotone hk

theorem handlers_lt {e : Nat × κ} (he : e ∈ r.handlers k) (hk : k ≤ n) :
    e.1 < (r.state n).signal.nextId :=
  Nat.lt_of_lt_of_le ((r.tallies k).fresh e he) (r.nextId_le hk)

theorem attached?_number {name : String} {h : κ} (ha : r.attached? n = some (name, id, h)) :
    id = (r.state n).signal.nextId := by
  obtain ⟨m, _, hm⟩ := Option.bind_eq_some_iff.mp ha
  cases m with
  | attach => cases hm; rfl
  | _ => cases hm

/-- A number that was undone is never attached again. -/
theorem released_gone (hr : r.released? k = some id) (hk : k < n) :
    ∀ e ∈ r.handlers n, e.1 ≠ id := by
  obtain ⟨_, before, h, after, _, _, hbefore, hafter⟩ := handlers_removed hr
  have hlt : id < (r.state k).signal.nextId :=
    handlers_lt (e := (id, h)) (by simp [hbefore]) (Nat.le_refl k)
  have hadded {j : Nat} (hj : k ≤ j) : ∀ e ∈ r.added j, e.1 ≠ id := by
    intro e he
    obtain ⟨⟨_, i, h'⟩, ha, rfl⟩ := Option.map_eq_some_iff.mp (Option.mem_toList.mp he)
    have hi := attached?_number ha
    have hle := r.nextId_le hj
    change i ≠ id
    omega
  induction hk with
  | refl =>
    have hp : ((r.handlers k).map Prod.fst).Pairwise (· < ·) := (r.tallies k).ordered
    rw [hbefore, List.map_append, List.map_cons, List.pairwise_append, List.pairwise_cons] at hp
    obtain ⟨_, ⟨hlater, _⟩, hearlier⟩ := hp
    intro e he
    rw [hafter, List.mem_append, List.mem_append] at he
    rcases he with (he | he) | he
    · exact Nat.ne_of_lt (hearlier e.1 (List.mem_map_of_mem he) id List.mem_cons_self)
    · exact Nat.ne_of_gt (hlater e.1 (List.mem_map_of_mem he))
    · exact hadded (Nat.le_refl k) e he
  | @step j hj ih =>
    intro e he
    rw [handlers_succ] at he
    rcases List.mem_append.mp he with he | he
    · obtain ⟨a, ha, rfl⟩ := List.mem_map.mp he
      refine ih a.2 ?_
      rw [handlers_eq]
      exact List.mem_map_of_mem (List.mem_filter.mp ha).1
    · exact hadded (Nat.le_of_succ_le hj) e he

def attachments (r : Run κ α) (n : Nat) : Nat :=
  (List.range n).countP fun k => (r.attached? k).isSome

def removals (r : Run κ α) (n : Nat) : Nat :=
  (List.range n).countP fun k => (r.released? k).isSome

theorem count_eq (r : Run κ α) (n : Nat) :
    (r.state n).signal.count + r.removals n = r.attachments n := by
  change (r.handlers n).length + _ = _
  induction n with
  | zero => rfl
  | succ n ih =>
    have hlen := r.length_handlers_succ n
    have hadded : (r.added n).length = if (r.attached? n).isSome then 1 else 0 := by
      rw [added]
      cases r.attached? n <;> rfl
    have hreleased : (r.released? n).toList.length = if (r.released? n).isSome then 1 else 0 := by
      cases r.released? n <;> rfl
    simp only [removals, attachments, List.range_succ, List.countP_append, List.countP_singleton]
      at ih ⊢
    omega

theorem settle?_nil {respond : κ → α → List (Move κ α)} {d : Delivery κ α} (hd : d.stack = [])
    (limit : Nat) : Delivery.settle? respond limit d = some d := by
  cases limit <;> simp [Delivery.settle?, hd]

/-- Enough steps of work that comes to its end give the state in which it ends. -/
theorem settle?_eq {respond : κ → α → List (Move κ α)} {limit : Nat} (hk : k ≤ n)
    (hw : ∀ j, k ≤ j → j < n → r.turn j = .work respond) (he : (r.state n).stack = [])
    (hlimit : n ≤ k + limit) :
    Delivery.settle? respond limit (r.state k) = some (r.state n) := by
  induction limit generalizing k with
  | zero =>
    obtain rfl : k = n := by omega
    exact settle?_nil he 0
  | succ limit ih =>
    rcases Nat.eq_or_lt_of_le hk with rfl | hlt
    · exact settle?_nil he _
    have hstep : r.state (k + 1) = (r.state k).step respond := by
      rw [state, hw k (Nat.le_refl k) hlt]
      rfl
    have hlater := ih hlt (fun j hj => hw j (by omega)) (by omega)
    rw [hstep] at hlater
    cases hs : (r.state k).stack with
    | nil =>
      have hsame : (r.state k).step respond = r.state k := by
        simp only [Delivery.step, hs]
      rw [hsame, settle?_nil hs] at hlater
      rw [settle?_nil hs]
      exact hlater
    | cons frame rest =>
      simp only [Delivery.settle?, hs, List.isEmpty_cons, Bool.false_eq_true, ↓reduceIte]
      exact hlater

theorem Lasts.restrict {j : Nat} (hl : r.Lasts k n) (hk : k < j) (hj : j ≤ n) : r.Lasts k j :=
  ⟨hk, fun i hi => hl.2 i (Nat.le_trans hi hj)⟩

/-- A move made while nothing is under way, and whose work is confined, comes to its end. -/
theorem act?_ends {respond : κ → α → List (Move κ α)} {m : Move κ α} {bound : Nat}
    (ht : r.turn k = .move m) (hstack : (r.state k).stack = [])
    (hw : r.fired? k ≠ none → ∀ n, r.Lasts k n → r.turn n = .work respond ∧ r.depth n ≤ bound) :
    ∃ n limit, k < n ∧ (r.state n).stack = [] ∧
      (r.state k).act? respond limit m = some (r.state n) := by
  have hnext : (r.state k).perform m = r.state (k + 1) := by
    rw [state, ht]
    rfl
  have hfires : r.fired? k = (r.state k).fires? m := by
    rw [fired?, made?, ht]
    rfl
  cases hf : r.fired? k with
  | none =>
    have hempty : (r.state (k + 1)).stack = [] := by
      rw [← hnext, Delivery.perform_stack, ← hfires, hf, hstack]
      rfl
    refine ⟨k + 1, 0, Nat.lt_succ_self k, hempty, ?_⟩
    rw [Delivery.act?, hnext]
    exact settle?_nil hempty 0
  | some value =>
    have hw := hw (hf ▸ Option.some_ne_none value)
    have hconfined : r.Confined k bound := by
      intro n hn
      exact ⟨(hw n hn).2, respond, (hw n hn).1⟩
    obtain ⟨n, hl, hshallow⟩ := hconfined.returns hf
    have hempty : (r.state (n + 1)).stack = [] := by
      rw [depth_fired hf, depth, depth, hstack] at hshallow
      exact List.length_eq_zero_iff.mp (Nat.lt_one_iff.mp hshallow)
    refine ⟨n + 1, n, Nat.lt_succ_of_lt hl.1, hempty, ?_⟩
    rw [Delivery.act?, hnext]
    refine settle?_eq (Nat.succ_le_succ (Nat.le_of_lt hl.1)) ?_ hempty (by omega)
    intro j hj hjn
    exact (hw j (hl.restrict hj (Nat.le_of_lt_succ hjn))).1

/-- Who is called by whom, and what is attached, in a run. -/
structure Delivers (r : Run κ α) : Prop where
  /-- A turn that fires starts one round, of the handlers that are attached, on top of all other
  work. -/
  starts : ∀ k value, r.fired? k = some value → ∃ below, below.length = r.depth k ∧
    (r.state (k + 1)).stack = .round value (r.handlers k) :: below ∧
    (r.state (k + 1)).journal = .started value (r.handlers k) :: (r.state k).journal
  /-- However rounds lie in one another, each returns if there is a bound to their depth. -/
  returns : ∀ k value bound, r.fired? k = some value → r.Confined k bound → ∃ n, r.Returns k n
  /-- Every call is made by one round. -/
  caller : ∀ m c, r.called? m = some c → ∃! k, r.fired? k = some c.value ∧ r.CallsAt k m c
  /-- A round that returns has called the handlers that were attached when it started, each once and
  in their order, with the value of the round. -/
  calls : ∀ k n value, r.fired? k = some value → r.Returns k n →
    r.calls k n = (r.handlers k).map fun e => ⟨e.1, e.2, value⟩
  /-- One that does not return calls no others, and none twice. -/
  begun : ∀ k n value, r.fired? k = some value → r.Lasts k n →
    r.calls k n <+: (r.handlers k).map fun e => ⟨e.1, e.2, value⟩
  journal : ∀ n, (r.state n).journal.reverse =
    (List.range n).filterMap fun m => (r.state m).occurs? (r.turn m)
  /-- A handler is attached until its subscription is named again. -/
  handlers : ∀ n, r.handlers n = (r.roll n).map Prod.snd
  /-- Rounds that start from then on find it. -/
  reached : ∀ k n name id h, r.attached? k = some (name, id, h) → k < n →
    (∀ m, k < m → m < n → r.named? m ≠ some name) → (id, h) ∈ r.handlers n
  ordered : ∀ n, ((r.handlers n).map Prod.fst).Pairwise (· < ·)
  /-- A new handler was called by no round before. -/
  fresh : ∀ k n name id h, r.attached? n = some (name, id, h) → k ≤ n →
    ∀ e ∈ r.handlers k, e.1 < id
  /-- What is undone is the attachment that stands under the name, and no other. -/
  removed : ∀ n id, r.released? n = some id → ∃ name before h after, r.named? n = some name ∧
    (name, id, h) ∈ r.roll n ∧ r.handlers n = before ++ (id, h) :: after ∧
      r.handlers (n + 1) = before ++ after ++ r.added n
  kept : ∀ n, r.released? n = none → r.handlers (n + 1) = r.handlers n ++ r.added n
  gone : ∀ k n id, r.released? k = some id → k < n →
    (∀ e ∈ r.handlers n, e.1 ≠ id) ∧ r.released? n ≠ some id
  count : ∀ n, (r.state n).signal.count + r.removals n = r.attachments n
  /-- What runs to its end by itself comes to the same state. -/
  settles : ∀ k n respond limit, k ≤ n → n ≤ k + limit →
    (∀ j, k ≤ j → j < n → r.turn j = .work respond) → (r.state n).stack = [] →
    Delivery.settle? respond limit (r.state k) = some (r.state n)
  /-- A move made while nothing is under way comes to its end if there is such a bound. -/
  ends : ∀ k bound respond m, r.turn k = .move m → (r.state k).stack = [] →
    (r.fired? k ≠ none → ∀ n, r.Lasts k n → r.turn n = .work respond ∧ r.depth n ≤ bound) →
      ∃ n limit, k < n ∧ (r.state n).stack = [] ∧
        (r.state k).act? respond limit m = some (r.state n)

end Run

/-- The first handler releases itself, attaches another and fires again; the second one releases
what the first attached. -/
def nestedRun : Run String Nat where
  initial := 0
  turn
    | 0 => .move (.attach "a" "first")
    | 1 => .move (.attach "b" "second")
    | 2 => .move (.fire 7)
    | _ => .work fun handler value =>
      match handler, value with
      | "first", 7 => [.release "a", .attach "c" "third", .fire 8]
      | "second", 7 => [.release "c"]
      | _, _ => []

end DocSync.Signal
