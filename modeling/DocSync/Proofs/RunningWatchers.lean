import DocSync.Proofs.SignalRounds
import DocSync.Running.Watched
import Mathlib.Data.List.Chain
import Mathlib.Data.List.Induction

/-!
What the running documents are at any time, and what their watchers know. The members are told by
the history of marks alone: a document is one if it was last marked busy, and they stand in the
order in which they came in. A mark that changes them is told once to every watcher, so what a
watcher took last is what they are.
-/

namespace DocSync.RunningSet

open Signal

variable {κ : Type} {r r' : RunningSet} {m : Mark} {id : DocumentId}

/-- Two lists of members have the same documents but one. -/
def DiffersByOne (before after : List DocumentId) : Prop :=
  ∃ id, ∀ other, (other ∈ before ↔ other ∈ after) ↔ other ≠ id

theorem isBusy_iff : r.isBusy id = true ↔ id ∈ r.members := List.contains_iff_mem

theorem revise?_busy (r : RunningSet) (id : DocumentId) :
    revise? .busy id r = if id ∈ r.members then none else some ⟨id :: r.members⟩ := by
  by_cases h : id ∈ r.members
  · rw [if_pos h, revise?, mark, markBusy, if_pos (isBusy_iff.mpr h)]
    rfl
  · rw [if_neg h, revise?, mark, markBusy, if_neg (mt isBusy_iff.mp h)]
    rfl

theorem revise?_idle (r : RunningSet) (id : DocumentId) :
    revise? .idle id r =
      if id ∈ r.members then some ⟨r.members.filter fun m => m != id⟩ else none := by
  by_cases h : id ∈ r.members
  · rw [if_pos h, revise?, mark, markIdle, if_pos (isBusy_iff.mpr h)]
    rfl
  · rw [if_neg h, revise?, mark, markIdle, if_neg (mt isBusy_iff.mp h)]
    rfl

theorem revise?_cases (h : revise? m id r = some r') :
    (m = .busy ∧ id ∉ r.members ∧ r'.members = id :: r.members) ∨
      (m = .idle ∧ id ∈ r.members ∧ r'.members = r.members.filter fun o => o != id) := by
  cases m with
  | busy =>
    rw [revise?_busy] at h
    split at h
    · cases h
    · next hout =>
      cases h
      exact .inl ⟨rfl, hout, rfl⟩
  | idle =>
    rw [revise?_idle] at h
    split at h
    · next hin =>
      cases h
      exact .inr ⟨rfl, hin, rfl⟩
    · cases h

theorem revise?_none (h : revise? m id r = none) : id ∈ r.members ↔ m = .busy := by
  cases m with
  | busy =>
    rw [revise?_busy] at h
    split at h
    · next hin => exact ⟨fun _ => rfl, fun _ => hin⟩
    · cases h
  | idle =>
    rw [revise?_idle] at h
    split at h
    · cases h
    · next hout => exact ⟨fun hin => absurd hin hout, fun hm => by cases hm⟩

theorem nodup_revise? (h : revise? m id r = some r') (hr : r.members.Nodup) :
    r'.members.Nodup := by
  obtain ⟨-, hout, he⟩ | ⟨-, -, he⟩ := revise?_cases h
  · rw [he]
    exact List.nodup_cons.mpr ⟨hout, hr⟩
  · rw [he]
    exact hr.filter _

theorem mem_revise? (h : revise? m id r = some r') (other : DocumentId) :
    other ∈ r'.members ↔ if other = id then m = .busy else other ∈ r.members := by
  obtain ⟨rfl, hout, he⟩ | ⟨rfl, hin, he⟩ := revise?_cases h
  · rw [he, List.mem_cons]
    by_cases ho : other = id
    · simp [ho]
    · simp [ho]
  · rw [he, List.mem_filter]
    by_cases ho : other = id
    · simp [ho]
    · simp [ho]

theorem revise?_differs (h : revise? m id r = some r') (other : DocumentId) :
    (other ∈ r.members ↔ other ∈ r'.members) ↔ other ≠ id := by
  rw [mem_revise? h]
  by_cases ho : other = id
  · subst ho
    obtain ⟨rfl, hout, -⟩ | ⟨rfl, hin, -⟩ := revise?_cases h
    · simp [hout]
    · simp [hin]
  · simp [ho]

theorem mark_snd (r : RunningSet) (id : DocumentId) (m : Mark) :
    (r.mark id m).2 = (revise? m id r).isSome := by
  rw [revise?]
  cases h : (r.mark id m).2 <;> simp [h]

namespace Watched

variable {w w' : Watched κ} {c : Call κ} {calls : List (Call κ)} {n k : Nat}

/-- The set changes, and every watcher is called with the new one. -/
def tell (w : Watched κ) (r : RunningSet) : Watched κ :=
  { w with
    remembered := r
    journal := (w.signal.handlers.map fun e => .called e.1 e.2 r r).reverse ++
      .started r w.signal.handlers :: w.journal }

/-- What a call makes of a set that carries out no other one. -/
inductive Carries (w : Watched κ) : Call κ → Watched κ → Prop where
  | told {m : Mark} {id : DocumentId} {r : RunningSet} (hr : revise? m id w.remembered = some r) :
      Carries w (.mark m id) (w.tell r)
  | same {m : Mark} {id : DocumentId} (hr : revise? m id w.remembered = none) :
      Carries w (.mark m id) w
  | subscribe (name : String) (watcher : κ) :
      Carries w (.subscribe name watcher) (w.attach name watcher)
  | unsubscribe (name : String) : Carries w (.unsubscribe name) (w.release name)

theorem settle?_round (r : RunningSet) (left : List (Nat × κ)) (hr : w.remembered = r) :
    Delivery.settle? (fun _ _ => []) (2 * left.length + 1) { w with stack := [.round r left] } =
      some { w with
        stack := []
        journal := (left.map fun e => .called e.1 e.2 r r).reverse ++ w.journal } := by
  induction left generalizing w with
  | nil => rfl
  | cons e left ih =>
    subst hr
    have hlength : 2 * (e :: left).length + 1 = (2 * left.length + 1) + 1 + 1 := by
      rw [List.length_cons]
      omega
    rw [hlength]
    -- Two steps call the first watcher and return from it.
    refine (ih (w := { w with
      journal := .called e.1 e.2 w.remembered w.remembered :: w.journal }) rfl).trans ?_
    simp

/-- Every call is carried out within its steps. -/
theorem call?_carries (hw : w.stack = []) (c : Call κ) :
    ∃ w', w.call? c = some w' ∧ Carries w c w' := by
  cases c with
  | mark m id =>
    cases hr : revise? m id w.remembered with
    | none =>
      refine ⟨w, ?_, .same hr⟩
      rw [call?, Delivery.act?, move, Delivery.perform, hr]
      exact Run.settle?_nil hw _
    | some r =>
      refine ⟨w.tell r, ?_, .told hr⟩
      have hround := settle?_round (w := { w with
        remembered := r
        journal := .started r w.signal.handlers :: w.journal }) r w.signal.handlers rfl
      rw [call?, Delivery.act?, move, Delivery.perform, hr]
      simp only [Delivery.fire, hw]
      rw [Signal.count, hround, tell, hw]
  | subscribe name watcher =>
    refine ⟨w.attach name watcher, ?_, .subscribe name watcher⟩
    rw [call?, Delivery.act?, move, Delivery.perform]
    exact Run.settle?_nil (by rw [Delivery.attach_stack, hw]) _
  | unsubscribe name =>
    refine ⟨w.release name, ?_, .unsubscribe name⟩
    rw [call?, Delivery.act?, move, Delivery.perform]
    exact Run.settle?_nil (by rw [Delivery.release_stack, hw]) _

theorem attach_nextId (w : Watched κ) (name : String) (watcher : κ) :
    (w.attach name watcher).signal.nextId = w.signal.nextId + 1 := Delivery.release_nextId _ name

/-- A call returns that the set changed just when it did, and then tells each watcher once;
otherwise it changes and tells nothing. -/
structure Answers (w : Watched κ) (c : Call κ) (w' : Watched κ) : Prop where
  changed : w.returns c = true ↔
    ∃ id, ¬(id ∈ w.remembered.members ↔ id ∈ w'.remembered.members)
  told : w.returns c = true → w'.signal = w.signal ∧ w'.journal =
    (w.signal.handlers.map fun e => .called e.1 e.2 w'.remembered w'.remembered).reverse ++
      .started w'.remembered w.signal.handlers :: w.journal
  silent : w.returns c = false → w'.remembered = w.remembered ∧ w'.journal = w.journal

theorem answers_of_same (hc : w.returns c = false) (hr : w'.remembered = w.remembered)
    (hj : w'.journal = w.journal) : w.Answers c w' where
  changed := by
    rw [hc, hr]
    constructor
    · intro h
      cases h
    · rintro ⟨id, hid⟩
      exact absurd Iff.rfl hid
  told h := by
    rw [hc] at h
    cases h
  silent _ := ⟨hr, hj⟩

theorem Carries.answers (h : w.Carries c w') : w.Answers c w' := by
  cases h with
  | @told m id r hr =>
    have hc : w.returns (.mark m id) = true := by rw [returns, mark_snd, hr, Option.isSome_some]
    refine ⟨⟨fun _ => ⟨id, ?_⟩, fun _ => hc⟩, fun _ => ⟨rfl, rfl⟩, fun h => ?_⟩
    · intro hsame
      exact (revise?_differs hr id).mp hsame rfl
    · rw [hc] at h
      cases h
  | same hr =>
    refine answers_of_same ?_ rfl rfl
    rw [returns, mark_snd, hr, Option.isSome_none]
  | subscribe name watcher =>
    exact answers_of_same rfl (Delivery.attach_remembered w name watcher)
      (Delivery.attach_journal w name watcher)
  | unsubscribe name =>
    exact answers_of_same rfl (Delivery.release_remembered w name) (Delivery.release_journal w name)

theorem received_congr (hj : w'.journal = w.journal) (n : Nat) : w'.received n = w.received n := by
  rw [received, received, hj]

theorem taken_round (r : RunningSet) {handlers : List (Nat × κ)}
    (hn : (handlers.map Prod.fst).Nodup) (n : Nat) :
    (handlers.map fun e => Occurrence.called e.1 e.2 r r).filterMap (taken? n) =
      if n ∈ handlers.map Prod.fst then [r.members] else [] := by
  induction handlers with
  | nil => rfl
  | cons e handlers ih =>
    obtain ⟨hout, hn⟩ := List.nodup_cons.mp hn
    rw [List.map_cons, List.filterMap_cons, ih hn]
    by_cases he : e.1 = n
    · subst he
      simp [taken?, hout]
    · have hmem : n ∈ (e :: handlers).map Prod.fst ↔ n ∈ handlers.map Prod.fst := by
        simp [Ne.symm he]
      simp only [taken?, if_neg he, hmem]

theorem received_tell (hn : (w.signal.handlers.map Prod.fst).Nodup) (r : RunningSet) (n : Nat) :
    (w.tell r).received n =
      w.received n ++ if n ∈ w.signal.handlers.map Prod.fst then [r.members] else [] := by
  have hstarted : [Occurrence.started r w.signal.handlers].filterMap (taken? n) = [] := rfl
  rw [received, tell, List.reverse_append, List.reverse_cons, List.reverse_reverse,
    List.filterMap_append, List.filterMap_append, hstarted, List.append_nil, taken_round r hn,
    received]

/-- What is kept by every call: the members are distinct, a number that was not handed out took
nothing, each list that a watcher took differs from the one before by one document, and the last one
that an attached watcher took is what the members are. -/
structure Sound (w : Watched κ) : Prop where
  idle : w.stack = []
  tallied : ∃ roll, Delivery.Tallies w roll
  distinct : w.remembered.members.Nodup
  unheard : ∀ n, w.signal.nextId ≤ n → w.received n = []
  apart : ∀ n, (w.received n).IsChain DiffersByOne
  current : ∀ n ∈ w.signal.handlers.map Prod.fst, ∀ members,
    (w.received n).getLast? = some members → members = w.remembered.members

theorem sound_empty : (empty : Watched κ).Sound where
  idle := rfl
  tallied := by
    refine ⟨[], rfl, fun _ => rfl, List.nodup_nil, List.Pairwise.nil, fun e he => ?_⟩
    exact absurd he List.not_mem_nil
  distinct := List.nodup_nil
  unheard _ _ := rfl
  apart _ := List.isChain_nil
  current n hn := absurd hn List.not_mem_nil

theorem Sound.numbers (hw : w.Sound) : (w.signal.handlers.map Prod.fst).Nodup := by
  obtain ⟨roll, hroll⟩ := hw.tallied
  exact hroll.ordered.imp Nat.ne_of_lt

theorem Sound.fresh (hw : w.Sound) (hn : n ∈ w.signal.handlers.map Prod.fst) :
    n < w.signal.nextId := by
  obtain ⟨roll, hroll⟩ := hw.tallied
  obtain ⟨e, he, rfl⟩ := List.mem_map.mp hn
  exact hroll.fresh e he

theorem Sound.tell (hw : w.Sound) (hr : revise? m id w.remembered = some r) :
    (w.tell r).Sound where
  idle := hw.idle
  tallied := by
    obtain ⟨roll, hroll⟩ := hw.tallied
    exact ⟨roll, hroll.same rfl rfl⟩
  distinct := nodup_revise? hr hw.distinct
  unheard n hn := by
    have hout : n ∉ w.signal.handlers.map Prod.fst := by
      intro hin
      exact absurd (hw.fresh hin) (Nat.not_lt_of_le hn)
    rw [received_tell hw.numbers, if_neg hout, List.append_nil]
    exact hw.unheard n hn
  apart n := by
    rw [received_tell hw.numbers]
    split
    · next hin =>
      rw [List.isChain_append]
      refine ⟨hw.apart n, List.isChain_singleton _, ?_⟩
      intro before hbefore after hafter
      obtain rfl := hw.current n hin before hbefore
      obtain rfl := Option.some.inj hafter
      exact ⟨id, revise?_differs hr⟩
    · rw [List.append_nil]
      exact hw.apart n
  current n hn members hm := by
    change n ∈ w.signal.handlers.map Prod.fst at hn
    rw [received_tell hw.numbers, if_pos hn, List.getLast?_concat] at hm
    exact (Option.some.inj hm).symm

/-- A call that tells nothing keeps what was taken, as long as only the watcher with the next number
comes in. -/
theorem Sound.rewire (hw : w.Sound) (hs : w'.stack = w.stack) (hr : w'.remembered = w.remembered)
    (hj : w'.journal = w.journal) (ht : ∃ roll, Delivery.Tallies w' roll)
    (hn : w.signal.nextId ≤ w'.signal.nextId)
    (hin : ∀ n ∈ w'.signal.handlers.map Prod.fst,
      n ∈ w.signal.handlers.map Prod.fst ∨ n = w.signal.nextId) : w'.Sound where
  idle := by rw [hs, hw.idle]
  tallied := ht
  distinct := by
    rw [hr]
    exact hw.distinct
  unheard n hle := by
    rw [received_congr hj]
    exact hw.unheard n (Nat.le_trans hn hle)
  apart n := by
    rw [received_congr hj]
    exact hw.apart n
  current n hmem members hm := by
    rw [received_congr hj] at hm
    rw [hr]
    rcases hin n hmem with hold | rfl
    · exact hw.current n hold members hm
    · rw [hw.unheard _ (Nat.le_refl _)] at hm
      cases hm

theorem Sound.carries (hw : w.Sound) (h : w.Carries c w') : w'.Sound := by
  obtain ⟨roll, hroll⟩ := hw.tallied
  have hkept (name : String) : ∀ n ∈ ((Keyed.remove name roll).map Prod.snd).map Prod.fst,
      n ∈ w.signal.handlers.map Prod.fst := by
    intro n hn
    rw [hroll.handlers]
    have hsub : (Keyed.remove name roll).Sublist roll := List.filter_sublist
    exact ((hsub.map Prod.snd).map Prod.fst).subset hn
  cases h with
  | told hr => exact hw.tell hr
  | same hr => exact hw
  | subscribe name watcher =>
    have hattach := hroll.attach name watcher
    refine hw.rewire (Delivery.attach_stack w name watcher)
      (Delivery.attach_remembered w name watcher) (Delivery.attach_journal w name watcher)
      ⟨_, hattach⟩ ?_ ?_
    · rw [attach_nextId]
      exact Nat.le_succ _
    · intro n hn
      rw [hattach.handlers, List.map_append, List.map_append, List.mem_append] at hn
      rcases hn with hn | hn
      · exact .inl (hkept name n hn)
      · exact .inr (List.mem_singleton.mp hn)
  | unsubscribe name =>
    have hrelease := hroll.release name
    refine hw.rewire (Delivery.release_stack w name) (Delivery.release_remembered w name)
      (Delivery.release_journal w name) ⟨_, hrelease⟩ ?_ ?_
    · rw [Delivery.release_nextId]
    · intro n hn
      rw [hrelease.handlers] at hn
      exact .inl (hkept name n hn)

/-- The calls, carried out on an empty set that nobody watches, lead to a state. -/
def Leads (calls : List (Call κ)) (w : Watched κ) : Prop := empty.callAll? calls = some w

/-- The mark that a call makes of a document. -/
def markOf? (id : DocumentId) : Call κ → Option Mark
  | .mark m other => if other = id then some m else none
  | _ => none

def lastMark? (calls : List (Call κ)) (id : DocumentId) : Option Mark :=
  (calls.filterMap (markOf? id)).getLast?

/-- The call at a place marks a document busy that is no member by then. -/
def Adds (calls : List (Call κ)) (k : Nat) (id : DocumentId) : Prop :=
  calls[k]? = some (.mark .busy id) ∧ ∃ w, Leads (calls.take k) w ∧ id ∉ w.remembered.members

def LastAdds (calls : List (Call κ)) (k : Nat) (id : DocumentId) : Prop :=
  Adds calls k id ∧ ∀ j, k < j → ¬Adds calls j id

/-- What calls lead to: who the members are and in which order, what the next call does, and what
the watchers took. -/
structure Told (calls : List (Call κ)) (w : Watched κ) : Prop where
  distinct : w.remembered.members.Nodup
  marked : ∀ id, id ∈ w.remembered.members ↔ lastMark? calls id = some .busy
  added : ∀ id ∈ w.remembered.members, ∃ k, LastAdds calls k id
  newest : w.remembered.members.Pairwise fun a b =>
    ∃ i j, LastAdds calls i a ∧ LastAdds calls j b ∧ j < i
  next : ∀ c, ∃ w', w.call? c = some w' ∧ w.Answers c w'
  /-- The next watcher took nothing before it came in. -/
  unheard : ∀ n, w.signal.nextId ≤ n → w.received n = []
  apart : ∀ n, (w.received n).IsChain DiffersByOne
  current : ∀ n ∈ w.signal.handlers.map Prod.fst, ∀ members,
    (w.received n).getLast? = some members → members = w.remembered.members

theorem Leads.concat (hw : Leads calls w) (hc : w.call? c = some w') :
    Leads (calls ++ [c]) w' := by
  rw [Leads, callAll?] at hw
  rw [Leads, callAll?, List.foldlM_append, hw, Option.bind_eq_bind, Option.bind_some,
    List.foldlM_cons, hc]
  rfl

theorem Leads.unique (hw : Leads calls w) (hw' : Leads calls w') : w = w' :=
  Option.some.inj (hw.symm.trans hw')

theorem lastMark?_concat (calls : List (Call κ)) (c : Call κ) (id : DocumentId) :
    lastMark? (calls ++ [c]) id = (markOf? id c).or (lastMark? calls id) := by
  rw [lastMark?, List.filterMap_append, List.getLast?_append, lastMark?]
  congr 1
  cases h : markOf? id c <;> simp [h]

/-- A mark decides about its own document, and no other call about any. -/
theorem Carries.mem (h : w.Carries c w') (id : DocumentId) :
    id ∈ w'.remembered.members ↔
      (markOf? id c).elim (id ∈ w.remembered.members) fun m => m = .busy := by
  cases h with
  | @told m other r hr =>
    change id ∈ r.members ↔ _
    rw [mem_revise? hr, markOf?]
    by_cases ho : id = other
    · simp [ho]
    · simp [ho, Ne.symm ho]
  | @same m other hr =>
    rw [markOf?]
    by_cases ho : other = id
    · subst ho
      rw [if_pos rfl]
      exact revise?_none hr
    · rw [if_neg ho]
      rfl
  | subscribe name watcher =>
    rw [Delivery.attach_remembered]
    rfl
  | unsubscribe name =>
    rw [Delivery.release_remembered]
    rfl

theorem Adds.lt (h : Adds calls k id) : k < calls.length := by
  by_contra hge
  have hnone : calls[k]? = none := List.getElem?_eq_none (Nat.le_of_not_lt hge)
  rw [Adds, hnone] at h
  cases h.1

theorem adds_concat : Adds (calls ++ [c]) k id ↔ Adds calls k id ∨
    k = calls.length ∧ c = .mark .busy id ∧ ∃ w, Leads calls w ∧ id ∉ w.remembered.members := by
  rcases Nat.lt_trichotomy k calls.length with hlt | rfl | hgt
  · have hne : k ≠ calls.length := Nat.ne_of_lt hlt
    rw [Adds, List.getElem?_append_left hlt, List.take_append_of_le_length (Nat.le_of_lt hlt)]
    simp [Adds, hne]
  · have hself : ¬Adds calls calls.length id := fun h => absurd h.lt (Nat.lt_irrefl _)
    rw [Adds, List.getElem?_concat_length, List.take_left, Option.some.injEq]
    simp [hself]
  · constructor
    · intro h
      have hlt := h.lt
      rw [List.length_append, List.length_singleton] at hlt
      omega
    · rintro (h | ⟨rfl, -⟩)
      · exact absurd h.lt (Nat.not_lt_of_lt hgt)
      · exact absurd hgt (Nat.lt_irrefl _)

theorem LastAdds.concat (h : LastAdds calls k id) (hw : Leads calls w)
    (hid : id ∈ w.remembered.members) (c : Call κ) : LastAdds (calls ++ [c]) k id := by
  obtain ⟨hk, hlater⟩ := h
  refine ⟨adds_concat.mpr (.inl hk), ?_⟩
  intro j hj hadds
  rcases adds_concat.mp hadds with hold | ⟨-, -, u, hu, hout⟩
  · exact hlater j hj hold
  · obtain rfl := hw.unique hu
    exact hout hid

theorem lastAdds_self (hw : Leads calls w) (hid : id ∉ w.remembered.members) :
    LastAdds (calls ++ [.mark .busy id]) calls.length id := by
  refine ⟨adds_concat.mpr (.inr ⟨rfl, rfl, w, hw, hid⟩), ?_⟩
  intro j hj hadds
  have hlt := hadds.lt
  rw [List.length_append, List.length_singleton] at hlt
  omega

theorem told_of_sound (hw : w.Sound)
    (hmarked : ∀ id, id ∈ w.remembered.members ↔ lastMark? calls id = some .busy)
    (hadded : ∀ id ∈ w.remembered.members, ∃ k, LastAdds calls k id)
    (hnewest : w.remembered.members.Pairwise fun a b =>
      ∃ i j, LastAdds calls i a ∧ LastAdds calls j b ∧ j < i) : Told calls w where
  distinct := hw.distinct
  marked := hmarked
  added := hadded
  newest := hnewest
  next c := by
    obtain ⟨w', hc, hcarries⟩ := call?_carries hw.idle c
    exact ⟨w', hc, hcarries.answers⟩
  unheard := hw.unheard
  apart := hw.apart
  current := hw.current

/-- The members keep their order, and one that comes in stands before all others. -/
theorem Told.ordered (ht : Told calls w) (hw : Leads calls w) (h : w.Carries c w') :
    (∀ id ∈ w'.remembered.members, ∃ k, LastAdds (calls ++ [c]) k id) ∧
      w'.remembered.members.Pairwise fun a b =>
        ∃ i j, LastAdds (calls ++ [c]) i a ∧ LastAdds (calls ++ [c]) j b ∧ j < i := by
  have hadded : ∀ id ∈ w.remembered.members, ∃ k, LastAdds (calls ++ [c]) k id := by
    intro id hid
    obtain ⟨k, hk⟩ := ht.added id hid
    exact ⟨k, hk.concat hw hid c⟩
  have hnewest : w.remembered.members.Pairwise fun a b =>
      ∃ i j, LastAdds (calls ++ [c]) i a ∧ LastAdds (calls ++ [c]) j b ∧ j < i := by
    refine ht.newest.imp_of_mem ?_
    rintro a b ha hb ⟨i, j, hi, hj, hlt⟩
    exact ⟨i, j, hi.concat hw ha c, hj.concat hw hb c, hlt⟩
  cases h with
  | @told m id r hr =>
    change (∀ other ∈ r.members, _) ∧ r.members.Pairwise _
    obtain ⟨rfl, hout, he⟩ | ⟨-, -, he⟩ := revise?_cases hr
    · have hself := lastAdds_self hw hout
      rw [he, List.pairwise_cons]
      refine ⟨?_, ?_, hnewest⟩
      · intro other ho
        rcases List.mem_cons.mp ho with rfl | ho
        · exact ⟨_, hself⟩
        · exact hadded other ho
      · intro other ho
        obtain ⟨k, hk⟩ := ht.added other ho
        exact ⟨_, k, hself, hk.concat hw ho _, hk.1.lt⟩
    · rw [he]
      refine ⟨?_, hnewest.filter _⟩
      intro other ho
      exact hadded other (List.mem_filter.mp ho).1
  | same hr => exact ⟨hadded, hnewest⟩
  | subscribe name watcher =>
    rw [Delivery.attach_remembered]
    exact ⟨hadded, hnewest⟩
  | unsubscribe name =>
    rw [Delivery.release_remembered]
    exact ⟨hadded, hnewest⟩

theorem exists_told (calls : List (Call κ)) : ∃ w, Leads calls w ∧ w.Sound ∧ Told calls w := by
  induction calls using List.reverseRecOn with
  | nil =>
    refine ⟨empty, rfl, sound_empty, told_of_sound sound_empty ?_ ?_ List.Pairwise.nil⟩
    · intro id
      exact ⟨fun h => absurd h List.not_mem_nil, fun h => by cases h⟩
    · intro id hid
      exact absurd hid List.not_mem_nil
  | append_singleton calls c ih =>
    obtain ⟨w, hleads, hsound, htold⟩ := ih
    obtain ⟨w', hc, hcarries⟩ := call?_carries hsound.idle c
    have hsound' := hsound.carries hcarries
    obtain ⟨hadded, hnewest⟩ := htold.ordered hleads hcarries
    refine ⟨w', hleads.concat hc, hsound', told_of_sound hsound' ?_ hadded hnewest⟩
    intro id
    rw [hcarries.mem, lastMark?_concat, htold.marked]
    cases markOf? id c with
    | none => rfl
    | some m => simp

/-- Whatever is called on a set, its members are the documents that were last marked busy, newest
first; a mark tells every watcher once if it changes them and nobody if not; and from one list to
the next a watcher takes in one document more or less, up to the present members. -/
theorem changes_told_once (calls : List (Call κ)) : ∃ w, Leads calls w ∧ Told calls w := by
  obtain ⟨w, hleads, -, htold⟩ := exists_told calls
  exact ⟨w, hleads, htold⟩

/-- A document goes out and comes in again while it is watched, with a mark in between that changes
nothing. -/
def returningCalls : List (Call String) :=
  [.mark .busy ⟨"a"⟩, .subscribe "w" "watcher", .mark .busy ⟨"b"⟩, .mark .busy ⟨"a"⟩,
    .mark .idle ⟨"a"⟩, .mark .busy ⟨"a"⟩]

theorem returning_document_first : ∃ w, Leads returningCalls w ∧
    w.remembered.members = [⟨"a"⟩, ⟨"b"⟩] ∧
    w.received 0 = [[⟨"b"⟩, ⟨"a"⟩], [⟨"b"⟩], [⟨"a"⟩, ⟨"b"⟩]] ∧
    (w.received 0).IsChain DiffersByOne ∧ lastMark? returningCalls ⟨"a"⟩ = some .busy := by
  obtain ⟨w, hleads, htold⟩ := changes_told_once returningCalls
  have hrun : (empty.callAll? returningCalls).map (fun w => (w.remembered.members, w.received 0)) =
      some ([⟨"a"⟩, ⟨"b"⟩], [[⟨"b"⟩, ⟨"a"⟩], [⟨"b"⟩], [⟨"a"⟩, ⟨"b"⟩]]) := by
    decide
  rw [hleads, Option.map_some, Option.some.injEq, Prod.mk.injEq] at hrun
  obtain ⟨hmembers, hreceived⟩ := hrun
  refine ⟨w, hleads, hmembers, hreceived, htold.apart 0, (htold.marked _).mp ?_⟩
  rw [hmembers]
  exact List.mem_cons_self

end Watched

end DocSync.RunningSet
