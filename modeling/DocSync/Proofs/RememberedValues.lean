import DocSync.Proofs.SignalRounds

/-!
The remembered value and what is told of it. A value is stored before its round starts. Whoever is
called with a value finds it remembered, or one that was stored later within the same round: rounds
that lie in one another are told out of order, but nobody finds a value older than the one told.
Where handlers store nothing, what each was told last is what is remembered.
-/

namespace DocSync.Signal

variable {κ α : Type}

/-- The move starts no round but by storing a value. -/
def Move.StoresOnly : Move κ α → Prop
  | .fire _ => False
  | _ => True

/-- Neither the move made nor those that the handlers answer with start a round but by storing. -/
def Turn.StoresOnly : Turn κ α → Prop
  | .move m => m.StoresOnly
  | .work respond => ∀ handler value, ∀ m ∈ respond handler value, m.StoresOnly

namespace Delivery

variable {d : Delivery κ α} {m : Move κ α} {t : Turn κ α} {value : α}

/-- The value that a move stores. -/
def stores? (d : Delivery κ α) : Move κ α → Option α
  | .store revise => revise d.remembered
  | _ => none

/-- The moves that are yet to be made start no round but by storing. -/
def StoresOnly (d : Delivery κ α) : Prop :=
  ∀ ms, Frame.moves ms ∈ d.stack → ∀ m ∈ ms, m.StoresOnly

theorem revises_eq (d : Delivery κ α) (m : Move κ α) : d.revises m = (d.stores? m).isSome := by
  cases m <;> rfl

theorem fires?_of_stores? (h : d.stores? m = some value) : d.fires? m = some value := by
  cases m with
  | store revise => exact h
  | _ => cases h

theorem fires?_of_storesOnly (hm : m.StoresOnly) (d : Delivery κ α) :
    d.fires? m = d.stores? m := by
  cases m with
  | fire value => exact hm.elim
  | _ => rfl

theorem perform_remembered (d : Delivery κ α) (m : Move κ α) :
    (d.perform m).remembered = (d.stores? m).getD d.remembered := by
  cases m with
  | attach name handler => exact attach_remembered d name handler
  | release name => exact release_remembered d name
  | fire value => rfl
  | store revise =>
    simp only [perform, stores?]
    cases revise d.remembered <;> rfl

theorem next_remembered (d : Delivery κ α) (t : Turn κ α) :
    (d.next t).remembered = ((d.made? t).bind d.stores?).getD d.remembered := by
  cases hm : d.made? t with
  | none =>
    obtain ⟨stack, journal, he⟩ := next_unmade hm
    rw [he]
    rfl
  | some m =>
    obtain ⟨stack, -, he⟩ := next_made hm
    rw [he, perform_remembered]
    cases m <;> rfl

theorem StoresOnly.made (hd : d.StoresOnly) (ht : t.StoresOnly) (hm : d.made? t = some m) :
    m.StoresOnly := by
  cases t with
  | move m' =>
    obtain rfl := Option.some.inj hm
    exact ht
  | work respond =>
    rw [made?] at hm
    split at hm
    · next ms rest hs =>
      obtain rfl := Option.some.inj hm
      refine hd (_ :: ms) ?_ _ List.mem_cons_self
      rw [hs]
      exact List.mem_cons_self
    · cases hm

theorem mem_perform_stack {ms : List (Move κ α)} (h : Frame.moves ms ∈ (d.perform m).stack) :
    Frame.moves ms ∈ d.stack := by
  rw [perform_stack] at h
  rcases List.mem_append.mp h with h | h
  · obtain ⟨v, -, he⟩ := Option.map_eq_some_iff.mp (Option.mem_toList.mp h)
    cases he
  · exact h

theorem StoresOnly.next (hd : d.StoresOnly) (ht : t.StoresOnly) : (d.next t).StoresOnly := by
  intro ms hms
  cases t with
  | move m => exact hd ms (mem_perform_stack hms)
  | work respond =>
    rcases d with ⟨signal, remembered, held, stack, journal⟩
    rcases stack with _ | ⟨⟨v, _ | ⟨e, left⟩⟩ | ⟨_ | ⟨m, later⟩⟩, rest⟩
    · exact hd ms hms
    · exact hd ms (List.mem_cons_of_mem _ hms)
    · rcases List.mem_cons.mp hms with he | hms
      · cases he
        exact ht e.2 v
      · rcases List.mem_cons.mp hms with he | hms
        · cases he
        · exact hd ms (List.mem_cons_of_mem _ hms)
    · exact hd ms (List.mem_cons_of_mem _ hms)
    · have hms : Frame.moves ms ∈ Frame.moves later :: rest :=
        mem_perform_stack (d := ⟨signal, remembered, held, .moves later :: rest, journal⟩) hms
      rcases List.mem_cons.mp hms with he | hms
      · cases he
        intro m' hm'
        exact hd (m :: ms) List.mem_cons_self m' (List.mem_cons_of_mem _ hm')
      · exact hd ms (List.mem_cons_of_mem _ hms)

theorem next_unrevised {revise : α → Option α} (hm : d.made? t = some (.store revise))
    (hnone : revise d.remembered = none) :
    ∃ stack, d.next t = { d with stack := stack } ∧ stack.length = d.stack.length := by
  obtain ⟨stack, hlength, he⟩ := next_made hm
  refine ⟨stack, ?_, hlength⟩
  simp only [he, perform, hnone]

end Delivery

namespace Run

variable {r : Run κ α} {a j k m n id bound : Nat} {value : α} {c : Call κ α}
  {name : String} {h : κ}

/-- The value that a turn stores. -/
def stored? (r : Run κ α) (k : Nat) : Option α := (r.made? k).bind (r.state k).stores?

/-- A turn stored a value, and no later one did before a time. -/
def StoredLast (r : Run κ α) (k n : Nat) (value : α) : Prop :=
  k < n ∧ r.stored? k = some value ∧ ∀ j, k < j → j < n → r.stored? j = none

/-- The handler called by a turn has not returned; it may be about to be called. -/
def Running (r : Run κ α) (m n : Nat) : Prop := n = m ∨ r.Lasts m n

/-- Whether a turn calls a handler, and with what. -/
def told? (r : Run κ α) (id m : Nat) : Option α :=
  ((r.called? m).filter fun c => c.id = id).map Call.value

/-- What a handler was called with before a turn. -/
def received (r : Run κ α) (n id : Nat) : List α := (List.range n).filterMap (r.told? id)

theorem remembered_succ (r : Run κ α) (n : Nat) :
    (r.state (n + 1)).remembered = (r.stored? n).getD (r.state n).remembered :=
  Delivery.next_remembered (r.state n) (r.turn n)

theorem remembered_eq (r : Run κ α) (n : Nat) :
    (∃ k, r.StoredLast k n (r.state n).remembered) ∨
      (∀ k < n, r.stored? k = none) ∧ (r.state n).remembered = r.initial := by
  induction n with
  | zero =>
    refine Or.inr ⟨?_, rfl⟩
    intro k hk
    exact absurd hk (Nat.not_lt_zero k)
  | succ n ih =>
    rw [remembered_succ]
    cases hn : r.stored? n with
    | some value =>
      exact Or.inl ⟨n, Nat.lt_succ_self n, hn, History.between_self _ n⟩
    | none =>
      rw [Option.getD_none]
      rcases ih with ⟨k, hk, hstored, hlast⟩ | ⟨hall, hr⟩
      · exact Or.inl ⟨k, Nat.lt_succ_of_lt hk, hstored,
          (History.between_succ hk).mpr ⟨hlast, hn⟩⟩
      · refine Or.inr ⟨?_, hr⟩
        intro k hk
        rcases Nat.lt_succ_iff_lt_or_eq.mp hk with hk | rfl
        · exact hall k hk
        · exact hn

theorem exists_storedLast (hs : r.stored? k = some value) (hk : k < n) :
    ∃ j, k ≤ j ∧ r.StoredLast j n (r.state n).remembered := by
  rcases r.remembered_eq n with ⟨j, hj⟩ | ⟨hall, -⟩
  · refine ⟨j, ?_, hj⟩
    by_contra hlt
    have hnone := hj.2.2 k (Nat.lt_of_not_le hlt) hk
    rw [hs] at hnone
    cases hnone
  · rw [hall k hk] at hs
    cases hs

theorem storesOnly (hr : ∀ k, (r.turn k).StoresOnly) (n : Nat) : (r.state n).StoresOnly := by
  induction n with
  | zero =>
    intro ms hms
    exact absurd hms List.not_mem_nil
  | succ n ih => exact ih.next (hr n)

theorem fired?_of_stored? (hs : r.stored? k = some value) : r.fired? k = some value := by
  obtain ⟨m, hm, hstores⟩ := Option.bind_eq_some_iff.mp hs
  rw [fired?, hm]
  exact Delivery.fires?_of_stores? hstores

theorem fired?_eq (hr : ∀ k, (r.turn k).StoresOnly) (k : Nat) : r.fired? k = r.stored? k := by
  rw [fired?, stored?]
  cases hm : r.made? k with
  | none => rfl
  | some m => exact Delivery.fires?_of_storesOnly ((storesOnly hr k).made (hr k) hm) _

theorem journal_stored (hs : r.stored? k = some value) :
    (r.state (k + 1)).journal = .started value (r.handlers k) :: (r.state k).journal := by
  obtain ⟨below, -, -, hjournal⟩ := Delivery.next_fired (fired?_of_stored? hs)
  exact hjournal

theorem CallsAt.lasts (hc : r.CallsAt k m c) (hn : r.Running m n) : r.Lasts k n := by
  rcases hn with rfl | hl
  · exact hc.1
  · refine ⟨Nat.lt_trans hc.1.1 hl.1, ?_⟩
    intro i hi hk
    obtain ⟨hcalled, hlevel⟩ := hc.called
    rcases Nat.lt_or_ge m i with hlt | hle
    · have hdeep := hl.2 i hi hlt
      rw [depth_called hcalled, hlevel] at hdeep
      exact Nat.le_of_succ_le hdeep
    · exact hc.1.2 i hle hk

/-- What is remembered while a handler runs was stored by the turn that started its round or, later,
within that round. -/
theorem CallsAt.finds (hc : r.CallsAt k m c) (hs : r.stored? k = some c.value)
    (hn : r.Running m n) :
    ∃ j, r.StoredLast j n (r.state n).remembered ∧ (j = k ∨ r.Lasts k j) := by
  have hl := hc.lasts hn
  obtain ⟨j, hkj, hj⟩ := exists_storedLast hs hl.1
  refine ⟨j, hj, ?_⟩
  rcases Nat.eq_or_lt_of_le hkj with rfl | hlt
  · exact Or.inl rfl
  · exact Or.inr (hl.restrict hlt (Nat.le_of_lt hj.1))

theorem told?_eq_some : r.told? id m = some value ↔ ∃ h, r.called? m = some ⟨id, h, value⟩ := by
  rw [told?, Option.map_eq_some_iff]
  constructor
  · rintro ⟨⟨i, h, v⟩, hc, rfl⟩
    obtain ⟨hcalled, hid⟩ := Option.filter_eq_some_iff.mp hc
    obtain rfl : i = id := of_decide_eq_true hid
    exact ⟨h, hcalled⟩
  · rintro ⟨h, hcalled⟩
    exact ⟨_, Option.filter_eq_some_iff.mpr ⟨hcalled, decide_eq_true rfl⟩, rfl⟩

theorem received_succ (r : Run κ α) (n id : Nat) :
    r.received (n + 1) id = r.received n id ++ (r.told? id n).toList := by
  rw [received, List.range_succ, List.filterMap_append, received]
  cases ht : r.told? id n <;> simp [ht]

theorem getLast?_received (hm : k < m) (hn : m < n) (ht : r.told? id m = some value)
    (hall : ∀ i v, k < i → i < n → r.told? id i = some v → v = value) :
    (r.received n id).getLast? = some value := by
  induction n with
  | zero => exact absurd hn (Nat.not_lt_zero m)
  | succ n ih =>
    rw [received_succ, List.getLast?_append]
    cases hlast : r.told? id n with
    | some v =>
      have hk : k < n := Nat.lt_of_lt_of_le hm (Nat.le_of_lt_succ hn)
      rw [hall n v hk (Nat.lt_succ_self n) hlast]
      rfl
    | none =>
      have hne : m ≠ n := by
        rintro rfl
        rw [ht] at hlast
        cases hlast
      refine ih (by omega) ?_
      intro i v hk hi
      exact hall i v hk (Nat.lt_succ_of_lt hi)

/-- Values are stored only while nothing is under way, so that no handler stores any. -/
def Unnested (r : Run κ α) : Prop := ∀ k, r.stored? k ≠ none → (r.state k).stack = []

theorem Unnested.told (hu : r.Unnested) (hr : ∀ k, (r.turn k).StoresOnly)
    (hk : r.StoredLast k n value) (hm : k < m) (hn : m < n) (hc : r.called? m = some c) :
    c.value = value := by
  obtain ⟨j, hf, hcalls⟩ := exists_callsAt hc
  have hs := hf
  rw [fired?_eq hr] at hs
  have hjm := hcalls.1.1
  rcases Nat.lt_trichotomy j k with hlt | rfl | hlt
  · -- The round of an earlier store has returned by then.
    have hempty := hu k (by rw [hk.2.1]; exact Option.some_ne_none _)
    have hzero : r.depth k = 0 := congrArg List.length hempty
    have hdeep := hcalls.1.2 k (Nat.le_of_lt hm) hlt
    rw [depth_fired hf, hzero] at hdeep
    exact absurd hdeep (Nat.not_succ_le_zero _)
  · exact Option.some.inj (hs.symm.trans hk.2.1)
  · rw [hk.2.2 j hlt (Nat.lt_trans hjm hn)] at hs
    cases hs

theorem handlers_of_attached (ha : r.attached? a = some (name, id, h)) (hk : a < k)
    (hkeep : ∀ m, a < m → m < k → r.named? m ≠ some name) : (id, h) ∈ r.handlers k := by
  rw [handlers_eq]
  exact List.mem_map_of_mem (mem_roll.mpr ⟨a, hk, ha, hkeep⟩)

/-- When nothing is under way any more, a handler that was attached before the last store was told
last what that stored. -/
theorem Unnested.received_last (hu : r.Unnested) (hr : ∀ k, (r.turn k).StoresOnly)
    (hk : r.StoredLast k n value) (hstack : (r.state n).stack = []) (hin : (id, h) ∈ r.handlers k) :
    (r.received n id).getLast? = some value := by
  have hf := fired?_of_stored? hk.2.1
  have hshallow : r.depth n < r.depth (k + 1) := by
    rw [depth_fired hf, depth, hstack]
    exact Nat.succ_pos _
  obtain ⟨n', hn', hreturns⟩ := exists_returns hk.1 hshallow
  have hcall : ⟨id, h, value⟩ ∈ r.calls k n' := by
    rw [hreturns.calls_eq hf]
    exact List.mem_map.mpr ⟨(id, h), hin, rfl⟩
  obtain ⟨m, hm, hfor⟩ := List.mem_filterMap.mp hcall
  obtain ⟨⟨hkm, -⟩, hcalled⟩ := callFor?_eq_some.mp hfor
  have hmn : m < n := Nat.lt_trans (List.mem_range.mp hm) hn'
  refine getLast?_received hkm hmn (told?_eq_some.mpr ⟨h, hcalled⟩) ?_
  intro i v hki hin' ht
  obtain ⟨h', hc⟩ := told?_eq_some.mp ht
  exact hu.told hr hk hki hin' hc

theorem stored_of_received (hr : ∀ k, (r.turn k).StoresOnly)
    (ha : r.attached? a = some (name, id, h)) (hv : value ∈ r.received n id) :
    ∃ k, a < k ∧ k < n ∧ r.stored? k = some value := by
  obtain ⟨m, hm, ht⟩ := List.mem_filterMap.mp hv
  obtain ⟨h', hc⟩ := told?_eq_some.mp ht
  obtain ⟨k, hf, hcalls⟩ := exists_callsAt hc
  refine ⟨k, ?_, Nat.lt_trans hcalls.1.1 (List.mem_range.mp hm), fired?_eq hr k ▸ hf⟩
  by_contra hle
  have hlt := handlers_lt (hcalls.mem_handlers hf).1 (Nat.le_of_not_lt hle)
  rw [← attached?_number ha] at hlt
  exact Nat.lt_irrefl id hlt

/-- What is remembered and told in a run. -/
structure Remembers (r : Run κ α) : Prop where
  /-- What was stored last is remembered, at any time. -/
  current : ∀ n, (∃ k, r.StoredLast k n (r.state n).remembered) ∨
    (∀ k < n, r.stored? k = none) ∧ (r.state n).remembered = r.initial
  /-- A turn that stores a value starts one round of it, of the handlers that are attached. -/
  stored : ∀ k value, r.stored? k = some value → (r.state (k + 1)).remembered = value ∧
    (r.state (k + 1)).journal = .started value (r.handlers k) :: (r.state k).journal
  /-- No other turn starts a round. -/
  rounds : ∀ k, r.fired? k = r.stored? k
  /-- The round calls these handlers, each once and in their order. -/
  calls : ∀ k n value, r.stored? k = some value → r.Returns k n →
    r.calls k n = (r.handlers k).map fun e => ⟨e.1, e.2, value⟩
  begun : ∀ k n value, r.stored? k = some value → r.Lasts k n →
    r.calls k n <+: (r.handlers k).map fun e => ⟨e.1, e.2, value⟩
  /-- However rounds lie in one another, each returns if there is a bound to their depth. -/
  returns : ∀ k value bound, r.stored? k = some value → r.Confined k bound → ∃ n, r.Returns k n
  /-- Every call is made by one round. -/
  caller : ∀ m c, r.called? m = some c → ∃! k, r.stored? k = some c.value ∧ r.CallsAt k m c
  /-- A revision tells whether it stored a value; if not, it does nothing. -/
  revised : ∀ k revise, r.made? k = some (.store revise) →
    ((r.state k).revises (.store revise) = true ↔ ∃ value, r.stored? k = some value)
  unrevised : ∀ k revise, r.made? k = some (.store revise) →
    revise (r.state k).remembered = none → (r.state k).revises (.store revise) = false ∧
      ∃ stack, r.state (k + 1) = { r.state k with stack := stack } ∧ stack.length = r.depth k
  /-- A handler finds the value that it was called with, or the last one that was stored since
  within the round that called it. -/
  finds : ∀ k m n c, r.stored? k = some c.value → r.CallsAt k m c → r.Running m n →
    ∃ j, r.StoredLast j n (r.state n).remembered ∧
      (j = k ∧ (r.state n).remembered = c.value ∨ r.Lasts k j)
  /-- Where no handler stores, an attached handler was told last what is remembered; and it was told
  something if anything was stored since it was attached. -/
  heard : r.Unnested → ∀ a n name id h, r.attached? a = some (name, id, h) → a < n →
    (∀ m, a < m → m < n → r.named? m ≠ some name) → (r.state n).stack = [] →
      (∀ value, (r.received n id).getLast? = some value → (r.state n).remembered = value) ∧
      ((∃ k value, a < k ∧ k < n ∧ r.stored? k = some value) → r.received n id ≠ [])
  /-- A store made while nothing is under way comes to its end if there is such a bound. -/
  settles : ∀ k bound respond revise, r.turn k = .move (.store revise) → (r.state k).stack = [] →
    (∀ n, r.Lasts k n → r.turn n = .work respond ∧ r.depth n ≤ bound) →
      ∃ n limit, k < n ∧ (r.state n).stack = [] ∧
        (r.state k).act? respond limit (.store revise) = some (r.state n)

end Run

/-- A value is remembered before it is told. In a run in which rounds are started by stores only,
whoever is called finds the value that it is called with or one that was stored later. -/
theorem values_remembered (r : Run κ α) (hr : ∀ k, (r.turn k).StoresOnly) : r.Remembers where
  current := r.remembered_eq
  stored k value hs := by
    refine ⟨?_, Run.journal_stored hs⟩
    rw [Run.remembered_succ, hs, Option.getD_some]
  rounds := Run.fired?_eq hr
  calls _ _ _ hs hret := hret.calls_eq (Run.fired?_of_stored? hs)
  begun _ _ _ hs hl := hl.calls_prefix (Run.fired?_of_stored? hs)
  returns _ _ _ hs hconfined := hconfined.returns (Run.fired?_of_stored? hs)
  caller m c hc := by
    obtain ⟨k, hf, hcalls⟩ := Run.exists_callsAt hc
    refine ⟨k, ⟨Run.fired?_eq hr k ▸ hf, hcalls⟩, ?_⟩
    rintro j ⟨hs, hj⟩
    exact hj.unique hcalls (Run.fired?_of_stored? hs) hf
  revised k revise hm := by
    rw [Delivery.revises_eq, Run.stored?, hm, Option.bind_some, Option.isSome_iff_exists]
  unrevised k revise hm hnone := by
    refine ⟨?_, Delivery.next_unrevised hm hnone⟩
    rw [Delivery.revises_eq, Delivery.stores?, hnone, Option.isSome_none]
  finds k m n c hs hcalls hn := by
    obtain ⟨j, hj, rfl | hl⟩ := hcalls.finds hs hn
    · exact ⟨j, hj, Or.inl ⟨rfl, Option.some.inj (hj.2.1.symm.trans hs)⟩⟩
    · exact ⟨j, hj, Or.inr hl⟩
  heard hu a n name id h ha _ hkeep hstack := by
    -- Any store after the attachment leads to the last one, which the handler was told of.
    have hlast {k : Nat} {value : α} (hk : a < k) (hkn : k < n) (hs : r.stored? k = some value) :
        (r.received n id).getLast? = some (r.state n).remembered := by
      obtain ⟨j, hkj, hj⟩ := Run.exists_storedLast hs hkn
      have haj : a < j := Nat.lt_of_lt_of_le hk hkj
      refine hu.received_last hr hj hstack (Run.handlers_of_attached ha haj ?_)
      intro m ham hmj
      exact hkeep m ham (Nat.lt_trans hmj hj.1)
    constructor
    · intro value hvalue
      obtain ⟨k, hk, hkn, hs⟩ := Run.stored_of_received hr ha (List.mem_of_getLast? hvalue)
      exact Option.some.inj ((hlast hk hkn hs).symm.trans hvalue)
    · rintro ⟨k, value, hk, hkn, hs⟩ hnil
      have hsome := hlast hk hkn hs
      rw [hnil] at hsome
      cases hsome
  settles _ _ _ _ ht hstack hw := Run.act?_ends ht hstack fun _ => hw

/-- The first handler stores a greater value when it is called with seven, and then revises nothing;
so the second one is told of the greater value before it is told of seven. -/
def overtakingRun : Run String Nat where
  initial := 0
  turn
    | 0 => .move (.attach "a" "first")
    | 1 => .move (.attach "b" "second")
    | 2 => .move (.store fun _ => some 7)
    | _ => .work fun handler value =>
      match handler, value with
      | "first", 7 => [.store fun v => some (v + 1), .store fun _ => none]
      | _, _ => []

theorem overtaken_value_found : (∀ k, (overtakingRun.turn k).StoresOnly) ∧
    overtakingRun.received 15 1 = [8, 7] ∧
    overtakingRun.CallsAt 2 12 ⟨1, "second", 7⟩ ∧ overtakingRun.Running 12 13 ∧
      ∃ j, overtakingRun.StoredLast j 13 8 ∧ overtakingRun.Lasts 2 j := by
  have hstores : ∀ k, (overtakingRun.turn k).StoresOnly := by
    have hanswer : ∀ handler value, ∀ m ∈ (match handler, value with
        | "first", 7 => [.store fun v => some (v + 1), .store fun _ => none]
        | _, _ => [] : List (Move String Nat)), m.StoresOnly := by
      intro handler value m hm
      split at hm
      · rcases List.mem_cons.mp hm with rfl | hm
        · trivial
        · obtain rfl := List.mem_singleton.mp hm
          trivial
      · exact absurd hm List.not_mem_nil
    intro k
    match k with
    | 0 => trivial
    | 1 => trivial
    | 2 => trivial
    | k + 3 => exact hanswer
  have hr := values_remembered overtakingRun hstores
  have hcalls : overtakingRun.CallsAt 2 12 ⟨1, "second", 7⟩ := ⟨by decide, by decide⟩
  have hrunning : overtakingRun.Running 12 13 := Or.inr (by decide)
  refine ⟨hstores, by decide, hcalls, hrunning, ?_⟩
  obtain ⟨j, hj, ⟨-, hvalue⟩ | hl⟩ := hr.finds 2 12 13 _ (by decide) hcalls hrunning
  · exact absurd hvalue (by decide)
  · exact ⟨j, hj, hl⟩

end DocSync.Signal
