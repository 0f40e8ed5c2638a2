import DocSync.Proofs.SignalTurns

/-!
How rounds lie in one another. A round under way was started by one earlier turn and has not
returned since, so each call is made by one round. Work that is left to itself, and whose rounds lie
in one another to a bounded depth only, comes to its end: each step leaves less to do in the
innermost work, and what it starts is deeper.
-/

namespace DocSync.Signal

variable {κ α : Type}

/-- How many calls or moves are left in a piece of work. -/
def Frame.size : Frame κ α → Nat
  | .round _ left => left.length
  | .moves left => left.length

namespace Delivery

variable {d : Delivery κ α} {t : Turn κ α} {value : α} {left : List (Nat × κ)}
  {top rest : List (Frame κ α)} {frame : Frame κ α}

theorem perform_origin {m : Move κ α}
    (hs : (d.perform m).stack = top ++ .round value left :: rest) :
    (∃ top', d.stack = top' ++ .round value left :: rest) ∨
      top = [] ∧ d.fires? m = some value := by
  rw [perform_stack] at hs
  cases hf : d.fires? m with
  | none =>
    rw [hf] at hs
    exact Or.inl ⟨top, hs⟩
  | some v =>
    rw [hf] at hs
    cases top with
    | nil =>
      cases hs
      exact Or.inr ⟨rfl, rfl⟩
    | cons frame top => exact Or.inl ⟨top, (List.cons.inj hs).2⟩

/-- A round under way after a turn was started by it, on top of all other work, or was under way
before. -/
theorem next_origin (hs : (d.next t).stack = top ++ .round value left :: rest) :
    (∃ top' left', d.stack = top' ++ .round value left' :: rest) ∨
      top = [] ∧ (d.made? t).bind d.fires? = some value := by
  cases t with
  | move m =>
    rcases perform_origin hs with ⟨top', hold⟩ | hnew
    · exact Or.inl ⟨top', left, hold⟩
    · exact Or.inr hnew
  | work respond =>
    rcases d with ⟨signal, remembered, held, stack, journal⟩
    rcases stack with _ | ⟨⟨v, _ | ⟨e, later⟩⟩ | ⟨_ | ⟨m, ms⟩⟩, below⟩
    · exact Or.inl ⟨top, left, hs⟩
    · exact Or.inl ⟨.round v [] :: top, left, congrArg (List.cons _) hs⟩
    · -- The called handler lies on top of its round.
      have hs : .moves (respond e.2 v) :: .round v later :: below =
        top ++ .round value left :: rest := hs
      rcases top with _ | ⟨called, _ | ⟨frame, top⟩⟩
      · cases hs
      · cases hs
        exact Or.inl ⟨[], e :: left, rfl⟩
      · cases hs
        exact Or.inl ⟨.round v (e :: later) :: top, left, rfl⟩
    · exact Or.inl ⟨.moves [] :: top, left, congrArg (List.cons _) hs⟩
    · rcases perform_origin (d := ⟨signal, remembered, held, .moves ms :: below, journal⟩) hs with
        ⟨top', hold⟩ | ⟨htop, hnew⟩
      · cases top' with
        | nil => cases hold
        | cons frame top' =>
          cases hold
          exact Or.inl ⟨.moves (m :: ms) :: top', left, rfl⟩
      · refine Or.inr ⟨htop, ?_⟩
        rw [← fires?_stack _ (.moves (m :: ms) :: below)] at hnew
        exact hnew

theorem length_called {c : Call κ α} (hc : d.called? t = some c) :
    (d.next t).stack.length = d.stack.length + 1 := by
  cases t with
  | move m => cases hc
  | work respond =>
    rcases d with ⟨signal, remembered, held, stack, journal⟩
    rcases stack with _ | ⟨⟨v, _ | ⟨e, later⟩⟩ | moves, below⟩
    · cases hc
    · cases hc
    · rfl
    · cases hc

theorem step_shrinks (hs : d.stack = frame :: rest) (respond : κ → α → List (Move κ α)) :
    (d.step respond).stack = rest ∨ ∃ top frame', frame'.size < frame.size ∧
      (d.step respond).stack = top ++ frame' :: rest := by
  rcases d with ⟨signal, remembered, held, stack, journal⟩
  cases hs
  rcases frame with ⟨v, _ | ⟨e, later⟩⟩ | ⟨_ | ⟨m, ms⟩⟩
  · exact Or.inl rfl
  · exact Or.inr ⟨[.moves (respond e.2 v)], .round v later, Nat.lt_succ_self _, rfl⟩
  · exact Or.inl rfl
  · obtain ⟨top, ht⟩ := perform_grows ⟨signal, remembered, held, .moves ms :: rest, journal⟩ m
    exact Or.inr ⟨top, .moves ms, Nat.lt_succ_self _, ht⟩

end Delivery

namespace Run

variable {r : Run κ α} {k j m n bound : Nat} {value : α} {left : List (Nat × κ)}
  {top rest : List (Frame κ α)} {frame : Frame κ α} {c : Call κ α}

theorem depth_called (hc : r.called? m = some c) : r.depth (m + 1) = r.depth m + 1 :=
  Delivery.length_called hc

theorem depth_fired (hf : r.fired? k = some value) : r.depth (k + 1) = r.depth k + 1 := by
  obtain ⟨below, hlength, hs, -⟩ := Delivery.next_fired hf
  rw [depth, state, hs, List.length_cons, hlength, depth]

theorem exists_source (hs : (r.state n).stack = top ++ .round value left :: rest) :
    ∃ k, r.fired? k = some value ∧ r.depth (k + 1) = rest.length + 1 ∧ r.Lasts k n := by
  have hdepth {n : Nat} {top : List (Frame κ α)} {left : List (Nat × κ)}
      (hs : (r.state n).stack = top ++ .round value left :: rest) :
      rest.length + 1 ≤ r.depth n := by
    rw [depth, hs, List.length_append, List.length_cons]
    omega
  induction n generalizing top left with
  | zero =>
    cases top with
    | nil => cases hs
    | cons frame top => cases hs
  | succ n ih =>
    rcases Delivery.next_origin hs with ⟨top', left', hold⟩ | ⟨rfl, hf⟩
    · obtain ⟨k, hf, hk, hlt, hl⟩ := ih hold
      refine ⟨k, hf, hk, Nat.lt_succ_of_lt hlt, ?_⟩
      intro m hm hkm
      rcases Nat.le_succ_iff.mp hm with hm | rfl
      · exact hl m hm hkm
      · rw [hk]
        exact hdepth hs
    · refine ⟨n, hf, congrArg List.length hs, Nat.lt_succ_self n, ?_⟩
      intro m hm hn
      obtain rfl : m = n + 1 := Nat.le_antisymm hm hn
      exact Nat.le_refl _

/-- A round makes the call of a turn. -/
def CallsAt (r : Run κ α) (k m : Nat) (c : Call κ α) : Prop :=
  r.Lasts k m ∧ r.callFor? k m = some c

theorem exists_callsAt (hc : r.called? m = some c) :
    ∃ k, r.fired? k = some c.value ∧ r.CallsAt k m c := by
  have hs : ∃ left rest,
      (r.state m).stack = [] ++ .round c.value ((c.id, c.handler) :: left) :: rest := by
    cases ht : r.turn m with
    | move m' =>
      rw [called?, ht] at hc
      cases hc
    | work respond =>
      rw [called?, ht, Delivery.called?] at hc
      split at hc
      · next left rest hs =>
        cases hc
        exact ⟨left, rest, hs⟩
      · cases hc
  obtain ⟨left, rest, hs⟩ := hs
  obtain ⟨k, hf, hk, hl⟩ := exists_source hs
  have hlevel : r.depth m = r.depth (k + 1) := by
    rw [hk]
    exact congrArg List.length hs
  exact ⟨k, hf, hl, callFor?_eq_some.mpr ⟨⟨hl.1, hlevel⟩, hc⟩⟩

theorem CallsAt.called (h : r.CallsAt k m c) :
    r.called? m = some c ∧ r.depth m = r.depth (k + 1) := by
  obtain ⟨⟨-, hlevel⟩, hcalled⟩ := callFor?_eq_some.mp h.2
  exact ⟨hcalled, hlevel⟩

theorem CallsAt.mem_handlers (h : r.CallsAt k m c) (hf : r.fired? k = some value) :
    (c.id, c.handler) ∈ r.handlers k ∧ c.value = value := by
  obtain ⟨hcalled, hlevel⟩ := h.called
  obtain ⟨left, ⟨top, rest, hs, hrest⟩, hcalls⟩ := h.1.underway hf
  obtain rfl : top = [] := by
    rw [← hrest, depth, hs, List.length_append, List.length_cons] at hlevel
    exact List.length_eq_zero_iff.mp (by omega)
  have hmem : c ∈ left.map fun e => (⟨e.1, e.2, value⟩ : Call κ α) := by
    rcases Delivery.next_round hs (r.turn m) with ⟨hnone, -⟩ | ⟨e, later, rfl, hc, -⟩ |
      ⟨-, hnone, -⟩
    · cases hnone.symm.trans hcalled
    · obtain rfl := Option.some.inj (hc.symm.trans hcalled)
      exact List.mem_cons_self
    · cases hnone.symm.trans hcalled
  have hall := List.mem_append_right (r.calls k m) hmem
  rw [hcalls] at hall
  obtain ⟨e, he, rfl⟩ := List.mem_map.mp hall
  exact ⟨he, rfl⟩

theorem Lasts.deeper (hk : r.Lasts k n) (hj : r.Lasts j n) (hf : r.fired? j = some value)
    (hlt : k < j) : r.depth (k + 1) < r.depth (j + 1) := by
  have hbelow := hk.2 j (Nat.le_of_lt hj.1) hlt
  rw [depth_fired hf]
  omega

theorem CallsAt.unique {w : α} (hk : r.CallsAt k m c) (hj : r.CallsAt j m c)
    (hfk : r.fired? k = some value) (hfj : r.fired? j = some w) : k = j := by
  have hsame : r.depth (k + 1) = r.depth (j + 1) := hk.called.2.symm.trans hj.called.2
  rcases Nat.lt_trichotomy k j with hlt | he | hlt
  · exact absurd hsame (Nat.ne_of_lt (hk.1.deeper hj.1 hfj hlt))
  · exact he
  · exact absurd hsame.symm (Nat.ne_of_lt (hj.1.deeper hk.1 hfk hlt))

theorem exists_returns (hk : k < m) (hd : r.depth m < r.depth (k + 1)) :
    ∃ n < m, r.Returns k n := by
  induction m using Nat.strongRecOn with
  | ind m ih =>
    obtain ⟨n, rfl⟩ := Nat.exists_eq_succ_of_ne_zero (Nat.ne_zero_of_lt hk)
    by_cases hl : r.Lasts k n
    · exact ⟨n, Nat.lt_succ_self n, hl, hd⟩
    · have hkn : k < n := by
        rcases Nat.lt_succ_iff_lt_or_eq.mp hk with hlt | rfl
        · exact hlt
        · exact absurd hd (Nat.lt_irrefl _)
      have hearly : ∃ i ≤ n, k < i ∧ r.depth i < r.depth (k + 1) := by
        by_contra hnone
        apply hl
        refine ⟨hkn, ?_⟩
        intro i hi hki
        by_contra hlt
        exact hnone ⟨i, hi, hki, Nat.lt_of_not_le hlt⟩
      obtain ⟨i, hi, hki, hdi⟩ := hearly
      obtain ⟨n', hn', hr⟩ := ih i (Nat.lt_succ_of_le hi) hki hdi
      exact ⟨n', Nat.lt_of_lt_of_le hn' (Nat.le_succ_of_le hi), hr⟩

/-- As long as a round lasts, the work is left to itself and no deeper than a bound. -/
def Confined (r : Run κ α) (k bound : Nat) : Prop :=
  ∀ n, r.Lasts k n → r.depth n ≤ bound ∧ ∃ respond, r.turn n = .work respond

/-- Work that is left to itself and no deeper than a bound gets down to any piece of work that is
under way, and ends it. -/
theorem work_ends (hr : ∀ n, k < n → r.depth n ≤ bound ∧ ∃ respond, r.turn n = .work respond)
    (hk : k < n) (hs : (r.state n).stack = top ++ frame :: rest) :
    ∃ m ≥ n, (r.state m).stack = rest := by
  -- The depth that is left decides how deep the work can go, and the size of the frame how often.
  obtain ⟨room, hroom⟩ : ∃ room, bound ≤ rest.length + room := ⟨bound, Nat.le_add_left _ _⟩
  induction room generalizing n top frame rest with
  | zero =>
    have hbound := (hr n hk).1
    rw [depth, hs, List.length_append, List.length_cons] at hbound
    omega
  | succ room deeper =>
    induction hsize : frame.size using Nat.strongRecOn generalizing n top frame with
    | ind size ih =>
      have hbare : ∃ m ≥ n, (r.state m).stack = frame :: rest := by
        rcases List.eq_nil_or_concat top with rfl | ⟨above, last, rfl⟩
        · exact ⟨n, Nat.le_refl n, hs⟩
        · rw [List.concat_eq_append, List.append_assoc, List.singleton_append] at hs
          refine deeper hk hs ?_
          rw [List.length_cons]
          omega
      obtain ⟨m, hm, hbare⟩ := hbare
      obtain ⟨-, respond, hturn⟩ := hr m (Nat.lt_of_lt_of_le hk hm)
      have hnext : r.state (m + 1) = (r.state m).step respond := by
        rw [state, hturn]
        rfl
      rcases Delivery.step_shrinks hbare respond with hend | ⟨above, frame', hless, hgoes⟩
      · exact ⟨m + 1, Nat.le_succ_of_le hm, hnext ▸ hend⟩
      · rw [← hnext] at hgoes
        obtain ⟨i, hi, hrest⟩ := ih frame'.size (hsize ▸ hless) (by omega) hgoes rfl
        exact ⟨i, by omega, hrest⟩

theorem Confined.returns (hr : r.Confined k bound) (hf : r.fired? k = some value) :
    ∃ n, r.Returns k n := by
  obtain ⟨below, -, hs, -⟩ := Delivery.next_fired hf
  have hs : (r.state (k + 1)).stack = [] ++ .round value (r.handlers k) :: below := hs
  by_contra hnone
  have hlasts : ∀ n, k < n → r.Lasts k n := by
    intro n hn
    refine ⟨hn, ?_⟩
    intro m _ hm
    by_contra hshallow
    obtain ⟨i, -, hi⟩ := exists_returns hm (Nat.lt_of_not_le hshallow)
    exact hnone ⟨i, hi⟩
  have hwork : ∀ n, k < n → r.depth n ≤ bound ∧ ∃ respond, r.turn n = .work respond := by
    intro n hn
    exact hr n (hlasts n hn)
  obtain ⟨m, hm, hbelow⟩ := work_ends hwork (Nat.lt_succ_self k) hs
  have hdeep := (hlasts m hm).2 m (Nat.le_refl m) hm
  rw [depth, depth, hbelow, hs] at hdeep
  exact absurd hdeep (Nat.not_succ_le_self _)

end Run

end DocSync.Signal
