import DocSync.Proofs.Lookup
import DocSync.Signal.Delivery

/-!
Turns of a delivery. A turn is a move of whoever has control, or the next small piece of the work
under way, in which the answers of the handlers may differ from turn to turn. What starts a round
lies on top of all that was under way, so the calls of a round are those that are made at its depth
before it returns.
-/

namespace DocSync.Signal

/-- A move made from outside or by the code that is running, or a step of the work under way. -/
inductive Turn (κ α : Type) where
  | move (m : Move κ α)
  | work (respond : κ → α → List (Move κ α))

structure Call (κ α : Type) where
  id : Nat
  handler : κ
  value : α
  deriving DecidableEq, Repr

namespace Delivery

variable {κ α : Type} {d : Delivery κ α} {m : Move κ α} {t : Turn κ α}

def next (d : Delivery κ α) : Turn κ α → Delivery κ α
  | .move m => d.perform m
  | .work respond => d.step respond

/-- The move that a turn makes. -/
def made? (d : Delivery κ α) : Turn κ α → Option (Move κ α)
  | .move m => some m
  | .work _ =>
    match d.stack with
    | .moves (m :: _) :: _ => some m
    | _ => none

/-- The call that a turn makes. -/
def called? (d : Delivery κ α) : Turn κ α → Option (Call κ α)
  | .move _ => none
  | .work _ =>
    match d.stack with
    | .round value ((id, handler) :: _) :: _ => some ⟨id, handler, value⟩
    | _ => none

/-- The value of the round that a move starts. -/
def fires? (d : Delivery κ α) : Move κ α → Option α
  | .fire value => some value
  | .store revise => revise d.remembered
  | _ => none

theorem release_stack (d : Delivery κ α) (name : String) : (d.release name).stack = d.stack := by
  simp only [release]
  split <;> rfl

theorem release_journal (d : Delivery κ α) (name : String) :
    (d.release name).journal = d.journal := by
  simp only [release]
  split <;> rfl

theorem attach_stack (d : Delivery κ α) (name : String) (handler : κ) :
    (d.attach name handler).stack = d.stack := release_stack _ name

theorem attach_journal (d : Delivery κ α) (name : String) (handler : κ) :
    (d.attach name handler).journal = d.journal := release_journal _ name

theorem release_remembered (d : Delivery κ α) (name : String) :
    (d.release name).remembered = d.remembered := by
  simp only [release]
  split <;> rfl

theorem attach_remembered (d : Delivery κ α) (name : String) (handler : κ) :
    (d.attach name handler).remembered = d.remembered := release_remembered _ name

theorem perform_stack (d : Delivery κ α) (m : Move κ α) :
    (d.perform m).stack =
      ((d.fires? m).map fun v => .round v d.signal.handlers).toList ++ d.stack := by
  cases m with
  | attach name handler => exact attach_stack d name handler
  | release name => exact release_stack d name
  | fire value => rfl
  | store revise =>
    simp only [perform, fires?]
    cases revise d.remembered <;> rfl

theorem perform_grows (d : Delivery κ α) (m : Move κ α) :
    ∃ top, (d.perform m).stack = top ++ d.stack :=
  ⟨_, perform_stack d m⟩

theorem perform_journal (d : Delivery κ α) (m : Move κ α) :
    (d.perform m).journal =
      ((d.fires? m).map fun v => .started v d.signal.handlers).toList ++ d.journal := by
  cases m with
  | attach name handler => exact attach_journal d name handler
  | release name => exact release_journal d name
  | fire value => rfl
  | store revise =>
    simp only [perform, fires?]
    cases revise d.remembered <;> rfl

theorem fires?_stack (d : Delivery κ α) (stack : List (Frame κ α)) (m : Move κ α) :
    ({ d with stack := stack } : Delivery κ α).fires? m = d.fires? m := by
  cases m <;> rfl

theorem next_made (hm : d.made? t = some m) : ∃ stack, stack.length = d.stack.length ∧
    d.next t = ({ d with stack := stack }).perform m := by
  cases t with
  | move m' =>
    obtain rfl := Option.some.inj hm
    exact ⟨d.stack, rfl, rfl⟩
  | work respond =>
    rcases d with ⟨signal, remembered, held, stack, journal⟩
    rcases stack with _ | ⟨⟨value, left⟩ | ⟨_ | ⟨m', ms⟩⟩, rest⟩
    · cases hm
    · cases hm
    · cases hm
    · obtain rfl := Option.some.inj hm
      exact ⟨.moves ms :: rest, rfl, rfl⟩

theorem next_fired {value : α} (hf : (d.made? t).bind d.fires? = some value) :
    ∃ below, below.length = d.stack.length ∧
      (d.next t).stack = .round value d.signal.handlers :: below ∧
      (d.next t).journal = .started value d.signal.handlers :: d.journal := by
  obtain ⟨m, hm, hfires⟩ := Option.bind_eq_some_iff.mp hf
  obtain ⟨stack, hlength, he⟩ := next_made hm
  refine ⟨stack, hlength, ?_, ?_⟩
  · rw [he, perform_stack, fires?_stack, hfires]
    rfl
  · rw [he, perform_journal, fires?_stack, hfires]
    rfl

theorem next_unmade (hm : d.made? t = none) :
    ∃ stack journal, d.next t = { d with stack := stack, journal := journal } := by
  cases t with
  | move m' => cases hm
  | work respond =>
    rcases d with ⟨signal, remembered, held, stack, journal⟩
    rcases stack with _ | ⟨⟨value, _ | ⟨e, left⟩⟩ | ⟨_ | ⟨m', ms⟩⟩, rest⟩
    · exact ⟨_, _, rfl⟩
    · exact ⟨_, _, rfl⟩
    · exact ⟨_, _, rfl⟩
    · exact ⟨_, _, rfl⟩
    · cases hm

theorem next_stack_cons {frame : Frame κ α} {rest : List (Frame κ α)}
    (hs : d.stack = frame :: rest) (t : Turn κ α) : ∃ top, (d.next t).stack = top ++ rest := by
  cases t with
  | move m =>
    obtain ⟨top, ht⟩ := perform_grows d m
    refine ⟨top ++ [frame], ?_⟩
    rw [List.append_assoc, List.singleton_append, ← hs]
    exact ht
  | work respond =>
    rcases d with ⟨signal, remembered, held, stack, journal⟩
    cases hs
    rcases frame with ⟨value, _ | ⟨e, left⟩⟩ | ⟨_ | ⟨m, ms⟩⟩
    · exact ⟨[], rfl⟩
    · exact ⟨[_, _], rfl⟩
    · exact ⟨[], rfl⟩
    · obtain ⟨top, ht⟩ := perform_grows ⟨signal, remembered, held, .moves ms :: rest, journal⟩ m
      refine ⟨top ++ [.moves ms], ?_⟩
      rw [List.append_assoc]
      exact ht

/-- What becomes of the innermost round: a move leaves it as it is, or its next handler is called,
or it is over. -/
theorem next_round {value : α} {left : List (Nat × κ)} {rest : List (Frame κ α)}
    (hs : d.stack = .round value left :: rest) (t : Turn κ α) :
    (d.called? t = none ∧ ∃ top, (d.next t).stack = top ++ .round value left :: rest) ∨
      (∃ e later, left = e :: later ∧ d.called? t = some ⟨e.1, e.2, value⟩ ∧
        ∃ top, (d.next t).stack = top ++ .round value later :: rest) ∨
      (left = [] ∧ d.called? t = none ∧ (d.next t).stack = rest) := by
  cases t with
  | move m =>
    obtain ⟨top, ht⟩ := perform_grows d m
    exact Or.inl ⟨rfl, top, hs ▸ ht⟩
  | work respond =>
    rcases d with ⟨signal, remembered, held, stack, journal⟩
    cases hs
    cases left with
    | nil => exact Or.inr (Or.inr ⟨rfl, rfl, rfl⟩)
    | cons e later => exact Or.inr (Or.inl ⟨e, later, rfl, rfl, [_], rfl⟩)

/-- The call that a turn makes or the round that it starts. -/
def occurs? (d : Delivery κ α) (t : Turn κ α) : Option (Occurrence κ α) :=
  ((d.called? t).map fun c => .called c.id c.handler c.value d.remembered).or
    (((d.made? t).bind d.fires?).map fun v => .started v d.signal.handlers)

theorem next_journal (d : Delivery κ α) (t : Turn κ α) :
    (d.next t).journal = (d.occurs? t).toList ++ d.journal := by
  cases t with
  | move m => exact perform_journal d m
  | work respond =>
    rcases d with ⟨signal, remembered, held, stack, journal⟩
    rcases stack with _ | ⟨⟨value, _ | ⟨e, left⟩⟩ | ⟨_ | ⟨m, ms⟩⟩, rest⟩
    · rfl
    · rfl
    · rfl
    · rfl
    · have hp := perform_journal (⟨signal, remembered, held, .moves ms :: rest, journal⟩) m
      cases m <;> exact hp

end Delivery

/-- An unending run of a signal that has no handler at first. -/
structure Run (κ α : Type) where
  initial : α
  turn : Nat → Turn κ α

namespace Run

variable {κ α : Type} {r : Run κ α} {k n : Nat} {value : α}

def state (r : Run κ α) : Nat → Delivery κ α
  | 0 => .start r.initial
  | k + 1 => (r.state k).next (r.turn k)

def made? (r : Run κ α) (k : Nat) : Option (Move κ α) := (r.state k).made? (r.turn k)

def called? (r : Run κ α) (k : Nat) : Option (Call κ α) := (r.state k).called? (r.turn k)

/-- The value of the round that a turn starts. -/
def fired? (r : Run κ α) (k : Nat) : Option α := (r.made? k).bind (r.state k).fires?

def handlers (r : Run κ α) (k : Nat) : List (Nat × κ) := (r.state k).signal.handlers

def depth (r : Run κ α) (k : Nat) : Nat := (r.state k).stack.length

/-- What a turn started has not returned before another turn. -/
def Lasts (r : Run κ α) (k n : Nat) : Prop :=
  k < n ∧ ∀ m ≤ n, k < m → r.depth (k + 1) ≤ r.depth m

/-- A turn is the last of what another started. -/
def Returns (r : Run κ α) (k n : Nat) : Prop :=
  r.Lasts k n ∧ r.depth (n + 1) < r.depth (k + 1)

instance (r : Run κ α) (k n : Nat) : Decidable (r.Lasts k n) :=
  inferInstanceAs (Decidable (_ ∧ ∀ m ≤ n, _ → _))

instance (r : Run κ α) (k n : Nat) : Decidable (r.Returns k n) :=
  inferInstanceAs (Decidable (_ ∧ _))

/-- The call that a turn makes for the round of an earlier one: it lies just on top of what that
round lies on. -/
def callFor? (r : Run κ α) (k m : Nat) : Option (Call κ α) :=
  if k < m ∧ r.depth m = r.depth (k + 1) then r.called? m else none

theorem callFor?_eq_some {c : Call κ α} :
    r.callFor? k n = some c ↔ (k < n ∧ r.depth n = r.depth (k + 1)) ∧ r.called? n = some c := by
  rw [callFor?]
  split
  · next h => simp [h]
  · next h => simp [h]

/-- The calls that a round makes itself before a turn, in their order. -/
def calls (r : Run κ α) (k n : Nat) : List (Call κ α) :=
  (List.range n).filterMap (r.callFor? k)

theorem calls_succ (r : Run κ α) (k n : Nat) :
    r.calls k (n + 1) = r.calls k n ++ (r.callFor? k n).toList := by
  rw [calls, List.range_succ, List.filterMap_append]
  rfl

theorem calls_start (r : Run κ α) (k : Nat) : r.calls k (k + 1) = [] := by
  refine List.filterMap_eq_nil_iff.mpr fun m hm => if_neg ?_
  have hlt := List.mem_range.mp hm
  omega

/-- The round lies under the work of its current handler; with those yet to be called, the handlers
that it called are all that were attached when it started. -/
structure Underway (r : Run κ α) (k n : Nat) (value : α) (left : List (Nat × κ)) : Prop where
  stack : ∃ top rest, (r.state n).stack = top ++ .round value left :: rest ∧
    rest.length + 1 = r.depth (k + 1)
  calls : r.calls k n ++ left.map (fun e => ⟨e.1, e.2, value⟩) =
    (r.handlers k).map fun e => ⟨e.1, e.2, value⟩

theorem underway_start (hf : r.fired? k = some value) :
    r.Underway k (k + 1) value (r.handlers k) := by
  obtain ⟨below, -, hstack, -⟩ := Delivery.next_fired hf
  have hstack : (r.state (k + 1)).stack = .round value (r.handlers k) :: below := hstack
  refine ⟨⟨[], below, hstack, by simp [depth, hstack]⟩, ?_⟩
  rw [calls_start]
  rfl

/-- One turn while a round is under way: the handlers yet to be called stay, or the first of them is
called, or none was left and the round returns. -/
theorem Underway.next {left : List (Nat × κ)} (hu : r.Underway k n value left) (hk : k < n) :
    (∃ left, r.Underway k (n + 1) value left) ∨
      left = [] ∧ r.callFor? k n = none ∧ r.depth (n + 1) < r.depth (k + 1) := by
  obtain ⟨⟨top, rest, hs, hrest⟩, hcalls⟩ := hu
  cases top with
  | cons frame top =>
    -- Deeper work goes on, which is none of the round's own.
    obtain ⟨new, hnew⟩ := Delivery.next_stack_cons hs (r.turn n)
    have hdeep : r.depth n ≠ r.depth (k + 1) := by
      simp only [depth, hs, List.length_append, List.length_cons] at hrest ⊢
      omega
    have hnone : r.callFor? k n = none := if_neg fun h => hdeep h.2
    refine Or.inl ⟨left, ⟨new ++ top, rest, ?_, hrest⟩, ?_⟩
    · rw [List.append_assoc]
      exact hnew
    · rw [calls_succ, hnone]
      simpa using hcalls
  | nil =>
    have hlevel : r.depth n = r.depth (k + 1) := by
      rw [← hrest]
      exact congrArg List.length hs
    have hown : r.callFor? k n = r.called? n := if_pos ⟨hk, hlevel⟩
    rcases Delivery.next_round hs (r.turn n) with ⟨hc, new, hnew⟩ | ⟨e, later, rfl, hc, new, hnew⟩ |
      ⟨rfl, hc, hnew⟩
    · refine Or.inl ⟨left, ⟨new, rest, hnew, hrest⟩, ?_⟩
      rw [calls_succ, hown, called?, hc]
      simpa using hcalls
    · refine Or.inl ⟨later, ⟨new, rest, hnew, hrest⟩, ?_⟩
      rw [calls_succ, hown, called?, hc]
      simpa using hcalls
    · refine Or.inr ⟨rfl, hown.trans hc, ?_⟩
      have hn : r.depth (n + 1) = rest.length := congrArg List.length hnew
      omega

theorem Lasts.underway (hl : r.Lasts k n) (hf : r.fired? k = some value) :
    ∃ left, r.Underway k n value left := by
  obtain ⟨hk, hl⟩ := hl
  induction n with
  | zero => omega
  | succ n ih =>
    rcases Nat.lt_succ_iff_lt_or_eq.mp hk with hlt | rfl
    · obtain ⟨left, hu⟩ := ih hlt fun m hn => hl m (by omega)
      rcases hu.next hlt with hu | ⟨_, _, hd⟩
      · exact hu
      · have := hl (n + 1) (Nat.le_refl _) hk
        omega
    · exact ⟨_, underway_start hf⟩

theorem Lasts.calls_prefix (hl : r.Lasts k n) (hf : r.fired? k = some value) :
    r.calls k n <+: (r.handlers k).map fun e => ⟨e.1, e.2, value⟩ := by
  obtain ⟨left, hu⟩ := hl.underway hf
  exact ⟨_, hu.calls⟩

theorem Returns.calls_eq (hr : r.Returns k n) (hf : r.fired? k = some value) :
    r.calls k n = (r.handlers k).map fun e => ⟨e.1, e.2, value⟩ := by
  obtain ⟨hl, hd⟩ := hr
  obtain ⟨left, hu⟩ := hl.underway hf
  rcases hu.next hl.1 with ⟨later, ⟨top, rest, hs, hrest⟩, _⟩ | ⟨rfl, _, _⟩
  · have hdeep : rest.length < r.depth (n + 1) := by
      simp only [depth, hs, List.length_append, List.length_cons]
      omega
    omega
  · rw [← hu.calls]
    exact (List.append_nil _).symm

theorem journal_eq (r : Run κ α) (n : Nat) :
    (r.state n).journal.reverse =
      (List.range n).filterMap fun m => (r.state m).occurs? (r.turn m) := by
  induction n with
  | zero => rfl
  | succ n ih =>
    rw [state, Delivery.next_journal, List.range_succ, List.filterMap_append, ← ih,
      List.reverse_append]
    cases ho : (r.state n).occurs? (r.turn n) <;> simp [ho]

end Run

end DocSync.Signal
