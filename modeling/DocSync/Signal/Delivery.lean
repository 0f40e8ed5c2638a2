import DocSync.Keyed
import DocSync.Signal

/-!
Delivery under re-entrancy. Firing starts a round: the handlers attached at that moment are called
in order with the fired value. A handler may attach and release handlers, fire, and store values,
and each of these is finished before the handler goes on. The rounds and handlers that are under way
form a stack, innermost first; `step` carries out the next small piece of work.

A remembered value is stored before its round starts. The journal lists, newest first, every round
with its handlers and every call with the value that was remembered when the call began.

Subscriptions are held outside of the handlers. A handler that is the only owner of another
subscription to its own signal is left out: it is dropped while the list of handlers is taken, gives
up what it owns there, and waits for the list without end, so no behaviour with one terminates.
-/

namespace DocSync.Signal

/-- What an owner or a handler does. Subscriptions are held under names; a new one under a name in
use takes the place of the old one, which is released after the new handler is attached. -/
inductive Move (κ α : Type) where
  | attach (name : String) (handler : κ)
  | release (name : String)
  | fire (value : α)
  /-- Replaces the remembered value by a function of it, unless that gives nothing. -/
  | store (revise : α → Option α)

/-- Work under way: handlers yet to be called in a round, or moves yet to be made. -/
inductive Frame (κ α : Type) where
  | round (value : α) (left : List (Nat × κ))
  | moves (left : List (Move κ α))

inductive Occurrence (κ α : Type) where
  | started (value : α) (handlers : List (Nat × κ))
  | called (id : Nat) (handler : κ) (value remembered : α)
  deriving Repr

structure Delivery (κ α : Type) where
  signal : Signal κ
  remembered : α
  held : List (String × Nat)
  stack : List (Frame κ α)
  journal : List (Occurrence κ α)

namespace Delivery

variable {κ α : Type}

def start (value : α) : Delivery κ α := ⟨.empty, value, [], [], []⟩

def release (d : Delivery κ α) (name : String) : Delivery κ α :=
  match d.held.lookup name with
  | none => d
  | some id => { d with signal := d.signal.detach id, held := Keyed.remove name d.held }

/-- Attaches a handler, then ends the attachment formerly held under its name. -/
def attach (d : Delivery κ α) (name : String) (handler : κ) : Delivery κ α :=
  let (signal, id) := d.signal.attach handler
  let d := ({ d with signal := signal }).release name
  { d with held := Keyed.put name id d.held }

def fire (d : Delivery κ α) (value : α) : Delivery κ α :=
  { d with
    stack := .round value d.signal.handlers :: d.stack
    journal := .started value d.signal.handlers :: d.journal }

def perform (d : Delivery κ α) : Move κ α → Delivery κ α
  | .attach name handler => d.attach name handler
  | .release name => d.release name
  | .fire value => d.fire value
  | .store revise =>
    match revise d.remembered with
    | none => d
    | some value => ({ d with remembered := value }).fire value

/-- One small piece of the innermost work. `respond` gives the moves of a handler for a value. -/
def step (respond : κ → α → List (Move κ α)) (d : Delivery κ α) : Delivery κ α :=
  match d.stack with
  | [] => d
  | .round _ [] :: rest => { d with stack := rest }
  | .round value ((id, handler) :: left) :: rest =>
    { d with
      stack := .moves (respond handler value) :: .round value left :: rest
      journal := .called id handler value d.remembered :: d.journal }
  | .moves [] :: rest => { d with stack := rest }
  | .moves (m :: ms) :: rest => ({ d with stack := .moves ms :: rest }).perform m

/-- Works until nothing is under way, or gives nothing when the steps do not suffice. -/
def settle? (respond : κ → α → List (Move κ α)) : Nat → Delivery κ α → Option (Delivery κ α)
  | 0, d => if d.stack.isEmpty then some d else none
  | n + 1, d => if d.stack.isEmpty then some d else settle? respond n (d.step respond)

/-- Makes a move and works until nothing is under way. -/
def act? (respond : κ → α → List (Move κ α)) (limit : Nat) (m : Move κ α) (d : Delivery κ α) :
    Option (Delivery κ α) :=
  settle? respond limit (d.perform m)

/-- The move is a store, and its function gives a value. -/
def revises (d : Delivery κ α) : Move κ α → Bool
  | .store revise => (revise d.remembered).isSome
  | _ => false

end Delivery

end DocSync.Signal
