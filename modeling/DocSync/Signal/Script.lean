import DocSync.Signal.Delivery

/-!
Scripted handlers over 64-bit integers: a handler with a name carries out a list of actions each
time it is called. On a plain signal `next` fires; on a remembered value it stores.
-/

namespace DocSync.Signal

inductive Action where
  | on (name : String) (actions : List Action)
  | off (name : String)
  | fire (value : Int)
  | set (value : Int)
  /-- Stores a value unless the remembered one is the given one. -/
  | update (value : Int) (except : Option Int)
  /-- Adds to the remembered value unless the sum is out of range. -/
  | add (amount : Int)
  | look
  /-- Goes on with the successor of the received value while it is below a limit. -/
  | next (limit : Int)
  deriving Repr

structure Handler where
  name : String
  actions : List Action
  deriving Repr

inductive Memory where
  | plain
  | remembering
  deriving DecidableEq, Repr

/-- The sum of two 64-bit integers, if it is one. -/
def sum? (a b : Int) : Option Int :=
  if -9223372036854775808 ≤ a + b ∧ a + b ≤ 9223372036854775807 then some (a + b) else none

/-- The move that an action makes when nothing was received. -/
def Action.move? : Action → Option (Move Handler Int)
  | on name actions => some (.attach name ⟨name, actions⟩)
  | off name => some (.release name)
  | fire value => some (.fire value)
  | set value => some (.store fun _ => some value)
  | update value except => some (.store fun v => if some v = except then none else some value)
  | add amount => some (.store fun v => sum? v amount)
  | look => none
  | next _ => none

/-- The move that an action makes in a handler that received a value. -/
def Action.response? (memory : Memory) (received : Int) : Action → Option (Move Handler Int)
  | next limit =>
    if received < limit then
      match memory with
      | .plain => some (.fire (received + 1))
      | .remembering => some (.store fun _ => some (received + 1))
    else none
  | a => a.move?

def respond (memory : Memory) (h : Handler) (received : Int) : List (Move Handler Int) :=
  h.actions.filterMap (Action.response? memory received)

end DocSync.Signal
