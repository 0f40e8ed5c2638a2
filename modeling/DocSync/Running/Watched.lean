import DocSync.Running
import DocSync.Signal.Delivery

/-!
The running documents with their watchers. A mark revises the remembered set. If the set changes by
it, each watcher is called with the new one; if not, nobody is. Watchers take in what they are given
and do nothing else, so each call on the set is carried out before the next one.
-/

namespace DocSync.RunningSet

open Signal

inductive Mark where
  | busy
  | idle
  deriving DecidableEq, Repr

/-- What is called on a set, through any of the handles that share it. -/
inductive Call (κ : Type) where
  | mark (m : Mark) (id : DocumentId)
  | subscribe (name : String) (watcher : κ)
  | unsubscribe (name : String)
  deriving DecidableEq, Repr

def mark (r : RunningSet) (id : DocumentId) : Mark → RunningSet × Bool
  | .busy => r.markBusy id
  | .idle => r.markIdle id

/-- The set after a mark that changes it. -/
def revise? (m : Mark) (id : DocumentId) (r : RunningSet) : Option RunningSet :=
  let (next, changed) := r.mark id m
  if changed then some next else none

abbrev Watched (κ : Type) := Delivery κ RunningSet

namespace Watched

variable {κ : Type}

def empty : Watched κ := .start .empty

def move : Call κ → Move κ RunningSet
  | .mark m id => .store (revise? m id)
  | .subscribe name watcher => .attach name watcher
  | .unsubscribe name => .release name

/-- Carries out a call. Each watcher takes two steps, its call and its return, and the round ends
with another one. -/
def call? (w : Watched κ) (c : Call κ) : Option (Watched κ) :=
  w.act? (fun _ _ => []) (2 * w.signal.count + 1) (move c)

def callAll? (w : Watched κ) (calls : List (Call κ)) : Option (Watched κ) := calls.foldlM call? w

/-- What a mark returns: whether it changes the set. -/
def returns (w : Watched κ) : Call κ → Bool
  | .mark m id => (w.remembered.mark id m).2
  | _ => false

/-- The members that a watcher was called with, if it is the one with the given number. -/
def taken? (n : Nat) : Occurrence κ RunningSet → Option (List DocumentId)
  | .called id _ value _ => if id = n then some value.members else none
  | .started .. => none

/-- The lists of members that the watcher with a number was called with, in their order. -/
def received (w : Watched κ) (n : Nat) : List (List DocumentId) :=
  w.journal.reverse.filterMap (taken? n)

end Watched

end DocSync.RunningSet
