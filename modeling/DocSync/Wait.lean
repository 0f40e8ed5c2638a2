import DocSync.Keyed

/-!
A delay that tells its callers when they were replaced. Every wait gets an answer: its delay
elapsed, a newer wait superseded it, or it was cancelled. A rejection that was sent is what the wait
gives, also when its delay has elapsed since.
-/

namespace DocSync

inductive WaitError where
  | superseded
  | cancelled
  deriving DecidableEq, Repr

namespace WaitError

def message : WaitError → String
  | superseded => "wait superseded by a newer request"
  | cancelled => "wait cancelled"

/-- Both reasons say that nobody needs the answer any more. -/
def isCancellation : WaitError → Bool
  | superseded => true
  | cancelled => true

end WaitError

/-- The latest generation, the wait that is outstanding, and the rejections that were sent and not
yet collected. A wait is known by the generation that it started. -/
structure Wait where
  generation : Nat
  outstanding : Option Nat
  rejections : List (Nat × WaitError)
  deriving DecidableEq, Repr

namespace Wait

def idle : Wait := ⟨0, none, []⟩

def isWaiting (w : Wait) : Bool := w.outstanding.isSome

def reject (w : Wait) (reason : WaitError) : Wait :=
  match w.outstanding with
  | none => w
  | some g => { w with outstanding := none, rejections := w.rejections ++ [(g, reason)] }

/-- Starts a wait, which supersedes the outstanding one. -/
def start (w : Wait) : Wait × Nat :=
  let w := w.reject .superseded
  let generation := w.generation + 1
  ({ w with generation := generation, outstanding := some generation }, generation)

def cancel (w : Wait) : Wait := w.reject .cancelled

/-- The delay of a wait elapsed. Only the latest wait clears what is outstanding. -/
def elapse (w : Wait) (generation : Nat) : Wait :=
  if w.generation = generation then { w with outstanding := none } else w

/-- What a wait gives when it is looked at, if it gives anything yet. -/
def poll? (w : Wait) (generation : Nat) (elapsed : Bool) : Option (Option WaitError × Wait) :=
  match w.rejections.lookup generation with
  | some reason =>
    some (some reason, { w with rejections := Keyed.remove generation w.rejections })
  | none => if elapsed then some (none, w.elapse generation) else none

end Wait

end DocSync
