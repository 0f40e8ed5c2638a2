import DocSync.Message

/-!
The documents whose text the server has not acknowledged, newest first. Marking tells whether the
membership changed; only a change is published.
-/

namespace DocSync

structure RunningSet where
  members : List DocumentId
  deriving DecidableEq, Repr

namespace RunningSet

def empty : RunningSet := ⟨[]⟩

def isBusy (r : RunningSet) (id : DocumentId) : Bool := r.members.contains id

def markBusy (r : RunningSet) (id : DocumentId) : RunningSet × Bool :=
  if r.isBusy id then (r, false) else (⟨id :: r.members⟩, true)

def markIdle (r : RunningSet) (id : DocumentId) : RunningSet × Bool :=
  if r.isBusy id then (⟨r.members.filter fun m => m != id⟩, true) else (r, false)

end RunningSet

end DocSync
