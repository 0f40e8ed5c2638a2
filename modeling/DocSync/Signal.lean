/-!
Handlers attached to a signal, in the order in which they were attached. Each attachment has a
number that is never used again, and is undone by that number.
-/

namespace DocSync

structure Signal (κ : Type) where
  nextId : Nat
  handlers : List (Nat × κ)
  deriving Repr

namespace Signal

variable {κ : Type}

def empty : Signal κ := ⟨0, []⟩

/-- Attaches a handler after all others and gives its number. -/
def attach (s : Signal κ) (handler : κ) : Signal κ × Nat :=
  (⟨s.nextId + 1, s.handlers ++ [(s.nextId, handler)]⟩, s.nextId)

/-- Undoes the attachment with a number, if it still holds. The handler that goes owns no other
attachment to the signal. -/
def detach (s : Signal κ) (id : Nat) : Signal κ :=
  { s with handlers := s.handlers.filter fun h => h.1 != id }

def count (s : Signal κ) : Nat := s.handlers.length

end Signal

end DocSync
