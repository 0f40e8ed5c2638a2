import DocSync.Failure

/-!
Where a call is made. A task runs on the runtime that its caller is in, and there is no other. All
of this is meant to be driven from inside a runtime: outside of one no task can be started.
-/

namespace DocSync

inductive Place where
  | inside
  | outside
  deriving DecidableEq, Repr

/-- Whether a task can be started, by its name. -/
def Place.spawn : Place → String → Except Failure Unit
  | .inside, _ => .ok ()
  | .outside, task => .error (.runtime task)

@[simp] theorem Place.spawn_inside (task : String) : inside.spawn task = .ok () := rfl

@[simp] theorem Place.spawn_outside (task : String) :
    outside.spawn task = .error (.runtime task) := rfl

end DocSync
