import Vicinity.Error

namespace Vicinity

/-- Content behind a lock. A holder that aborts while it may write poisons the lock for good. -/
structure Guarded (α : Type) where
  content : α
  poisoned : Bool := false

inductive Access
  | read
  | write
  deriving DecidableEq, Repr

def Access.name : Access → String
  | .read => "read"
  | .write => "write"

namespace Guarded

variable {α : Type}

def acquire (g : Guarded α) (access : Access) (operation : String) : Except Error α :=
  if g.poisoned then .error (.lock (access.name ++ " " ++ operation)) else .ok g.content

def abort (g : Guarded α) : Access → Guarded α
  | .read => g
  | .write => { g with poisoned := true }

end Guarded

end Vicinity
