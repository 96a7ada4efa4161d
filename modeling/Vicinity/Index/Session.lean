import Vicinity.Index.Command

namespace Vicinity

/-- Indexes by handle, each copied from an earlier one and then on its own. -/
structure Session (K α : Type) [DecidableEq K] [Hashable K] where
  indexes : List (Index K α)

namespace Session

inductive Action (K α : Type)
  | command (c : Command K α)
  | copy

inductive Outcome (K α : Type)
  | reply (r : Reply K α)
  | handle (h : Nat)

variable {K α : Type} [DecidableEq K] [Hashable K]

def start (ix : Index K α) : Session K α := ⟨[ix]⟩

def index? (s : Session K α) (h : Nat) : Option (Index K α) := s.indexes[h]?

/-- The outcome of an action on one handle; none when there is no such handle. -/
def stepInOrder (order : KeyOrder K) (s : Session K α) (h : Nat) (a : Action K α) :
    Option (Except Error (Outcome K α) × Session K α) := do
  let ix ← s.index? h
  match a with
  | .command c =>
    let (reply, ix) := ix.executeInOrder order c
    return (reply.map .reply, ⟨s.indexes.set h ix⟩)
  | .copy => return (.ok (.handle s.indexes.length), ⟨s.indexes ++ [ix]⟩)

def step (s : Session K α) (h : Nat) (a : Action K α) :
    Option (Except Error (Outcome K α) × Session K α) :=
  s.stepInOrder .standard h a

end Session

end Vicinity
