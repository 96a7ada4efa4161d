import Vicinity.Shared.Basic

namespace Vicinity.Shared

structure Pool (K α : Type) [DecidableEq K] [Hashable K] where
  shared : Shared K α
  handles : Nat

namespace Pool

inductive Action (K α : Type)
  | request (r : Request K α)
  | copy

inductive Outcome (K α : Type)
  | response (r : Response K α)
  | handle (h : Nat)

variable {K α : Type} [DecidableEq K] [Hashable K]

def start (s : Shared K α) : Pool K α := ⟨s, 1⟩

def step (p : Pool K α) (h : Nat) (a : Action K α) :
    Option (Except Error (Outcome K α) × Pool K α) :=
  if h < p.handles then
    match a with
    | .request r =>
      let (response, s) := p.shared.execute r
      some (response.map .response, { p with shared := s })
    | .copy => some (.ok (.handle p.handles), { p with handles := p.handles + 1 })
  else none

structure Call (K α : Type) where
  handle : Nat
  action : Action K α
  outcome : Except Error (Outcome K α)

/-- The calls that a sequence of actions amounts to. Nothing is called through a handle that does
not exist. -/
def run (p : Pool K α) : List (Nat × Action K α) → List (Call K α) × Pool K α
  | [] => ([], p)
  | (h, a) :: rest =>
    match p.step h a with
    | none => p.run rest
    | some (outcome, p) =>
      let (calls, p) := p.run rest
      (⟨h, a, outcome⟩ :: calls, p)

end Pool

end Vicinity.Shared
