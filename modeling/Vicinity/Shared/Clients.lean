import Vicinity.Shared.Pool

namespace Vicinity.Shared

/-- A client's own handles, and what it has still to do through them. The program names a handle by
its place in the chain: the one the client was given, then the copies in the order it made them. -/
structure Client (K α : Type) where
  chain : List Nat
  program : List (Nat × Pool.Action K α)

structure Turn (K α : Type) where
  client : Nat
  place : Nat
  call : Pool.Call K α

/-- Clients that take turns at one shared index, a whole operation on each turn. -/
structure Clients (K α : Type) [DecidableEq K] [Hashable K] where
  pool : Pool K α
  members : List (Client K α)

def Turn.entry {K α : Type} (t : Turn K α) : Nat × Pool.Action K α := (t.place, t.call.action)

def Client.after {K α : Type} (c : Client K α) (outcome : Except Error (Pool.Outcome K α)) :
    Client K α where
  chain :=
    match outcome with
    | .ok (.handle h) => c.chain ++ [h]
    | _ => c.chain
  program := c.program.tail

namespace Clients

variable {K α : Type} [DecidableEq K] [Hashable K]

def start (ix : Index K α) (programs : List (List (Nat × Pool.Action K α))) : Clients K α where
  pool := ⟨.ofIndex ix, programs.length⟩
  members := programs.mapIdx fun i program => ⟨[i], program⟩

def turn (s : Clients K α) (i : Nat) : Option (Turn K α × Clients K α) := do
  let c ← s.members[i]?
  let (place, a) ← c.program.head?
  let h ← c.chain[place]?
  let (outcome, pool) ← s.pool.step h a
  return (⟨i, place, h, a, outcome⟩, ⟨pool, s.members.set i (c.after outcome)⟩)

def run (s : Clients K α) : List Nat → List (Turn K α) × Clients K α
  | [] => ([], s)
  | i :: schedule =>
    match s.turn i with
    | none => s.run schedule
    | some (t, s) =>
      let (trace, s) := s.run schedule
      (t :: trace, s)

end Clients

end Vicinity.Shared
