import Vicinity.Number.Binary

namespace Vicinity

open Number

structure Candidate where
  slot : Nat
  distance : Binary64
  deriving DecidableEq

namespace Candidate

/-- Ascending, with NaN after every number and equal to itself. -/
def compareDistance (x y : Binary64) : Ordering :=
  match x.isNaN, y.isNaN with
  | false, false => (x.compare? y).getD .eq
  | true, true => .eq
  | true, false => .gt
  | false, true => .lt

def rankCompare (c d : Candidate) : Ordering :=
  (compareDistance c.distance d.distance).then (compare c.slot d.slot)

def precedes (c d : Candidate) : Bool := c.rankCompare d == .lt

def ranksBy (c d : Candidate) : Bool := c.rankCompare d != .gt

end Candidate

end Vicinity
