import Vicinity.Number.Decimal

namespace Vicinity.Number.Shortest

/-- The real numbers that round to one magnitude, counted in quarters of a unit around it. -/
structure Interval where
  center : Nat
  low : Nat
  high : Nat
  closed : Bool

def Interval.around (F : Format) (m : Nat) : Interval :=
  let s := spacing F.fractionBits m
  let step := 1 <<< s
  let below := if s ≠ 0 ∧ m = 1 <<< (F.fractionBits + s) then step else 2 * step
  ⟨4 * m, 4 * m - below, 4 * m + 2 * step, (m >>> s) % 2 == 0⟩

/-- A decimal grid beside the units: a point `d` of the grid lies at `d * tick` and
`q` quarters of a unit lie at `q * quarter`, on one common scale. -/
structure Grid where
  tick : Nat
  quarter : Nat

def Grid.at (F : Format) (exponent : Int) : Grid :=
  let (num, den) := decimalRatio 1 exponent
  ⟨(4 * num) <<< F.scale, den⟩

def Grid.hits (g : Grid) (i : Interval) (d : Nat) : Bool :=
  let x := d * g.tick
  let low := i.low * g.quarter
  let high := i.high * g.quarter
  if i.closed then low ≤ x && x ≤ high else low < x && x < high

def Grid.choose? (g : Grid) (i : Interval) : Option Nat :=
  let x := i.center * g.quarter
  let d := x / g.tick
  let r := x % g.tick
  let upward := 2 * r > g.tick ∨ 2 * r = g.tick ∧ d % 2 = 1
  match g.hits i d, g.hits i (d + 1) with
  | true, true => some (if upward then d + 1 else d)
  | true, false => some d
  | false, true => some (d + 1)
  | false, false => none

def decade (num den : Nat) : Int :=
  let guess := (digitCount num : Int) - digitCount den
  let (up, down) := decimalRatio 1 guess
  if num * down < up * den then guess - 1 else guess

/-- The first grid, from the coarsest on, with a point that rounds back. When all tried grids
miss, every digit is given: a unit is `5 ^ scale` in the last place of `10 ^ (-scale)`. -/
def search (F : Format) (m : Nat) (lead : Int) : Nat → Nat → Nat × Int
  | 0, _ => (m * Nat.pow 5 F.scale, -(F.scale : Int))
  | tries + 1, count =>
    let exponent := lead - count
    match (Grid.at F exponent).choose? (.around F m) with
    | some d => (d, exponent)
    | none => search F m lead tries (count + 1)

def enoughDigits : Nat := 17

def digits (F : Format) (m : Nat) : Nat × Int :=
  search F m (decade m (1 <<< F.scale)) enoughDigits 0

end Vicinity.Number.Shortest
