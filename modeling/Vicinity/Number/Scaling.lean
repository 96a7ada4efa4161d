import Vicinity.Number.Decimal

namespace Vicinity.Number

def greatestPower : Nat := 308

def powerOfTen (n : Nat) : Binary64 := Value.ofDecimal false 1 n

/-- Scaling by `10 ^ exponent`, rounded after each product or quotient with a power that the format
holds. The result can miss the nearest value by a few units. -/
def Value.scaleByTen (x : Binary64) (exponent : Int) : Binary64 :=
  if exponent.natAbs ≤ greatestPower then
    if 0 ≤ exponent then x * powerOfTen exponent.natAbs else x / powerOfTen exponent.natAbs
  else if x.isZero || x.isInfinite then x
  else if 0 ≤ exponent then scaleByTen (x * powerOfTen greatestPower) (exponent - greatestPower)
  else scaleByTen (x / powerOfTen greatestPower) (exponent + greatestPower)
termination_by exponent.natAbs
decreasing_by all_goals simp only [greatestPower] at *; omega

end Vicinity.Number
