import Vicinity.Number.Binary

namespace Vicinity.Number

def digitCount (n : Nat) : Nat := (Nat.toDigits 10 n).length

def decimalRatio (digits : Nat) (exponent : Int) : Nat × Nat :=
  (digits * Nat.pow 10 exponent.toNat, Nat.pow 10 (-exponent).toNat)

namespace Value

variable {F : Format}

/-- The value nearest to `digits * 10 ^ exponent`. The two outer cases decide by size alone,
so that no power is computed that has far more digits than the format can tell apart. -/
def ofDecimal (negative : Bool) (digits : Nat) (exponent : Int) : Value F :=
  let top := (digitCount digits : Int) + exponent
  if digits = 0 ∨ top < -(F.scale : Int) then zero negative
  else if top > F.limit.log2 then .infinite negative
  else
    let (num, den) := decimalRatio digits exponent
    nearest negative (num <<< F.scale) den

end Value

end Vicinity.Number
