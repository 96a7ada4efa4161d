import Vicinity.Number.Binary

namespace Vicinity.Number.Value

variable {F : Format}

/-- Exponent and fraction fields together, read as one number, grow with the magnitude. -/
def magnitudeBits (F : Format) (m : Nat) : Nat :=
  let s := spacing F.fractionBits m
  (s <<< F.fractionBits) + (m >>> s)

def infinityBits (F : Format) : Nat := ((1 <<< F.exponentBits) - 1) <<< F.fractionBits

def signBit (F : Format) (negative : Bool) : Nat :=
  if negative then 1 <<< (F.exponentBits + F.fractionBits) else 0

def toBits : Value F → Nat
  | .nan => infinityBits F + (1 <<< (F.fractionBits - 1))
  | .infinite s => signBit F s + infinityBits F
  | .finite s m _ => signBit F s + magnitudeBits F m

def ofBits (F : Format) (bits : Nat) : Value F :=
  let fraction := bits % (1 <<< F.fractionBits)
  let exponent := (bits >>> F.fractionBits) % (1 <<< F.exponentBits)
  let negative := bits.testBit (F.exponentBits + F.fractionBits)
  if exponent = (1 <<< F.exponentBits) - 1 then
    if fraction = 0 then .infinite negative else .nan
  else if exponent = 0 then
    nearest negative fraction 1
  else
    nearest negative (((1 <<< F.fractionBits) + fraction) <<< (exponent - 1)) 1

end Vicinity.Number.Value
