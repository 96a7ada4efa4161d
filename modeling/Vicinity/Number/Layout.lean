import Vicinity.Number.Shortest

namespace Vicinity.Number

/-- The leading exponents from `low` up to but not including `high` are written positionally. -/
structure Layout where
  low : Int
  high : Int

namespace Layout

def zeros (n : Nat) : List Char := List.replicate n '0'

def positional (ds : List Char) (point : Int) : List Char :=
  if point ≤ 0 then '0' :: '.' :: zeros (-point).toNat ++ ds
  else
    let whole := ds.take point.toNat ++ zeros (point.toNat - ds.length)
    let rest := ds.drop point.toNat
    whole ++ '.' :: if rest.isEmpty then ['0'] else rest

def scientific (ds : List Char) (lead : Int) : List Char :=
  let rest := ds.drop 1
  let sign := if lead < 0 then '-' else '+'
  ds.take 1 ++ (if rest.isEmpty then [] else '.' :: rest) ++ 'e' :: sign :: Nat.toDigits 10 lead.natAbs

def dropTrailingZeros (ds : List Char) : List Char := (ds.reverse.dropWhile (· == '0')).reverse

def write (l : Layout) (digits : Nat) (exponent : Int) : List Char :=
  let all := Nat.toDigits 10 digits
  let point := (all.length : Int) + exponent
  let ds := dropTrailingZeros all
  if l.low ≤ point - 1 ∧ point - 1 < l.high then positional ds point else scientific ds (point - 1)

def standard : Layout := ⟨-5, 16⟩

end Layout

def Value.text {F : Format} : Value F → String
  | .nan => "NaN"
  | .infinite s => if s then "-inf" else "inf"
  | .finite s m _ =>
    let sign := if s then ['-'] else []
    if m = 0 then String.ofList (sign ++ "0.0".toList)
    else
      let (digits, exponent) := Shortest.digits F m
      String.ofList (sign ++ Layout.standard.write digits exponent)

end Vicinity.Number
