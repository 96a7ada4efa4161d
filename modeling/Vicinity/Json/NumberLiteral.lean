import Vicinity.Json.Reader
import Vicinity.Number.Scaling

namespace Vicinity.Json

open Number

/-- A number as it was written: integers that fit 64 bits are kept exactly. -/
inductive NumberLiteral
  | natural (n : Nat)
  | negative (n : Nat)
  | real (x : Binary64)
  deriving DecidableEq

def digitValue (c : Char) : Nat := c.toNat - '0'.toNat

def startsWithDigit (cs : List Char) : Bool := cs.head?.any Char.isDigit

def wholeDigits (cs : List Char) : Read (List Char) :=
  match cs with
  | [] => failHere .eofInValue []
  | c :: rest =>
    if !c.isDigit then failNext .invalidNumber cs
    else if c = '0' then
      if startsWithDigit rest then failNext .invalidNumber rest else .ok ([c], rest)
    else .ok (cs.takeWhile Char.isDigit, cs.dropWhile Char.isDigit)

def fractionDigits : List Char → Read (List Char)
  | [] => .ok ([], [])
  | c :: rest =>
    if c ≠ '.' then .ok ([], c :: rest)
    else if startsWithDigit rest then .ok (rest.takeWhile Char.isDigit, rest.dropWhile Char.isDigit)
    else if rest.isEmpty then failNext .eofInValue rest
    else failNext .invalidNumber rest

def exponentLimit : Nat := 2147483647

/-- Where the limit counts, the first digit that passes it ends the reading. -/
def exponentDigits (limited : Bool) (e : Nat) : List Char → Read Nat
  | [] => .ok (e, [])
  | c :: rest =>
    if !c.isDigit then .ok (e, c :: rest)
    else if limited && e * 10 + digitValue c > exponentLimit then failHere .numberOutOfRange rest
    else exponentDigits limited (e * 10 + digitValue c) rest

def exponentSign : List Char → Bool × List Char
  | '-' :: rest => (true, rest)
  | '+' :: rest => (false, rest)
  | cs => (false, cs)

def exponentValue (isZero : Bool) (cs : List Char) : Read Int :=
  let (negative, rest) := exponentSign cs
  if rest.isEmpty then failHere .eofInValue rest
  else if !startsWithDigit rest then failNext .invalidNumber rest
  else (exponentDigits (!negative && !isZero) 0 rest).map fun (e, rest) =>
    (if negative then -(e : Int) else e, rest)

def exponentPart (isZero : Bool) : List Char → Read (Option Int)
  | [] => .ok (none, [])
  | c :: rest =>
    if c = 'e' ∨ c = 'E' then (exponentValue isZero rest).map fun (e, rest) => (some e, rest)
    else .ok (none, c :: rest)

def significandLimit : Nat := 0xffffffffffffffff

def appendDigits (n : Nat) : List Char → Nat × List Char
  | [] => (n, [])
  | c :: rest =>
    let next := n * 10 + digitValue c
    if next ≤ significandLimit then appendDigits next rest else (n, c :: rest)

/-- The leading digits of a number and the power of ten that puts them in their place. A fraction
digit is appended where it fits even if digits before the point are left over. -/
def significand (whole fraction : List Char) : Nat × Int :=
  let (n, extra) := appendDigits 0 whole
  let (n, unused) := appendDigits n fraction
  (n, (extra.length : Int) + unused.length - fraction.length)

def realLiteral (negative : Bool) (digits : Nat) (exponent : Int) (rest : List Char) :
    Read NumberLiteral :=
  let x := (Value.ofInt digits : Binary64).scaleByTen exponent
  if x.isInfinite then failHere .numberOutOfRange rest
  else .ok (.real (if negative then -x else x), rest)

def integerLiteral (negative : Bool) (digits : Nat) (rest : List Char) : Read NumberLiteral :=
  if !negative then .ok (.natural digits, rest)
  else if digits ≠ 0 ∧ digits ≤ 0x8000000000000000 then .ok (.negative digits, rest)
  else realLiteral negative digits 0 rest

def unsignedLiteral (negative : Bool) (cs : List Char) :
    Except Failure (NumberLiteral × List Char) := do
  let (whole, rest) ← wholeDigits cs
  let (fraction, rest) ← fractionDigits rest
  let (digits, power) := significand whole fraction
  let (exponent, rest) ← exponentPart (digits == 0) rest
  if fraction.isEmpty && exponent.isNone && power == 0 then integerLiteral negative digits rest
  else realLiteral negative digits (exponent.getD 0 + power) rest

def numberLiteral : List Char → Read NumberLiteral
  | '-' :: rest => unsignedLiteral true rest
  | cs => unsignedLiteral false cs

def startsNumber (c : Char) : Bool := c == '-' || c.isDigit

end Vicinity.Json
