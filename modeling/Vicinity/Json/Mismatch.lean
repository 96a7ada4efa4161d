import Vicinity.Json.NumberLiteral
import Vicinity.Json.StringLiteral

namespace Vicinity.Json

def ident : List Char → List Char → Except Failure (List Char)
  | [], cs => .ok cs
  | _ :: _, [] => failHere .eofInValue []
  | x :: xs, c :: cs => if c = x then ident xs cs else failNext .expectedIdent (c :: cs)

def NumberLiteral.found : NumberLiteral → Found
  | .natural n => .integer n
  | .negative n => .integer (-n)
  | .real x => .real x

/-- What stands next. Scalars are read, of a list or an object not even the bracket. -/
def found : List Char → Read Found
  | [] => failNext .eofInValue []
  | c :: rest =>
    if c = 'n' then (ident "ull".toList rest).map (.null, ·)
    else if c = 't' then (ident "rue".toList rest).map (.boolean true, ·)
    else if c = 'f' then (ident "alse".toList rest).map (.boolean false, ·)
    else if startsNumber c then (numberLiteral (c :: rest)).map fun (n, rest) => (n.found, rest)
    else if c = '"' then (stringBody rest).map fun (s, rest) => (.text s, rest)
    else if c = '[' then .ok (.sequence, c :: rest)
    else if c = '\x7b' then .ok (.map, c :: rest)
    else failNext .expectedValue (c :: rest)

def mismatch {α : Type} (expected : String) (cs : List Char) : Except Failure α := do
  let (found, rest) ← found cs
  failHere (.invalidType found expected) rest

end Vicinity.Json
