import Vicinity.Number.Rounding

namespace Vicinity.Number

structure Format where
  exponentBits : Nat
  fractionBits : Nat

namespace Format

/-- The smallest positive value is `2 ^ (-scale)`, the unit in which magnitudes are counted. -/
def scale (F : Format) : Nat := (1 <<< (F.exponentBits - 1)) - 2 + F.fractionBits

def limit (F : Format) : Nat := 1 <<< ((1 <<< F.exponentBits) - 2 + F.fractionBits)

def Holds (F : Format) (m : Nat) : Prop := m < F.limit ∧ 1 <<< spacing F.fractionBits m ∣ m

instance (F : Format) (m : Nat) : Decidable (F.Holds m) := by
  unfold Holds
  infer_instance

theorem limit_pos (F : Format) : 0 < F.limit := by
  rw [limit, Nat.one_shiftLeft]
  exact Nat.two_pow_pos _

theorem holds_zero (F : Format) : F.Holds 0 := ⟨F.limit_pos, Nat.dvd_zero _⟩

end Format

/-- A number of the format. There is one NaN: its payload and sign are not kept. -/
inductive Value (F : Format)
  | nan
  | infinite (negative : Bool)
  | finite (negative : Bool) (magnitude : Nat) (holds : F.Holds magnitude)
  deriving DecidableEq

def signed (negative : Bool) (m : Nat) : Int := if negative then -(m : Int) else m

namespace Value

variable {F : Format}

def zero (negative : Bool) : Value F := .finite negative 0 F.holds_zero

def nearest (negative : Bool) (num den : Nat) : Value F :=
  if h : roundTo F.fractionBits num den < F.limit then
    .finite negative (roundTo F.fractionBits num den) ⟨h, shiftLeft_spacing_dvd_roundTo _ _ _⟩
  else
    .infinite negative

def ofInt (n : Int) : Value F := nearest (decide (n < 0)) (n.natAbs <<< F.scale) 1

def one : Value F := ofInt 1

def convert (G : Format) : Value F → Value G
  | .nan => .nan
  | .infinite s => .infinite s
  | .finite s m _ => nearest s (m <<< G.scale) (1 <<< F.scale)

def isNaN : Value F → Bool
  | .nan => true
  | _ => false

def isInfinite : Value F → Bool
  | .infinite _ => true
  | _ => false

def neg : Value F → Value F
  | .nan => .nan
  | .infinite s => .infinite !s
  | .finite s m h => .finite (!s) m h

def abs : Value F → Value F
  | .nan => .nan
  | .infinite _ => .infinite false
  | .finite _ m h => .finite false m h

def add : Value F → Value F → Value F
  | .nan, _ | _, .nan => .nan
  | .infinite s, .infinite t => if s = t then .infinite s else .nan
  | .infinite s, .finite .. | .finite .., .infinite s => .infinite s
  | .finite s m _, .finite t n _ =>
    let sum := signed s m + signed t n
    if sum = 0 then zero (s && t) else nearest (decide (sum < 0)) sum.natAbs 1

def sub (x y : Value F) : Value F := add x y.neg

def mul : Value F → Value F → Value F
  | .nan, _ | _, .nan => .nan
  | .infinite s, .infinite t => .infinite (s ^^ t)
  | .infinite s, .finite t m _ | .finite s m _, .infinite t =>
    if m = 0 then .nan else .infinite (s ^^ t)
  | .finite s m _, .finite t n _ => nearest (s ^^ t) (m * n) (1 <<< F.scale)

def div : Value F → Value F → Value F
  | .nan, _ | _, .nan | .infinite _, .infinite _ => .nan
  | .infinite s, .finite t .. => .infinite (s ^^ t)
  | .finite s .., .infinite t => zero (s ^^ t)
  | .finite s m _, .finite t n _ =>
    if n = 0 then (if m = 0 then .nan else .infinite (s ^^ t))
    else nearest (s ^^ t) (m <<< F.scale) n

/-- A root that is no integer number of units is rounded as the midpoint between its two
integer neighbours: both lie on one side of every rounding boundary. -/
def sqrt : Value F → Value F
  | .nan => .nan
  | .infinite s => if s then .nan else .infinite false
  | .finite s m h =>
    if m = 0 then .finite s m h
    else if s then .nan
    else
      let square := m <<< F.scale
      let root := square.sqrt
      nearest false (2 * root + if root * root = square then 0 else 1) 2

instance : Neg (Value F) := ⟨neg⟩
instance : Add (Value F) := ⟨add⟩
instance : Sub (Value F) := ⟨sub⟩
instance : Mul (Value F) := ⟨mul⟩
instance : Div (Value F) := ⟨div⟩

/-- The place of a value on the line, in units, with the infinities at the limits. -/
def level? : Value F → Option Int
  | .nan => none
  | .infinite s => some (signed s F.limit)
  | .finite s m _ => some (signed s m)

def compare? (x y : Value F) : Option Ordering :=
  match x.level?, y.level? with
  | some a, some b => some (compare a b)
  | _, _ => none

def isZero : Value F → Bool
  | .finite _ m _ => m == 0
  | _ => false

def clamp (x low high : Value F) : Value F :=
  if x.compare? low = some .lt then low
  else if x.compare? high = some .gt then high
  else x

/-- Left to right, starting from the neutral element of addition, negative zero. -/
def sum (xs : List (Value F)) : Value F := xs.foldl (· + ·) (zero true)

end Value

def binary32 : Format := ⟨8, 23⟩
def binary64 : Format := ⟨11, 52⟩

abbrev Binary32 := Value binary32
abbrev Binary64 := Value binary64

end Vicinity.Number
