import Vicinity.Config.Basic

namespace Vicinity

namespace Json

def Blank (u : List Char) : Prop := ∀ c ∈ u, c ∈ [' ', '\n', '\t', '\r']

inductive HexDigit (c : Char) : Nat → Prop
  | decimal (h : '0' ≤ c ∧ c ≤ '9') : HexDigit c (c.toNat - '0'.toNat)
  | upper (h : 'A' ≤ c ∧ c ≤ 'F') : HexDigit c (c.toNat - 'A'.toNat + 10)
  | lower (h : 'a' ≤ c ∧ c ≤ 'f') : HexDigit c (c.toNat - 'a'.toNat + 10)

inductive CodeUnit : List Char → Nat → Prop
  | mk {a b c d : Char} {w x y z : Nat} (ha : HexDigit a w) (hb : HexDigit b x)
      (hc : HexDigit c y) (hd : HexDigit d z) :
      CodeUnit [a, b, c, d] (w * 0x1000 + x * 0x100 + y * 0x10 + z)

def shortEscapes : List (Char × Char) :=
  [('"', '"'), ('\\', '\\'), ('/', '/'), ('b', '\x08'), ('f', '\x0c'), ('n', '\n'), ('r', '\r'),
    ('t', '\t')]

/-- The ways to write one character of a string. A code unit that is half of a pair stands for
nothing by itself. -/
inductive Spelling : List Char → Char → Prop
  | plain {c : Char} (hquote : c ≠ '"') (hescape : c ≠ '\\') (hcontrol : 0x20 ≤ c.toNat) :
      Spelling [c] c
  | short {c d : Char} (h : (c, d) ∈ shortEscapes) : Spelling ['\\', c] d
  | unit {t : List Char} {n : Nat} (h : CodeUnit t n) (hn : n < 0xd800 ∨ 0xe000 ≤ n) :
      Spelling ('\\' :: 'u' :: t) (Char.ofNat n)
  | pair {t u : List Char} {m n : Nat} (ht : CodeUnit t m) (hm : 0xd800 ≤ m ∧ m < 0xdc00)
      (hu : CodeUnit u n) (hn : 0xdc00 ≤ n ∧ n < 0xe000) :
      Spelling ('\\' :: 'u' :: t ++ '\\' :: 'u' :: u)
        (Char.ofNat (0x10000 + (m - 0xd800) * 0x400 + (n - 0xdc00)))

inductive Spells : List Char → List Char → Prop
  | nil : Spells [] []
  | cons {t u : List Char} {c : Char} {s : List Char} (h : Spelling t c) (hs : Spells u s) :
      Spells (t ++ u) (c :: s)

inductive Literal : List Char → String → Prop
  | mk {t : List Char} {s : String} (h : Spells t s.toList) : Literal ('"' :: t ++ ['"']) s

structure Digits (t : List Char) : Prop where
  ne_nil : t ≠ []
  isDigit : ∀ c ∈ t, c.isDigit = true
  eq_zero_of_head : t.head? = some '0' → t = ['0']

def wordLimit : Nat := 18446744073709551615

structure Numeral (t : List Char) (n : Nat) : Prop extends Digits t where
  value : Nat.ofDigitChars 10 t 0 = n
  le_limit : n ≤ wordLimit

inductive Lead : Bool → List Char → Prop
  | first {u : List Char} (hu : Blank u) : Lead true u
  | later {u v : List Char} (hu : Blank u) (hv : Blank v) : Lead false (u ++ ',' :: v)

end Json

namespace Config

open Json

inductive Names : String → Metric.Kind → Prop
  | name (k : Metric.Kind) : Names k.name k
  | l2 : Names "l2" .euclidean
  | l1 : Names "l1" .manhattan

inductive MetricText : List Char → Metric.Kind → Prop
  | name {t : List Char} {s : String} {k : Metric.Kind} (h : Literal t s) (hk : Names s k) :
      MetricText t k
  | tagged {t u v w x : List Char} {s : String} {k : Metric.Kind} (hu : Blank u) (h : Literal t s)
      (hk : Names s k) (hv : Blank v) (hw : Blank w) (hx : Blank x) :
      MetricText ('\x7b' :: u ++ t ++ v ++ ':' :: w ++ "null".toList ++ x ++ ['\x7d']) k

inductive Member
  | dimension (n : Nat)
  | metric (k : Metric.Kind)

namespace Member

def dimension? : Member → Option Nat
  | .dimension n => some n
  | .metric _ => none

def metric? : Member → Option Metric.Kind
  | .dimension _ => none
  | .metric k => some k

end Member

inductive MemberText : List Char → Member → Prop
  | dimension {t u v w : List Char} {n : Nat} (ht : Literal t "dimension") (hu : Blank u)
      (hv : Blank v) (hn : Numeral w n) : MemberText (t ++ u ++ ':' :: v ++ w) (.dimension n)
  | metric {t u v w : List Char} {k : Metric.Kind} (ht : Literal t "metric") (hu : Blank u)
      (hv : Blank v) (hk : MetricText w k) : MemberText (t ++ u ++ ':' :: v ++ w) (.metric k)

/-- What may stand before the closing brace, from the opening one or from a member on. -/
inductive Members : Bool → List Char → List Member → Prop
  | nil {isFirst : Bool} {u : List Char} (hu : Blank u) : Members isFirst u []
  | cons {isFirst : Bool} {t u w : List Char} {m : Member} {ms : List Member}
      (hu : Lead isFirst u) (hm : MemberText t m) (hms : Members false w ms) :
      Members isFirst (u ++ t ++ w) (m :: ms)

/-- The dimension is given once, the metric at most once. -/
structure Gives (ms : List Member) (c : Config) : Prop where
  dimension : ms.filterMap Member.dimension? = [c.dimension]
  metric : ms.filterMap Member.metric? = [c.metric] ∨
    ms.filterMap Member.metric? = [] ∧ c.metric = .euclidean

inductive Items : List Char → Config → Prop
  | single {t u v : List Char} {n : Nat} (hu : Blank u) (hn : Numeral t n) (hv : Blank v) :
      Items (u ++ t ++ v) ⟨n, .euclidean⟩
  | pair {s t u v w x : List Char} {n : Nat} {k : Metric.Kind} (hu : Blank u) (hn : Numeral t n)
      (hv : Blank v) (hw : Blank w) (hk : MetricText s k) (hx : Blank x) :
      Items (u ++ t ++ v ++ ',' :: w ++ s ++ x) ⟨n, k⟩

inductive ValueText : List Char → Config → Prop
  | object {t : List Char} {ms : List Member} {c : Config} (h : Members true t ms)
      (hc : Gives ms c) : ValueText ('\x7b' :: t ++ ['\x7d']) c
  | list {t : List Char} {c : Config} (h : Items t c) : ValueText ('[' :: t ++ [']']) c

/-- A whole text: the value of a configuration between blanks. -/
inductive Denotes : List Char → Config → Prop
  | mk {t u v : List Char} {c : Config} (hu : Blank u) (h : ValueText t c) (hv : Blank v) :
      Denotes (u ++ t ++ v) c

end Config

end Vicinity
