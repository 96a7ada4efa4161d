import Vicinity.Config.Basic
import Vicinity.Json.Mismatch
import Vicinity.Json.Structure

namespace Vicinity

open Json

namespace Config

def readSize (cs : List Char) : Except Failure (Nat × List Char) := do
  match skipBlank cs with
  | [] => failNext .eofInValue []
  | c :: rest =>
    if startsNumber c then
      let (n, rest) ← numberLiteral (c :: rest)
      match n with
      | .natural n => return (n, rest)
      | .negative _ => failHere (.invalidValue n.found "usize") rest
      | .real _ => failHere (.invalidType n.found "usize") rest
    else mismatch "usize" (c :: rest)

/-- The spellings in the order in which an unknown one is answered. -/
def spellings : List (String × Metric.Kind) :=
  [("euclidean", .euclidean), ("l2", .euclidean), ("squared_euclidean", .squaredEuclidean),
    ("l1", .manhattan), ("manhattan", .manhattan), ("cosine", .cosine)]

def readName (cs : List Char) : Except Failure (Metric.Kind × List Char) := do
  let (name, rest) ← stringBody cs
  match spellings.lookup name with
  | some k => return (k, rest)
  | none => failHere (.unknownVariant name (spellings.map Prod.fst)) rest

def readUnit (cs : List Char) : Except Failure (List Char) :=
  match skipBlank cs with
  | [] => failNext .eofInValue []
  | 'n' :: rest => ident "ull".toList rest
  | cs => mismatch "unit" cs

/-- An object with the name as its only key and null as the value, after the opening brace. -/
def readTagged (cs : List Char) : Except Failure (Metric.Kind × List Char) := do
  match skipBlank cs with
  | [] => failNext .eofInObject []
  | '\x7d' :: rest => failNext .expectedValue ('\x7d' :: rest)
  | '"' :: rest =>
    let (k, rest) ← readName rest
    let rest ← colon rest
    let rest ← readUnit rest
    match skipBlank rest with
    | [] => failHere .eofInObject []
    | '\x7d' :: rest => return (k, rest)
    | rest => failHere .expectedValue rest
  | cs => failNext .keyNotString cs

def readMetric (cs : List Char) : Read Metric.Kind :=
  match skipBlank cs with
  | [] => failNext .eofInValue []
  | '"' :: rest => readName rest
  | '\x7b' :: rest => readTagged rest
  | cs => failNext .expectedValue cs

structure Draft where
  dimension : Option Nat := none
  metric : Option Metric.Kind := none

def Draft.absent (d : Draft) : Nat :=
  (if d.dimension.isNone then 1 else 0) + if d.metric.isNone then 1 else 0

def readField {α : Type} (read : List Char → Read α) (cs : List Char) :
    Except Interruption (α × List Char) :=
  (do let rest ← colon cs; read rest : Except Failure (α × List Char)).mapError .failed

/-- A key that is unknown or has come before ends the reading before its value. -/
def readFields (isFirst : Bool) (d : Draft) (cs : List Char) :
    Except Interruption (Draft × List Char) :=
  match nextKey isFirst cs with
  | .error e => .error (.failed e)
  | .ok (none, rest) => .ok (d, rest)
  | .ok (some "dimension", rest) =>
    if _ : d.dimension.isSome then .error (.rejected (.duplicateField "dimension") rest)
    else match readField readSize rest with
      | .error e => .error e
      | .ok (n, rest) => readFields false { d with dimension := some n } rest
  | .ok (some "metric", rest) =>
    if _ : d.metric.isSome then .error (.rejected (.duplicateField "metric") rest)
    else match readField readMetric rest with
      | .error e => .error e
      | .ok (k, rest) => readFields false { d with metric := some k } rest
  | .ok (some name, rest) => .error (.rejected (.unknownField name ["dimension", "metric"]) rest)
termination_by d.absent
decreasing_by all_goals simp_all [Draft.absent]

def readObject (cs : List Char) : Except Interruption (Config × List Char) := do
  let (d, rest) ← readFields true {} cs
  match d.dimension with
  | some n => return (⟨n, d.metric.getD default⟩, rest)
  | none => .error (.rejected (.missingField "dimension") rest)

def shape : String := "struct IndexConfig"

def readList (cs : List Char) : Except Interruption (Config × List Char) := do
  let (found, rest) ← (nextItem true cs).mapError .failed
  if !found then .error (.rejected (.invalidLength 0 (shape ++ " with 2 elements")) rest)
  let (n, rest) ← (readSize rest).mapError .failed
  let (found, rest) ← (nextItem false rest).mapError .failed
  if !found then return (⟨n, default⟩, rest)
  let (k, rest) ← (readMetric rest).mapError .failed
  return (⟨n, k⟩, rest)

def read (cs : List Char) : Read Config :=
  match skipBlank cs with
  | [] => failNext .eofInValue []
  | '\x7b' :: rest => enclosed closeObject (readObject rest)
  | '[' :: rest => enclosed closeList (readList rest)
  | cs => mismatch shape cs

def parse (text : String) : Except Json.Error Config := document read text

def ofJson (text : String) : Except Error Config := do
  let c ← (parse text).mapError .invalidConfig
  c.validate
  return c

end Config

def Metric.Kind.ofJson (text : String) : Except Json.Error Metric.Kind :=
  document Config.readMetric text

end Vicinity
