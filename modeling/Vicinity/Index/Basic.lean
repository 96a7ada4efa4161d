import Std.Data.HashMap
import Vicinity.Config.Reader
import Vicinity.Ranking.Rank

namespace Vicinity

structure Neighbor (K : Type) where
  key : K
  distance : Number.Binary64
  deriving DecidableEq

/-- Vectors of one dimension under distinct keys. A key's slot is its place in `keys`, its row the
`dimension` cells from `slot * dimension` on. -/
structure Index (K α : Type) [DecidableEq K] [Hashable K] where
  dimension : Nat
  dimension_pos : 0 < dimension
  metric : Metric α
  backend : Backend
  keys : List K
  slots : Std.HashMap K Nat
  cells : List α

/-- Addresses are words of 64 bits. -/
def addressLimit : Nat := 0x10000000000000000

/-- An order in which to visit the keys of a map, each of them once. -/
structure KeyOrder (K : Type) [DecidableEq K] [Hashable K] where
  keys : Std.HashMap K Nat → List K
  keys_perm : ∀ slots, (keys slots).Perm slots.keys

def KeyOrder.standard {K : Type} [DecidableEq K] [Hashable K] : KeyOrder K :=
  ⟨Std.HashMap.keys, fun _ => .refl _⟩

namespace Index

variable {K α : Type} [DecidableEq K] [Hashable K]

def emptyOn (dimension : Nat) (metric : Metric α) (backend : Backend) :
    Except Error (Index K α) :=
  if h : 0 < dimension then .ok ⟨dimension, h, metric, backend, [], ∅, []⟩
  else .error .invalidDimension

def emptyWith (dimension : Nat) (metric : Metric α) : Except Error (Index K α) :=
  emptyOn dimension metric .standard

variable [Element α] in
def empty (dimension : Nat) : Except Error (Index K α) := emptyWith dimension .euclidean

variable [Element α] in
def ofConfig (c : Config) : Except Error (Index K α) := do
  c.validate
  emptyWith c.dimension c.metric.metric

def checkDimension (ix : Index K α) (length : Nat) : Except Error Unit :=
  if length = ix.dimension then .ok () else .error (.dimensionMismatch ix.dimension length)

def rowStart (ix : Index K α) (slot : Nat) : Except Defect Nat :=
  let start := slot * ix.dimension
  if addressLimit ≤ start + ix.dimension then .error .addressOverflow
  else if ix.cells.length < start + ix.dimension then .error .outOfRange
  else .ok start

def row (ix : Index K α) (slot : Nat) : Except Defect (List α) := do
  let start ← ix.rowStart slot
  return (ix.cells.drop start).take ix.dimension

def withoutRow (ix : Index K α) (slot : Nat) : Except Defect (List α) := do
  let start ← ix.rowStart slot
  return ix.cells.take start ++ ix.cells.drop (start + ix.dimension)

def overwriteRow (ix : Index K α) (slot : Nat) (vector : List α) : Except Defect (List α) := do
  let start ← ix.rowStart slot
  if vector.length ≠ ix.dimension then .error .unequalLengths
  return ix.cells.take start ++ vector ++ ix.cells.drop (start + ix.dimension)

def appendRow (ix : Index K α) (vector : List α) : Except Defect (List α) :=
  if addressLimit ≤ ix.cells.length + vector.length then .error .addressOverflow
  else .ok (ix.cells ++ vector)

/-- Stores a vector and tells whether it replaced one. A replaced vector's key keeps its slot,
a new key gets the next one. -/
def set (ix : Index K α) (key : K) (vector : List α) : Except Error (Bool × Index K α) := do
  ix.checkDimension vector.length
  match ix.slots[key]? with
  | some slot =>
    let cells ← (ix.overwriteRow slot vector).mapError .defect
    return (true, { ix with cells })
  | none =>
    let cells ← (ix.appendRow vector).mapError .defect
    return (false, { ix with
      keys := ix.keys ++ [key]
      slots := ix.slots.insert key ix.keys.length
      cells })

def get (ix : Index K α) (key : K) : Except Defect (Option (List α)) :=
  match ix.slots[key]? with
  | some slot => (ix.row slot).map some
  | none => .ok none

def contains (ix : Index K α) (key : K) : Bool := ix.slots.contains key

def closeGap (freed slot : Nat) : Nat := if freed < slot then slot - 1 else slot

def renumber (freed : Nat) (order : List K) (slots : Std.HashMap K Nat) : Std.HashMap K Nat :=
  order.foldl (fun slots key => slots.modify key (closeGap freed)) slots

def eraseKey (ix : Index K α) (slot : Nat) : Except Defect (List K) :=
  if slot < ix.keys.length then .ok (ix.keys.eraseIdx slot) else .error .outOfRange

/-- Takes a key out and answers its vector. The other keys are renumbered in the given order. -/
def removeInOrder (order : KeyOrder K) (ix : Index K α) (key : K) :
    Except Defect (Option (List α) × Index K α) := do
  match ix.slots[key]? with
  | none => return (none, ix)
  | some slot =>
    let others := ix.slots.erase key
    let keys ← ix.eraseKey slot
    let vector ← ix.row slot
    let cells ← ix.withoutRow slot
    return (some vector, { ix with keys, slots := renumber slot (order.keys others) others, cells })

def remove (ix : Index K α) (key : K) : Except Defect (Option (List α) × Index K α) :=
  ix.removeInOrder .standard key

def clear (ix : Index K α) : Index K α := { ix with keys := [], slots := ∅, cells := [] }

def entries (ix : Index K α) : List (K × List α) :=
  ix.keys.zip (rows ix.dimension ix.dimension_pos ix.cells)

def size (ix : Index K α) : Nat := ix.keys.length

def isEmpty (ix : Index K α) : Bool := ix.keys.isEmpty

def neighbor (ix : Index K α) (c : Candidate) : Except Defect (Neighbor K) :=
  match ix.keys[c.slot]? with
  | some key => .ok ⟨key, c.distance⟩
  | none => .error .outOfRange

def nearestWithDistances (ix : Index K α) (query : List α) (k : Nat) :
    Except Error (List (Neighbor K)) := do
  ix.checkDimension query.length
  ((ix.backend.rank ix.metric query ix.cells k).mapM ix.neighbor).mapError .defect

def nearest (ix : Index K α) (query : List α) (k : Nat) : Except Error (List K) :=
  (ix.nearestWithDistances query k).map fun ns => ns.map Neighbor.key

end Index

end Vicinity
