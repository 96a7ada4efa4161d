import Vicinity.Index.Basic

namespace Vicinity

inductive Command (K α : Type)
  | set (key : K) (vector : List α)
  | remove (key : K)
  | clear
  | get (key : K)
  | contains (key : K)
  | keys
  | entries
  | size
  | isEmpty
  | dimension
  | metric
  | nearest (query : List α) (k : Nat)
  | nearestWithDistances (query : List α) (k : Nat)
  deriving DecidableEq

inductive Reply (K α : Type)
  | done
  | flag (b : Bool)
  | count (n : Nat)
  | name (s : String)
  | vector (v : Option (List α))
  | keys (ks : List K)
  | entries (es : List (K × List α))
  | neighbors (ns : List (Neighbor K))
  deriving DecidableEq

namespace Index

variable {K α : Type} [DecidableEq K] [Hashable K]

/-- A command that fails leaves the index as it was. -/
def executeInOrder (order : KeyOrder K) (ix : Index K α) :
    Command K α → Except Error (Reply K α) × Index K α
  | .set key vector =>
    match ix.set key vector with
    | .ok (replaced, ix) => (.ok (.flag replaced), ix)
    | .error e => (.error e, ix)
  | .remove key =>
    match ix.removeInOrder order key with
    | .ok (vector, ix) => (.ok (.vector vector), ix)
    | .error d => (.error (.defect d), ix)
  | .clear => (.ok .done, ix.clear)
  | .get key => (((ix.get key).mapError .defect).map .vector, ix)
  | .contains key => (.ok (.flag (ix.contains key)), ix)
  | .keys => (.ok (.keys ix.keys), ix)
  | .entries => (.ok (.entries ix.entries), ix)
  | .size => (.ok (.count ix.size), ix)
  | .isEmpty => (.ok (.flag ix.isEmpty), ix)
  | .dimension => (.ok (.count ix.dimension), ix)
  | .metric => (.ok (.name ix.metric.name), ix)
  | .nearest query k => ((ix.nearest query k).map .keys, ix)
  | .nearestWithDistances query k => ((ix.nearestWithDistances query k).map .neighbors, ix)

def execute (ix : Index K α) (c : Command K α) : Except Error (Reply K α) × Index K α :=
  ix.executeInOrder .standard c

def runInOrders (ix : Index K α) :
    List (KeyOrder K × Command K α) → List (Except Error (Reply K α)) × Index K α
  | [] => ([], ix)
  | (order, c) :: cs =>
    let (reply, ix) := ix.executeInOrder order c
    let (replies, ix) := ix.runInOrders cs
    (reply :: replies, ix)

def run (ix : Index K α) (cs : List (Command K α)) : List (Except Error (Reply K α)) × Index K α :=
  ix.runInOrders (cs.map fun c => (.standard, c))

end Index

end Vicinity
