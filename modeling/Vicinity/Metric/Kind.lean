import Vicinity.Error
import Vicinity.Metric.Basic

namespace Vicinity.Metric

inductive Kind
  | euclidean
  | squaredEuclidean
  | manhattan
  | cosine
  deriving DecidableEq, Repr

namespace Kind

instance : Inhabited Kind := ⟨.euclidean⟩

def name : Kind → String
  | .euclidean => "euclidean"
  | .squaredEuclidean => "squared_euclidean"
  | .manhattan => "manhattan"
  | .cosine => "cosine"

def parse (s : String) : Except Error Kind :=
  match s with
  | "euclidean" | "l2" => .ok .euclidean
  | "squared_euclidean" => .ok .squaredEuclidean
  | "manhattan" | "l1" => .ok .manhattan
  | "cosine" => .ok .cosine
  | _ => .error (.invalidMetric s)

instance : ToString Kind := ⟨name⟩

variable {α : Type} [Element α]

def distance : Kind → List α → List α → Number.Binary64
  | .euclidean => Metric.euclidean.distance
  | .squaredEuclidean => Metric.squaredEuclidean.distance
  | .manhattan => Metric.manhattan.distance
  | .cosine => Metric.cosine.distance

def metric (k : Kind) : Metric α := ⟨k.name, k.distance⟩

end Kind

end Vicinity.Metric
