import Vicinity.Config.Basic

namespace Vicinity

/-- The tag of a metric in JSON. All tags are plain letters, so nothing in them is escaped. -/
def Metric.Kind.tag : Metric.Kind → String
  | .euclidean => "euclidean"
  | .squaredEuclidean => "squared_euclidean"
  | .manhattan => "manhattan"
  | .cosine => "cosine"

def Metric.Kind.toJson (k : Metric.Kind) : String := "\"" ++ k.tag ++ "\""

def Config.toJson (c : Config) : String :=
  "\x7b\"dimension\":" ++ c.dimension.repr ++ ",\"metric\":" ++ c.metric.toJson ++ "\x7d"

end Vicinity
