import Vicinity.Metric.Kind

namespace Vicinity

structure Config where
  dimension : Nat
  metric : Metric.Kind
  deriving DecidableEq

namespace Config

def defaultDimension : Nat := 768

instance : Inhabited Config := ⟨⟨defaultDimension, default⟩⟩

def validate (c : Config) : Except Error Unit :=
  if c.dimension = 0 then .error .invalidDimension else .ok ()

end Config

end Vicinity
