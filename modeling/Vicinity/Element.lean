import Vicinity.Number.Binary

namespace Vicinity

open Number

/-- A component of a vector, widened without loss before any arithmetic. -/
class Element (α : Type) where
  widen : α → Binary64

export Element (widen)

instance : Element Binary64 := ⟨id⟩
instance : Element Binary32 := ⟨.convert binary64⟩
instance : Element Int8 := ⟨fun x => .ofInt x.toInt⟩
instance : Element UInt8 := ⟨fun x => .ofInt x.toNat⟩
instance : Element Int16 := ⟨fun x => .ofInt x.toInt⟩
instance : Element UInt16 := ⟨fun x => .ofInt x.toNat⟩
instance : Element Int32 := ⟨fun x => .ofInt x.toInt⟩
instance : Element UInt32 := ⟨fun x => .ofInt x.toNat⟩

end Vicinity
