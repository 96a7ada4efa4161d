import Vicinity.Proofs.Exactness

namespace Vicinity

open Number Number.Value

/-- An element type of integers. They lie in a window of length `2 ^ bits` around zero. -/
class Integral (α : Type) [Element α] where
  bits : Nat
  low : Int
  value : α → Int
  bits_le : bits ≤ 32 := by decide
  low_le_zero : low ≤ 0 := by decide
  zero_lt_high : 0 < low + (1 <<< bits : Nat) := by decide
  low_le_value : ∀ x, low ≤ value x
  value_lt_high : ∀ x, value x < low + (1 <<< bits : Nat)
  value_inj : ∀ {x y}, value x = value y ↔ x = y
  widen_eq : ∀ x, widen x = .ofInt (value x)

namespace Integral

instance : Integral Int8 where
  bits := 8
  low := -128
  value := Int8.toInt
  low_le_value := Int8.le_toInt
  value_lt_high := Int8.toInt_lt
  value_inj := Int8.toInt_inj
  widen_eq _ := rfl

instance : Integral UInt8 where
  bits := 8
  low := 0
  value x := x.toNat
  low_le_value _ := Int.natCast_nonneg _
  value_lt_high x := Int.ofNat_lt.2 x.toNat_lt
  value_inj := Int.ofNat_inj.trans UInt8.toNat_inj
  widen_eq _ := rfl

instance : Integral Int16 where
  bits := 16
  low := -32768
  value := Int16.toInt
  low_le_value := Int16.le_toInt
  value_lt_high := Int16.toInt_lt
  value_inj := Int16.toInt_inj
  widen_eq _ := rfl

instance : Integral UInt16 where
  bits := 16
  low := 0
  value x := x.toNat
  low_le_value _ := Int.natCast_nonneg _
  value_lt_high x := Int.ofNat_lt.2 x.toNat_lt
  value_inj := Int.ofNat_inj.trans UInt16.toNat_inj
  widen_eq _ := rfl

instance : Integral Int32 where
  bits := 32
  low := -2147483648
  value := Int32.toInt
  low_le_value := Int32.le_toInt
  value_lt_high := Int32.toInt_lt
  value_inj := Int32.toInt_inj
  widen_eq _ := rfl

instance : Integral UInt32 where
  bits := 32
  low := 0
  value x := x.toNat
  low_le_value _ := Int.natCast_nonneg _
  value_lt_high x := Int.ofNat_lt.2 x.toNat_lt
  value_inj := Int.ofNat_inj.trans UInt32.toNat_inj
  widen_eq _ := rfl

variable {α : Type} [Element α] [Integral α]

theorem one_shiftLeft_bits_le : 1 <<< bits α ≤ 1 <<< 32 :=
  shiftLeft_le_shiftLeft_right 1 (bits_le (α := α))

theorem natAbs_sub_lt (x y : α) : (value x - value y).natAbs < 1 <<< bits α := by
  have hx := low_le_value x
  have hy := low_le_value y
  have hx' := value_lt_high x
  have hy' := value_lt_high y
  omega

theorem natAbs_value_lt (x : α) : (value x).natAbs < 1 <<< bits α := by
  have hzero := low_le_zero (α := α)
  have hzero' := zero_lt_high (α := α)
  have hx := low_le_value x
  have hx' := value_lt_high x
  omega

theorem natAbs_value_lt_significand (x : α) : (value x).natAbs < 1 <<< 53 :=
  ((natAbs_value_lt x).trans_le one_shiftLeft_bits_le).trans (by decide)

theorem widen_sub_widen (x y : α) : widen x - widen y = .ofInt (value x - value y) := by
  have hx := natAbs_value_lt x
  have hy := natAbs_value_lt y
  have hbits := one_shiftLeft_bits_le (α := α)
  rw [widen_eq, widen_eq, ofInt_sub (by omega) (by omega)]

end Integral

end Vicinity
