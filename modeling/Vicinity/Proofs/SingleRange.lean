import Vicinity.Proofs.Integral
import Vicinity.Proofs.Vanishing

namespace Vicinity

namespace Number

variable {F G : Format} {m k : Nat}

theorem Format.Holds.shiftLeft (hm : F.Holds m) (hdigits : F.fractionBits ≤ G.fractionBits)
    (hlt : m <<< k < G.limit) : G.Holds (m <<< k) := by
  obtain ⟨q, hq⟩ := hm.2
  have hspacing := lt_shiftLeft_spacing F.fractionBits m
  generalize spacing F.fractionBits m = s at hq hspacing
  refine holds_of_dvd (s := s + k) hlt ⟨q, ?_⟩ ?_
  · rw [hq, Nat.shiftLeft_add, Nat.shiftLeft_eq, Nat.shiftLeft_eq (1 <<< s), Nat.mul_right_comm]
  · calc
      m <<< k < 1 <<< (F.fractionBits + 1 + s + k) := shiftLeft_lt hspacing k
      _ = 1 <<< (F.fractionBits + 1 + (s + k)) := by rw [Nat.add_assoc]
      _ ≤ 1 <<< (G.fractionBits + 1 + (s + k)) :=
        shiftLeft_le_shiftLeft_right 1 (by omega)

namespace Value

def singleUnit : Nat := 1 <<< (binary64.scale - binary32.scale)

/-- A multiple of the least positive number of binary32 and, if finite, in its range. -/
def InSingleRange : Binary64 → Prop
  | .finite _ m _ => singleUnit ∣ m ∧ m < binary32.limit * singleUnit
  | .infinite _ | .nan => True

theorem singleUnit_pos : 0 < singleUnit := one_shiftLeft_pos _

theorem one_shiftLeft_scale : 1 <<< binary64.scale = 1 <<< binary32.scale * singleUnit := by
  rw [singleUnit, one_shiftLeft_mul_one_shiftLeft]
  exact congrArg (1 <<< ·) (by decide)

theorem limit_mul_singleUnit_lt : binary32.limit * singleUnit < binary64.limit := by
  rw [singleUnit, Format.limit, Format.limit, one_shiftLeft_mul_one_shiftLeft]
  exact one_shiftLeft_lt (by decide)

theorem holds_mul_singleUnit (hm : binary32.Holds m) : binary64.Holds (m * singleUnit) := by
  have hlt : m * singleUnit < binary64.limit :=
    (Nat.mul_lt_mul_of_pos_right hm.1 singleUnit_pos).trans limit_mul_singleUnit_lt
  rw [singleUnit, ← shiftLeft_eq_mul] at hlt ⊢
  exact hm.shiftLeft (by decide) hlt

theorem convert_finite (s : Bool) (hm : binary32.Holds m) :
    (finite s m hm).convert binary64 = finite s (m * singleUnit) (holds_mul_singleUnit hm) := by
  rw [convert, shiftLeft_eq_mul, one_shiftLeft_scale, Nat.mul_left_comm, Nat.mul_comm (1 <<< _)]
  exact nearest_mul s _ (one_shiftLeft_pos _)

theorem signed_mul (s : Bool) (m n : Nat) : signed s (m * n) = signed s m * n := by
  cases s with
  | false => exact Int.natCast_mul m n
  | true => exact (congrArg Neg.neg (Int.natCast_mul m n)).trans (Int.neg_mul _ _).symm

theorem isNaN_convert (x : Binary32) : (x.convert binary64).isNaN = x.isNaN := by
  cases x with
  | nan | infinite => rfl
  | finite s m hm =>
      rw [convert_finite]
      rfl

theorem isFinite_convert (x : Binary32) : (x.convert binary64).isFinite = x.isFinite := by
  cases x with
  | nan | infinite => rfl
  | finite s m hm =>
      rw [convert_finite]
      rfl

theorem isZero_convert (x : Binary32) : (x.convert binary64).isZero = x.isZero := by
  cases x with
  | nan | infinite => rfl
  | finite s m hm =>
      have hunit : singleUnit ≠ 0 := singleUnit_pos.ne'
      rw [convert_finite]
      simp only [isZero, beq_eq_beq, Nat.mul_eq_zero, hunit, or_false]

theorem level?_convert_eq_iff {x y : Binary32} :
    (x.convert binary64).level? = (y.convert binary64).level? ↔ x.level? = y.level? := by
  cases x with
  | nan =>
      cases y with
      | nan => exact iff_of_true rfl rfl
      | infinite => exact iff_of_false nofun nofun
      | finite t n hn =>
          rw [convert_finite]
          exact iff_of_false nofun nofun
  | infinite s =>
      cases y with
      | nan => exact iff_of_false nofun nofun
      | infinite t => exact level?_infinite_inj.trans level?_infinite_inj.symm
      | finite t n hn =>
          rw [convert_finite]
          exact iff_of_false (level?_finite_ne_infinite t s _).symm
            (level?_finite_ne_infinite t s hn).symm
  | finite s m hm =>
      rw [convert_finite]
      cases y with
      | nan => exact iff_of_false nofun nofun
      | infinite t =>
          exact iff_of_false (level?_finite_ne_infinite s t _) (level?_finite_ne_infinite s t hm)
      | finite t n hn =>
          have hpos : (singleUnit : Int) ≠ 0 := Int.natCast_ne_zero.2 singleUnit_pos.ne'
          rw [convert_finite]
          simp only [level?, signed_mul, Option.some_inj]
          exact Int.mul_eq_mul_right_iff hpos

theorem dvd_signed (h : k ∣ m) (s : Bool) : (k : Int) ∣ signed s m := by
  obtain ⟨q, rfl⟩ := h
  rw [Nat.mul_comm, signed_mul]
  exact Int.dvd_mul_left _ _

theorem one_shiftLeft_scale_le : 1 <<< binary64.scale ≤ singleUnit * singleUnit := by
  rw [singleUnit, one_shiftLeft_mul_one_shiftLeft]
  exact shiftLeft_le_shiftLeft_right 1 (by decide)

/-- A difference is such a multiple as well, so one that is not zero is no less than the least. -/
theorem InSingleRange.sub {x y : Binary64} (hx : x.InSingleRange) (hy : y.InSingleRange) :
    (x - y).ZeroOrFrom singleUnit := by
  cases x with
  | nan => trivial
  | infinite s =>
      cases y with
      | nan | finite => trivial
      | infinite t => cases s <;> cases t <;> trivial
  | finite s m hm =>
      cases y with
      | nan | infinite => trivial
      | finite t n hn =>
          have hlow : 1 <<< spacing binary64.fractionBits singleUnit ∣ singleUnit := by
            rw [singleUnit]
            exact one_shiftLeft_spacing_dvd _ _
          refine zeroOrFrom_add_finite (t := !t) hlow ?_
          have hdvd := Int.dvd_add (dvd_signed hx.1 s) (dvd_signed hy.1 (!t))
          rcases eq_or_ne (signed s m + signed (!t) n) 0 with hzero | hne
          · exact .inl hzero
          · exact .inr (Nat.le_of_dvd (Int.natAbs_pos.2 hne) (Int.ofNat_dvd_left.1 hdvd))

end Value

end Number

open Number Number.Value

/-- An element type that widens into the range of binary32, though maybe to more digits. -/
class SingleRange (α : Type) [Element α] : Prop where
  widen_inSingleRange : ∀ x : α, (widen x).InSingleRange

instance : SingleRange Binary32 where
  widen_inSingleRange x := by
    cases x with
    | nan | infinite => trivial
    | finite s m hm =>
        change (convert binary64 _).InSingleRange
        rw [convert_finite]
        exact ⟨Nat.dvd_mul_left _ _, Nat.mul_lt_mul_of_pos_right hm.1 singleUnit_pos⟩

instance {α : Type} [Element α] [Integral α] : SingleRange α where
  widen_inSingleRange x := by
    have hlt : (Integral.value x).natAbs < 1 <<< 32 :=
      (Integral.natAbs_value_lt x).trans_le Integral.one_shiftLeft_bits_le
    rw [Integral.widen_eq, ofInt_eq (by omega)]
    change singleUnit ∣ _ <<< _ ∧ _ <<< _ < _
    rw [shiftLeft_eq_mul, one_shiftLeft_scale, ← Nat.mul_assoc]
    refine ⟨Nat.dvd_mul_left _ _, Nat.mul_lt_mul_of_pos_right ?_ singleUnit_pos⟩
    calc
      (Integral.value x).natAbs * 1 <<< binary32.scale < 1 <<< 32 * 1 <<< binary32.scale :=
        Nat.mul_lt_mul_of_pos_right hlt (one_shiftLeft_pos _)
      _ = 1 <<< (32 + binary32.scale) := one_shiftLeft_mul_one_shiftLeft _ _
      _ ≤ binary32.limit := shiftLeft_le_shiftLeft_right 1 (by decide)

end Vicinity
