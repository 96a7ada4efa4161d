import Vicinity.Proofs.Signs
import Vicinity.Proofs.Rounding

namespace Vicinity.Number

namespace Format

variable {F : Format} {m s : Nat}

theorem holds_of_dvd (hm : m < F.limit) (hs : 1 <<< s ∣ m)
    (hlt : m < 1 <<< (F.fractionBits + 1 + s)) : F.Holds m := by
  refine ⟨hm, Nat.dvd_trans ?_ hs⟩
  rw [Nat.one_shiftLeft, Nat.one_shiftLeft]
  exact Nat.pow_dvd_pow 2 (spacing_le_of_lt hlt)

theorem holds_shiftLeft {n k : Nat} (hn : n < 1 <<< 53) (hk : k ≤ 2045) :
    binary64.Holds (n <<< k) := by
  have hlimit : 1 <<< (53 + k) ≤ binary64.limit :=
    shiftLeft_le_shiftLeft_right 1 (Nat.add_le_add_left hk 53)
  exact ⟨Nat.lt_of_lt_of_le (shiftLeft_lt hn k) hlimit, spacing_dvd_shiftLeft hn k⟩

theorem holds_integer {n : Nat} (hn : n < 1 <<< 53) : binary64.Holds (n <<< binary64.scale) :=
  holds_shiftLeft hn (by decide)

end Format

namespace Value

variable {F : Format} {x y : Value F} {m n : Nat} {s t : Bool}

theorem nearest_of_roundTo_eq (negative : Bool) (hm : F.Holds m) {num den : Nat}
    (h : roundTo F.fractionBits num den = m) :
    nearest negative num den = finite negative m hm := by
  subst h
  exact dif_pos hm.1

theorem nearest_mul (negative : Bool) (hm : F.Holds m) {den : Nat} (hden : 0 < den) :
    nearest negative (m * den) den = finite negative m hm :=
  nearest_of_roundTo_eq negative hm (roundTo_mul hm.2 hden)

theorem nearest_one (negative : Bool) (hm : F.Holds m) :
    nearest negative m 1 = finite negative m hm := by
  have h := nearest_mul negative hm Nat.one_pos
  rwa [Nat.mul_one] at h

theorem isNaN_ofInt (n : Int) : (ofInt n : Value F).isNaN = false := by
  rw [ofInt, nearest]
  split <;> rfl

theorem ofInt_zero : (ofInt 0 : Value F) = zero false := by
  have h := nearest_one false F.holds_zero
  rw [ofInt, Int.natAbs_zero, Nat.zero_shiftLeft]
  exact h

theorem finite_add_finite {hm : F.Holds m} {hn : F.Holds n} {a b : Int}
    (ha : signed s m = a * (1 <<< F.scale : Nat)) (hb : signed t n = b * (1 <<< F.scale : Nat))
    (hst : a + b = 0 → (s && t) = false) :
    (finite s m hm + finite t n hn : Value F) = ofInt (a + b) := by
  have hunit : (0 : Int) < (1 <<< F.scale : Nat) := Int.natCast_pos.2 (one_shiftLeft_pos _)
  change Value.add _ _ = _
  simp only [Value.add]
  rw [ha, hb, ← Int.add_mul]
  by_cases h : a + b = 0
  · rw [h, Int.zero_mul, if_pos rfl, hst h, ofInt_zero]
  · have hneg : (a + b) * (1 <<< F.scale : Nat) < 0 ↔ a + b < 0 := by
      refine ⟨fun hlt => ?_, fun hlt => Int.mul_neg_of_neg_of_pos hlt hunit⟩
      exact lt_of_not_ge fun hle => hlt.not_ge (Int.mul_nonneg hle hunit.le)
    rw [if_neg (Int.mul_ne_zero h hunit.ne'), ofInt, Int.natAbs_mul, Int.natAbs_natCast,
      mul_shiftLeft, Nat.mul_one, decide_eq_decide.2 hneg]

end Value

section Integers

open Value

variable {a b : Int} {n : Nat}

theorem signed_shiftLeft (a : Int) (k : Nat) :
    signed (decide (a < 0)) (a.natAbs <<< k) = a * (1 <<< k : Nat) := by
  rw [Nat.shiftLeft_eq, Nat.one_shiftLeft, signed, Int.natCast_mul]
  by_cases h : a < 0
  · rw [if_pos (decide_eq_true h), ← Int.neg_mul]
    congr 1
    omega
  · rw [if_neg (by simpa using h)]
    congr 1
    omega

theorem ofInt_eq (ha : a.natAbs < 1 <<< 53) :
    (ofInt a : Binary64) = finite (decide (a < 0)) (a.natAbs <<< binary64.scale)
      (Format.holds_integer ha) :=
  nearest_one _ _

theorem level?_ofInt (ha : a.natAbs < 1 <<< 53) :
    (ofInt a : Binary64).level? = some (a * (1 <<< binary64.scale : Nat)) := by
  rw [ofInt_eq ha]
  exact congrArg some (signed_shiftLeft a _)

theorem ofInt_add (ha : a.natAbs < 1 <<< 53) (hb : b.natAbs < 1 <<< 53) :
    (ofInt a + ofInt b : Binary64) = ofInt (a + b) := by
  rw [ofInt_eq ha, ofInt_eq hb]
  refine finite_add_finite (signed_shiftLeft a _) (signed_shiftLeft b _) fun h => ?_
  rw [Bool.and_eq_false_iff, decide_eq_false_iff_not, decide_eq_false_iff_not]
  omega

theorem ofInt_sub (ha : a.natAbs < 1 <<< 53) (hb : b.natAbs < 1 <<< 53) :
    (ofInt a - ofInt b : Binary64) = ofInt (a - b) := by
  rw [ofInt_eq ha, ofInt_eq hb, Int.sub_eq_add_neg]
  refine finite_add_finite (signed_shiftLeft a _) ?_ fun h => ?_
  · rw [signed_not, signed_shiftLeft, Int.neg_mul]
  · rw [Bool.and_eq_false_iff, Bool.not_eq_false', decide_eq_false_iff_not, decide_eq_true_eq]
    omega

theorem zero_add_ofInt (hb : b.natAbs < 1 <<< 53) (hnonneg : 0 ≤ b) :
    (zero true + ofInt b : Binary64) = ofInt b := by
  have h : (zero true + ofInt b : Binary64) = ofInt (0 + b) := by
    rw [ofInt_eq hb]
    refine finite_add_finite ?_ (signed_shiftLeft b _) fun _ => ?_
    · rw [Int.zero_mul]
      rfl
    · exact decide_eq_false (Int.not_lt.2 hnonneg)
  rw [h, Int.zero_add]

theorem ofInt_natCast (hn : n < 1 <<< 53) :
    (ofInt n : Binary64) = finite false (n <<< binary64.scale) (Format.holds_integer hn) :=
  ofInt_eq (a := n) hn

theorem abs_ofInt (ha : a.natAbs < 1 <<< 53) : (ofInt a : Binary64).abs = ofInt a.natAbs := by
  rw [ofInt_eq ha, ofInt_natCast ha, Value.abs]

theorem ofInt_mul_self (ha : a.natAbs < 1 <<< 53) (hsq : a.natAbs * a.natAbs < 1 <<< 53) :
    (ofInt a * ofInt a : Binary64) = ofInt (a.natAbs * a.natAbs : Nat) := by
  have hprod : a.natAbs <<< binary64.scale * a.natAbs <<< binary64.scale =
      (a.natAbs * a.natAbs) <<< binary64.scale * 1 <<< binary64.scale := by
    simp only [Nat.shiftLeft_eq, Nat.one_mul]
    rw [Nat.mul_mul_mul_comm, ← Nat.mul_assoc]
  rw [ofInt_eq ha, ofInt_natCast hsq]
  change Value.mul _ _ = _
  rw [Value.mul, Bool.xor_self, hprod]
  exact nearest_mul false _ (one_shiftLeft_pos _)

/-- Nothing but the integer, on the positive side if it is zero. -/
def Value.Exactly {F : Format} (x : Value F) (n : Nat) : Prop :=
  ∃ h, x = .finite false (n <<< F.scale) h

theorem exactly_ofInt {n : Nat} (hn : n < 1 <<< 53) : (ofInt n : Binary64).Exactly n :=
  ⟨_, ofInt_natCast hn⟩

theorem place_ofInt {n : Nat} (hn : n < 1 <<< 53) :
    (ofInt n : Binary64).place = .number (n <<< binary64.scale : Nat) := by
  rw [ofInt_natCast hn]
  rfl

theorem place_ofInt_lt {m n : Nat} (hmn : m < n) (hn : n < 1 <<< 53) :
    (ofInt m : Binary64).place < (ofInt n : Binary64).place := by
  rw [place_ofInt (hmn.trans hn), place_ofInt hn, Place.number_lt_number, Int.ofNat_lt]
  exact shiftLeft_lt_shiftLeft hmn _

end Integers

end Vicinity.Number
