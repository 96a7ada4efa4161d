import Mathlib.Tactic.Linarith
import Mathlib.Tactic.Ring
import Vicinity.Proofs.Exactness
import Vicinity.Proofs.SquareRoot

namespace Vicinity.Number

/-- Consecutive integers below `2 ^ 52` have roots more than one spacing of their size apart. Here
`u` is that spacing for roots just below `2 ^ 26`, and one is `2 ^ 27 * u`. -/
theorem sqrt_add_lt_sqrt {m n u : Nat} (hmn : m < n) (hn : n < 1 <<< 52) (hu : 1 <<< 53 ≤ u) :
    (m * (1 <<< 54 * (u * u))).sqrt + u < (n * (1 <<< 54 * (u * u))).sqrt := by
  have hroot := Nat.sqrt_le (m * (1 <<< 54 * (u * u)))
  generalize (m * (1 <<< 54 * (u * u))).sqrt = t at hroot ⊢
  simp only [Nat.reduceShiftLeft] at *
  have hmu : m * (u * u) ≤ 4503599627370494 * (u * u) := Nat.mul_le_mul_right _ (by omega)
  have hnu : (m + 1) * (u * u) ≤ n * (u * u) := Nat.mul_le_mul_right _ hmn
  have huu : 9007199254740992 * u ≤ u * u := Nat.mul_le_mul_right u hu
  have ht : t ≤ 9007199254740990 * u := by
    rw [← Nat.mul_self_le_mul_self_iff]
    linarith
  have htu : t * (u + 1) ≤ 9007199254740990 * u * (u + 1) := Nat.mul_le_mul_right _ ht
  rw [Nat.lt_iff_add_one_le, Nat.le_sqrt]
  calc
    (t + u + 1) * (t + u + 1) = t * t + 2 * (t * (u + 1)) + (u * u + 2 * u + 1) := by ring
    _ ≤ n * (18014398509481984 * (u * u)) := by linarith

theorem shiftLeft_scale_scale (n : Nat) :
    n <<< binary64.scale <<< binary64.scale = n * (1 <<< 54 * (1 <<< 1047 * 1 <<< 1047)) := by
  have hunits : 1 <<< binary64.scale * 1 <<< binary64.scale =
      1 <<< 54 * (1 <<< 1047 * 1 <<< 1047) := by
    simp only [one_shiftLeft_mul_one_shiftLeft]
    exact congrArg (1 <<< ·) (by decide)
  rw [shiftLeft_eq_mul, shiftLeft_eq_mul n, Nat.mul_assoc, hunits]

theorem twiceRoot_add_lt_twiceRoot {m n : Nat} (hmn : m < n) (hn : n < 1 <<< 52) :
    twiceRoot (m <<< binary64.scale <<< binary64.scale) + 2 <<< 1047 <
      twiceRoot (n <<< binary64.scale <<< binary64.scale) := by
  have hgap := sqrt_add_lt_sqrt (u := 1 <<< 1047) hmn hn
    (shiftLeft_le_shiftLeft_right 1 (by decide))
  rw [← shiftLeft_scale_scale, ← shiftLeft_scale_scale] at hgap
  have hm := twiceRoot_le (m <<< binary64.scale <<< binary64.scale)
  have hn := two_mul_sqrt_le (n <<< binary64.scale <<< binary64.scale)
  rw [shiftLeft_eq_mul 2]
  omega

theorem twiceRoot_div_lt {n : Nat} (hn : n < 1 <<< 52) :
    twiceRoot (n <<< binary64.scale <<< binary64.scale) / 2 < 1 <<< 1100 := by
  rw [twiceRoot_div_two, Nat.sqrt_lt, shiftLeft_scale_scale]
  simp only [one_shiftLeft_mul_one_shiftLeft]
  calc
    n * 1 <<< (54 + (1047 + 1047)) < 1 <<< 52 * 1 <<< (54 + (1047 + 1047)) :=
      Nat.mul_lt_mul_of_pos_right hn (one_shiftLeft_pos _)
    _ = 1 <<< (1100 + 1100) := one_shiftLeft_mul_one_shiftLeft _ _

namespace Value

theorem place_nearest_lt {F : Format} {a b den : Nat}
    (h : roundTo F.fractionBits a den < roundTo F.fractionBits b den)
    (hb : roundTo F.fractionBits b den < F.limit) :
    (nearest false a den : Value F).place < (nearest false b den : Value F).place := by
  rw [nearest, nearest, dif_pos hb, dif_pos (h.trans hb)]
  exact Place.number_lt_number.2 (Int.ofNat_lt.2 h)

theorem place_sqrt_ofInt_lt {m n : Nat} (hmn : m < n) (hn : n < 1 <<< 52) :
    (ofInt m : Binary64).sqrt.place < (ofInt n : Binary64).sqrt.place := by
  have hspacing : spacing binary64.fractionBits
      (twiceRoot (n <<< binary64.scale <<< binary64.scale) / 2) ≤ 1047 :=
    spacing_le_of_lt (twiceRoot_div_lt hn)
  have hgap := twiceRoot_add_lt_twiceRoot hmn hn
  rw [ofInt_natCast (by omega), ofInt_natCast (by omega), sqrt_finite, sqrt_finite]
  refine place_nearest_lt (roundTo_lt_roundTo Nat.two_pos ?_) ?_
  · refine (Nat.add_le_add_left ?_ _).trans_lt hgap
    exact shiftLeft_le_shiftLeft_right 2 hspacing
  · have hlimit : 1 <<< 1100 < binary64.limit := one_shiftLeft_lt (by decide)
    refine (roundTo_le _ _ _).trans_lt (lt_of_le_of_lt ?_ hlimit)
    exact shiftLeft_le_shiftLeft_right 1 (Nat.add_le_add_left hspacing 53)

end Value

end Vicinity.Number
