import Mathlib.Tactic.Linarith
import Mathlib.Tactic.Ring
import Vicinity.Proofs.Direction

namespace Vicinity.Number

variable {digits e m n scale : Nat}

theorem roundTo_twiceRoot_le (h : spacing digits n.sqrt = e + 1) :
    roundTo digits (twiceRoot n) 2 ≤ n.sqrt + 1 <<< e := by
  have hhigh := twiceRoot_le n
  have hround := two_mul_roundTo_le digits (twiceRoot n) 2
  rw [twiceRoot_div_two, h, Nat.shiftLeft_succ, shiftLeft_eq_mul 2] at hround
  omega

theorem spacing_sqrt_le (h : spacing digits (m <<< scale).sqrt = e + 1) :
    e + e + (digits + 2) ≤ spacing digits m + scale := by
  have hroot : 1 <<< (digits + (e + 1)) ≤ (m <<< scale).sqrt := by
    rw [← h]
    exact shiftLeft_spacing_le (h ▸ Nat.succ_pos e)
  have hsquare := (Nat.mul_le_mul hroot hroot).trans (Nat.sqrt_le (m <<< scale))
  have hlt := shiftLeft_lt (lt_shiftLeft_spacing digits m) scale
  rw [one_shiftLeft_mul_one_shiftLeft] at hsquare
  have hexponent : ¬digits + 1 + spacing digits m + scale ≤ digits + (e + 1) + (digits + (e + 1)) :=
    fun hle => (hsquare.trans_lt hlt).not_ge (shiftLeft_le_shiftLeft_right 1 hle)
  omega

/-- With `h` half the spacing at the root `c`, and `g` the spacing at its square. -/
theorem two_mul_sq_add_lt {h g t s : Nat} (ht : 8 ≤ t) (hg : 0 < g) (hh : 2 * t * (h * h) ≤ g)
    (hc : c * c < t * g) (hs : c * c ≤ s) : 2 * ((c + h) * (c + h)) < 2 * s + 3 * g := by
  have hproduct : 2 * (h * c * (h * c)) < g * g := by
    refine Nat.lt_of_mul_lt_mul_left (a := t) ?_
    calc
      t * (2 * (h * c * (h * c))) = 2 * t * (h * h) * (c * c) := by ring
      _ ≤ g * (c * c) := Nat.mul_le_mul_right _ hh
      _ < g * (t * g) := Nat.mul_lt_mul_of_pos_left hc hg
      _ = t * (g * g) := by ring
  have hsmall : 16 * (h * h) ≤ g := (Nat.mul_le_mul_right _ (by omega)).trans hh
  -- Four times `h * c` stays below the root of eight times `g`, and with `2 * h * h` below `3 * g`.
  have hcross : 32 * (h * c) < 23 * g := by
    have hsquare := Nat.zero_le (g * g)
    rw [← Nat.mul_self_lt_mul_self_iff]
    linarith
  linarith

def squaredRoot (digits scale m : Nat) : Nat :=
  let root := roundTo digits (twiceRoot (m <<< scale)) 2
  roundTo digits (root * root) (1 <<< scale)

/-- The error of the root is doubled in the square, but not to one and a half spacings there. -/
theorem squaredRoot_le (hdigits : 2 ≤ digits) (hm : 1 <<< spacing digits m ∣ m)
    (h : 0 < spacing digits (m <<< scale).sqrt) :
    squaredRoot digits scale m ≤ m + 1 <<< spacing digits m := by
  obtain ⟨e, he⟩ := Nat.exists_eq_add_one.2 h
  have hroot := roundTo_twiceRoot_le he
  have hexponent := spacing_sqrt_le he
  have hsqrt := Nat.sqrt_le (m <<< scale)
  have hlt : m <<< scale < 1 <<< (digits + 1) * (1 <<< spacing digits m * 1 <<< scale) := by
    rw [one_shiftLeft_mul_one_shiftLeft, one_shiftLeft_mul_one_shiftLeft, ← Nat.add_assoc]
    exact shiftLeft_lt (lt_shiftLeft_spacing digits m) scale
  have hhalf : 2 * 1 <<< (digits + 1) * (1 <<< e * 1 <<< e) ≤
      1 <<< spacing digits m * 1 <<< scale := by
    rw [show 2 = 1 <<< 1 from rfl]
    simp only [one_shiftLeft_mul_one_shiftLeft]
    exact shiftLeft_le_shiftLeft_right 1 (by omega)
  have height : 8 ≤ 1 <<< (digits + 1) :=
    shiftLeft_le_shiftLeft_right 1 (by omega : 3 ≤ digits + 1)
  have hsquare := two_mul_sq_add_lt height
    (Nat.mul_pos (one_shiftLeft_pos _) (one_shiftLeft_pos _)) hhalf (hsqrt.trans_lt hlt) hsqrt
  refine roundTo_le_add_spacing hm ?_
  calc
    _ ≤ 2 * (((m <<< scale).sqrt + 1 <<< e) * ((m <<< scale).sqrt + 1 <<< e)) :=
      Nat.mul_le_mul_left 2 (Nat.mul_le_mul hroot hroot)
    _ < 2 * m <<< scale + 3 * (1 <<< spacing digits m * 1 <<< scale) := hsquare
    _ = 1 <<< scale * (2 * m + 3 * 1 <<< spacing digits m) := by
      rw [shiftLeft_eq_mul m]
      ring

theorem squaredRoot_eq_of_lt (hdigits : 2 ≤ digits) (hm : 1 <<< spacing digits m ∣ m)
    (h : 0 < spacing digits (m <<< scale).sqrt) (hlt : m < squaredRoot digits scale m) :
    squaredRoot digits scale m = m + 1 <<< spacing digits m :=
  (squaredRoot_le hdigits hm h).antisymm (add_spacing_le_roundTo hm hlt)

theorem exists_roundTo_div_next_eq (hdigits : 1 ≤ digits) (hm : 1 <<< spacing digits m ∣ m)
    (hfull : 1 <<< (digits + spacing digits m) ≤ m) (k : Nat) :
    ∃ c n, 1 ≤ n ∧ n ≤ 2 ∧ c + n = 1 <<< (digits + 1) ∧
      roundTo digits (m <<< (digits + 1 + k)) (m + 1 <<< spacing digits m) = c <<< k := by
  have hunit := one_shiftLeft_pos (spacing digits m)
  have hnext := add_spacing_le hm
  have hdouble : 1 <<< (digits + 1) = 2 * 1 <<< digits := Nat.shiftLeft_succ 1 digits
  have htwo : 2 ≤ 1 <<< digits := shiftLeft_le_shiftLeft_right 1 hdigits
  rw [← one_shiftLeft_mul_one_shiftLeft] at hfull hnext
  rw [Nat.shiftLeft_add m, shiftLeft_eq_mul m (digits + 1)]
  generalize 1 <<< spacing digits m = u at *
  obtain ⟨t, ht⟩ := Nat.exists_eq_add_of_le' (htwo.trans (by omega : _ ≤ 1 <<< (digits + 1)))
  rw [ht] at hnext ⊢
  have hwide : (t + 2) * u ≤ 2 * m := by
    rw [← ht, hdouble, Nat.mul_assoc]
    exact Nat.mul_le_mul_left 2 hfull
  have hlow : t * (m + u) ≤ m * (t + 2) := by linarith
  have hhigh : m * (t + 2) ≤ (t + 1) * (m + u) := by linarith
  have hscaled (a : Nat) : a <<< k * (m + u) = (a * (m + u)) <<< k := by
    rw [shiftLeft_eq_mul, shiftLeft_eq_mul (a * _), Nat.mul_right_comm]
  obtain ⟨c, hlower, hupper, hround⟩ := exists_roundTo_eq_shiftLeft (by omega : 0 < m + u)
    (by omega : 1 <<< digits ≤ t) (by omega : t + 1 < 1 <<< (digits + 1))
    ((hscaled t).trans_le (shiftLeft_le_shiftLeft hlow k))
    ((shiftLeft_le_shiftLeft hhigh k).trans_eq (hscaled (t + 1)).symm)
  exact ⟨c, t + 2 - c, by omega, by omega, by omega, hround⟩

namespace Value

variable {F : Format} {s t : Bool} {x : Value F} {a c num den : Nat} {hm : F.Holds m}
  {hn : F.Holds n}

theorem sub_finite : (finite s m hm - finite t n hn : Value F) = finite s m hm + finite (!t) n hn :=
  rfl

theorem exists_nearest_eq (h : (nearest s num den : Value F).isFinite = true) :
    ∃ hround, (nearest s num den : Value F) =
      finite s (roundTo F.fractionBits num den) hround := by
  rw [nearest] at h ⊢
  split
  · next hlimit => exact ⟨⟨hlimit, shiftLeft_spacing_dvd_roundTo _ _ _⟩, rfl⟩
  · next hlimit =>
      rw [dif_neg hlimit] at h
      cases h

theorem exists_sqrt_mul_sqrt_eq
    (h : ((finite false m hm).sqrt * (finite false m hm).sqrt : Value F).isFinite = true)
    (hroot : (finite false m hm).sqrt.isFinite = true) :
    ∃ hsquare, (finite false m hm).sqrt * (finite false m hm).sqrt =
      finite false (squaredRoot F.fractionBits F.scale m) hsquare := by
  rw [sqrt_finite] at h hroot ⊢
  obtain ⟨_, heq⟩ := exists_nearest_eq hroot
  rw [heq, mul_finite] at h ⊢
  exact exists_nearest_eq h

theorem atMost_finite_iff :
    (finite false m hm).AtMost (finite false n hn) ↔ m ≤ n := by
  have hcompare : (finite false m hm).compare? (finite false n hn) =
      some (compare (m : Int) (n : Int)) := rfl
  simp only [AtMost, hcompare, Option.some.injEq, exists_eq_left', compare_le_iff_le, Nat.cast_le]

theorem isZero_iff_rational? : x.isZero = true ↔ x.rational? = some 0 := by
  cases x with
  | nan | infinite => exact iff_of_false nofun nofun
  | finite s m hm =>
      rw [isZero, beq_iff_eq, rational?, Option.some_inj, div_eq_zero_iff,
        or_iff_left (one_shiftLeft_ne_zero _), Int.cast_eq_zero, signed_eq_zero_iff]

theorem level?_one : (one : Binary64).level? = some ((1 <<< binary64.scale : Nat) : Int) := by
  rw [one_eq]
  rfl

theorem clamp_one_eq {x : Binary64} (hx : x.level? = some (a : Int)) :
    x.clamp (-one) one = if 1 <<< binary64.scale < a then one else x := by
  have hneg : (-one : Binary64).level? = some (-((1 <<< binary64.scale : Nat) : Int)) := by
    change one.neg.level? = _
    rw [level?_neg, level?_one]
    rfl
  have hlow : ¬(a : Int) < -((1 <<< binary64.scale : Nat) : Int) := by
    have hunit := Int.natCast_nonneg (1 <<< binary64.scale)
    omega
  rw [clamp, compare?, compare?, hx, level?_one, hneg]
  simp only [Option.some.injEq, compare_lt_iff_lt, compare_gt_iff_gt, hlow, if_false, Nat.cast_lt]

theorem rational?_one_sub {h : binary64.Holds (c <<< 1021)} (hn : n < 1 <<< 53)
    (hcn : c + n = 1 <<< 53) :
    (one - finite false (c <<< 1021) h : Binary64).rational? = some (n / 2 ^ 53 : ℚ) := by
  have hscale : 1 <<< binary64.scale = 1 <<< 53 * 1 <<< 1021 :=
    (one_shiftLeft_mul_one_shiftLeft 53 1021).symm
  have hunit : 1 <<< binary64.scale = c <<< 1021 + n <<< 1021 := by
    rw [shiftLeft_eq_mul c, shiftLeft_eq_mul n, ← Nat.add_mul, hcn, hscale]
  have hsum : signed false (1 <<< binary64.scale) + signed true (c <<< 1021) =
      (n <<< 1021 : Nat) := by
    change ((1 <<< binary64.scale : Nat) : Int) + -((c <<< 1021 : Nat) : Int) = _
    rw [hunit, Nat.cast_add, add_neg_cancel_comm]
  have hvalue : (one - finite false (c <<< 1021) h : Binary64) =
      finite false (n <<< 1021) (Format.holds_shiftLeft hn (by decide)) := by
    rw [one_eq, sub_finite, Bool.not_false, add_finite, hsum]
    split
    · next hzero =>
        have hzero := Int.natCast_eq_zero.1 hzero
        simp only [zero, hzero, Bool.false_and]
    · rw [decide_eq_false (Int.natCast_nonneg _).not_gt, Int.natAbs_natCast]
      exact nearest_one false _
  rw [hvalue, rational?, hscale, shiftLeft_eq_mul n, signed_mul, Int.cast_mul, Nat.cast_mul,
    Int.cast_natCast, mul_div_mul_right _ _ (one_shiftLeft_ne_zero 1021), Nat.one_shiftLeft]
  push_cast
  rfl

section Quotient

variable {p : Nat} {hm : binary64.Holds m} {hp : binary64.Holds p}

theorem clamp_div_of_le (hpos : 0 < p) (hle : p ≤ m) :
    (finite false m hm / finite false p hp).clamp (-one) one = one := by
  have hround : 1 <<< binary64.scale ≤
      roundTo binary64.fractionBits (m <<< binary64.scale) p := by
    refine le_roundTo_of_dvd (one_shiftLeft_spacing_dvd _ _) hpos ?_
    rw [shiftLeft_eq_mul m, Nat.mul_comm]
    exact Nat.mul_le_mul_right _ hle
  rw [div_finite hpos.ne', Bool.xor_self, nearest]
  split
  · rw [clamp_one_eq rfl]
    split
    · rfl
    · next hone =>
        rw [one_eq]
        simp only [hround.antisymm (Nat.not_lt.1 hone)]
  · have hlimit : 1 <<< binary64.scale < binary64.limit := one_shiftLeft_lt (by decide)
    rw [clamp_one_eq rfl, if_pos hlimit]

theorem exists_clamp_div_next_eq (hfull : 1 <<< (52 + spacing 52 m) ≤ m)
    (hnext : p = m + 1 <<< spacing 52 m) :
    ∃ c n h, 1 ≤ n ∧ n ≤ 2 ∧ c + n = 1 <<< 53 ∧
      (finite false m hm / finite false p hp).clamp (-one) one = finite false (c <<< 1021) h := by
  obtain ⟨c, n, hone, htwo, hcn, hround⟩ :=
    exists_roundTo_div_next_eq (by decide : 1 ≤ 52) hm.2 hfull 1021
  have hc : binary64.Holds (c <<< 1021) := Format.holds_shiftLeft (by omega) (by decide)
  have hscale : 1 <<< binary64.scale = (1 <<< 53) <<< 1021 := Nat.shiftLeft_add 1 53 1021
  have hbelow : ¬1 <<< binary64.scale < c <<< 1021 := by
    rw [hscale]
    exact (shiftLeft_le_shiftLeft (by omega) 1021).not_gt
  have hpos : p ≠ 0 := by
    have hunit := one_shiftLeft_pos (spacing 52 m)
    omega
  rw [← hnext] at hround
  have hround : roundTo binary64.fractionBits (m <<< binary64.scale) p = c <<< 1021 := hround
  refine ⟨c, n, hc, hone, htwo, hcn, ?_⟩
  rw [div_finite hpos, Bool.xor_self, nearest_of_roundTo_eq false hc hround, clamp_one_eq rfl,
    if_neg hbelow]

/-- Divided by a number that is not above it, or by the next one, a number is at most two steps
away from one. -/
theorem exists_one_sub_clamp_eq (hpos : 0 < p) (hfull : 1 <<< (52 + spacing 52 m) ≤ m)
    (hnext : m < p → p = m + 1 <<< spacing 52 m) :
    ∃ n : Nat, n ≤ 2 ∧ (n = 0 ↔ p ≤ m) ∧
      (one - (finite false m hm / finite false p hp).clamp (-one) one).rational? =
        some (n / 2 ^ 53 : ℚ) := by
  rcases Nat.lt_or_ge m p with hlt | hle
  · obtain ⟨c, n, h, hone, htwo, hcn, hclamp⟩ := exists_clamp_div_next_eq hfull (hnext hlt)
    refine ⟨n, htwo, by omega, ?_⟩
    rw [hclamp]
    exact rational?_one_sub (by omega) hcn
  · refine ⟨0, by decide, iff_of_true rfl hle, ?_⟩
    have hself : (one - one : Binary64) = zero false := by
      rw [← ofInt_zero]
      exact ofInt_sub (by decide) (by decide)
    rw [clamp_div_of_le hpos hle, hself, Nat.cast_zero, zero_div]
    exact isZero_iff_rational?.1 rfl

end Quotient

end Value

end Vicinity.Number
