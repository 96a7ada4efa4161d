import Mathlib.Algebra.Order.Ring.Rat
import Mathlib.Data.Int.Cast.Lemmas
import Vicinity.Proofs.Doubling
import Vicinity.Proofs.Overflow
import Vicinity.Proofs.SelfNearest

namespace Vicinity

namespace Number.Value

variable {F : Format} {x x' : Value F} {k : Nat} {q : ℚ}

def rational? : Value F → Option ℚ
  | .finite s m _ => some (signed s m / (1 <<< F.scale : Nat))
  | .infinite _ | .nan => none

theorem one_shiftLeft_ne_zero (k : Nat) : ((1 <<< k : Nat) : ℚ) ≠ 0 :=
  Nat.cast_ne_zero.2 (one_shiftLeft_pos k).ne'

theorem rational?_convert (x : Binary32) : (x.convert binary64).rational? = x.rational? := by
  cases x with
  | nan | infinite => rfl
  | finite s m hm =>
      have hunit : (singleUnit : ℚ) ≠ 0 := one_shiftLeft_ne_zero _
      rw [convert_finite, rational?, rational?, one_shiftLeft_scale, signed_mul, Int.cast_mul,
        Nat.cast_mul, Int.cast_natCast, mul_div_mul_right _ _ hunit]

theorem rational?_ofInt {n : Int} (hn : n.natAbs < 1 <<< 53) :
    (ofInt n : Binary64).rational? = some (n : ℚ) := by
  rw [ofInt_eq hn, rational?, signed_shiftLeft, Int.cast_mul, Int.cast_natCast,
    mul_div_cancel_right₀ _ (one_shiftLeft_ne_zero _)]

theorem doubled_of_rational? (hx : x.rational? = some q)
    (hx' : x'.rational? = some (q * (1 <<< k : Nat))) : Doubled k x x' := by
  cases x with
  | nan | infinite => cases hx
  | finite s m hm =>
      cases x' with
      | nan | infinite => cases hx'
      | finite t n hn =>
          have hunit := one_shiftLeft_ne_zero F.scale
          have hq := Option.some.inj hx
          have hq' := Option.some.inj hx'
          rw [← hq, div_mul_eq_mul_div, div_left_inj' hunit] at hq'
          rw [← Int.cast_natCast, ← Int.cast_mul, Int.cast_inj] at hq'
          exact .finite hq'

end Number.Value

namespace Metric

open Number Number.Value

variable {α : Type} [Element α] {x x' : α} {j : ℤ} {k : Nat} {a a' b : List α}

/-- The second component is the first times this power of two, without any rounding. -/
def TimesTwoPow (j : ℤ) (x x' : α) : Prop :=
  ∃ q, (widen x).rational? = some q ∧ (widen x').rational? = some (q * 2 ^ j)

theorem timesTwoPow_iff_rational? {x x' : Binary32} :
    TimesTwoPow j x x' ↔ ∃ q, x.rational? = some q ∧ x'.rational? = some (q * 2 ^ j) := by
  have hx : (widen x).rational? = x.rational? := rational?_convert x
  have hx' : (widen x').rational? = x'.rational? := rational?_convert x'
  rw [TimesTwoPow, hx, hx']

theorem timesTwoPow_iff_value [Integral α] :
    TimesTwoPow j x x' ↔ (Integral.value x' : ℚ) = Integral.value x * 2 ^ j := by
  rw [TimesTwoPow, Integral.widen_eq, Integral.widen_eq,
    rational?_ofInt (Integral.natAbs_value_lt_significand x),
    rational?_ofInt (Integral.natAbs_value_lt_significand x')]
  simp only [Option.some_inj, exists_eq_left']

theorem TimesTwoPow.of_neg (h : TimesTwoPow (-j) x x') : TimesTwoPow j x' x := by
  obtain ⟨q, hx, hx'⟩ := h
  refine ⟨q * 2 ^ (-j), hx', ?_⟩
  rw [hx, mul_assoc, ← zpow_add₀ two_ne_zero, neg_add_cancel, zpow_zero, mul_one]

theorem TimesTwoPow.doubled (h : TimesTwoPow k x x') : (widen x).Doubled k (widen x') := by
  obtain ⟨q, hx, hx'⟩ := h
  refine doubled_of_rational? hx ?_
  rw [hx', Nat.one_shiftLeft, zpow_natCast]
  push_cast
  rfl

theorem forall₂_terms {R : α → α → Prop} {S : Binary64 → Binary64 → Prop}
    {f : Binary64 → Binary64 → Binary64} (h : List.Forall₂ R a a')
    (hf : ∀ y ∈ b, ∀ x x', R x x' → S (f (widen x) (widen y)) (f (widen x') (widen y))) :
    List.Forall₂ S (terms f a b) (terms f a' b) := by
  induction h generalizing b with
  | nil => exact .nil
  | cons hx hxs ih =>
      cases b with
      | nil => exact .nil
      | cons y ys =>
          obtain ⟨hy, hys⟩ := List.forall_mem_cons.1 hf
          exact .cons (hy _ _ hx) (ih hys)

theorem doubled_product [SingleRange α] {j : Nat} {x x' y y' : α}
    (hx : (widen x).Doubled j (widen x')) (hy : (widen y).Doubled k (widen y')) :
    (widen x * widen y).Doubled (j + k) (widen x' * widen y') :=
  hx.mul (p := 925) (q := 925) hy (SingleRange.widen_inSingleRange x).zeroOrFrom
    (SingleRange.widen_inSingleRange y).zeroOrFrom (by decide)
    (within_product hx.isFinite_right hy.isFinite_right).isFinite

theorem doubled_accumulate {xs xs' : List Binary64} (hxs : List.Forall₂ (Doubled k) xs xs')
    (hgrid : ∀ x ∈ xs, x.OnGrid 776) (hwithin : ∀ x ∈ xs', x.Within 1330) :
    Doubled k (accumulate xs) (accumulate xs') :=
  Doubled.foldl_add hxs hgrid hwithin (by decide) (one_shiftLeft_lt (by decide))
    (doubled_zero k _ _) (onGrid_zero _ _) (within_zero _ _)

def Doubles (k : Nat) (a a' : List α) : Prop :=
  List.Forall₂ (fun x x' => (widen x).Doubled k (widen x')) a a'

namespace Doubles

theorem isFinite_left (h : Doubles k a a') : ∀ x ∈ a, (widen x).isFinite = true := by
  induction h with
  | nil => exact List.forall_mem_nil _
  | cons hx hxs ih => exact List.forall_mem_cons.2 ⟨hx.isFinite_left, ih⟩

theorem isFinite_right (h : Doubles k a a') : ∀ x ∈ a', (widen x).isFinite = true := by
  induction h with
  | nil => exact List.forall_mem_nil _
  | cons hx hxs ih => exact List.forall_mem_cons.2 ⟨hx.isFinite_right, ih⟩

variable [SingleRange α]

theorem dot (h : Doubles k a a') (hb : ∀ y ∈ b, (widen y).isFinite = true) :
    (dot a b).Doubled k (dot a' b) := by
  refine doubled_accumulate ?_ (forall_mem_terms fun x _ y _ => onGrid_product x y)
    (forall_mem_terms fun x hx y hy => within_product (h.isFinite_right x hx) (hb y hy))
  exact forall₂_terms h fun y hy _ _ hx => doubled_product hx (doubled_self (hb y hy))

theorem normSquared (h : Doubles k a a') :
    (normSquared a).Doubled (k + k) (normSquared a') := by
  refine doubled_accumulate ?_ (List.forall_mem_map.2 fun x _ => onGrid_product x x)
    (List.forall_mem_map.2 fun x hx => within_product (h.isFinite_right x hx)
      (h.isFinite_right x hx))
  rw [List.forall₂_map_left_iff, List.forall₂_map_right_iff]
  exact h.imp fun x x' hx => doubled_product hx hx

end Doubles

theorem SquaredNorm.doubled_quotient {x x' y dot dot' : Binary64} (hx : SquaredNorm x)
    (hx' : SquaredNorm x') (hy : SquaredNorm y) (hxdouble : x.Doubled (k + k) x')
    (hxzero : x.isZero = false) (hyzero : y.isZero = false) (hdot : dot.Doubled k dot')
    (hdotWithin : dot'.Within 1384) :
    (dot / (x.sqrt * y.sqrt)).Doubled 0 (dot' / (x'.sqrt * y.sqrt)) := by
  have hroot : x.sqrt.Doubled k x'.sqrt :=
    hxdouble.sqrt hx.signClear hx'.signClear (by decide) hx'.within_sqrt.isFinite
  have hnorms : (x.sqrt * y.sqrt).Doubled (k + 0) (x'.sqrt * y.sqrt) :=
    hroot.mul (doubled_self hy.within_sqrt.isFinite) (hx.beyond_sqrt hxzero).zeroOrFrom
      (hy.beyond_sqrt hyzero).zeroOrFrom (by decide) (hx'.within_norms hy).isFinite
  exact hdot.div hnorms (hx.beyond_norms hy hxzero hyzero).isZero
    (hx'.within_quotient hy (hxdouble.isZero_eq.trans hxzero) hyzero hdotWithin).isFinite

variable [SingleRange α]

theorem Doubles.cosine_distance_eq (h : Doubles k a a') (hlen : a.length = b.length)
    (hb : ∀ y ∈ b, (widen y).isFinite = true) : cosine.distance a' b = cosine.distance a b := by
  have hlen' : a'.length = b.length := (List.Forall₂.length_eq h).symm.trans hlen
  have hnorm := h.normSquared
  rw [Metric.cosine_distance_eq, Metric.cosine_distance_eq, similarity, similarity,
    leftNormSquared_eq hlen, leftNormSquared_eq hlen', rightNormSquared_eq hlen,
    rightNormSquared_eq hlen', hnorm.isZero_eq]
  split
  · rfl
  · next hzero =>
      obtain ⟨hazero, hbzero⟩ := Bool.or_eq_false_iff.1 (Bool.eq_false_iff.2 hzero)
      refine (one_sub_clamp_eq ?_).symm
      exact (squaredNorm_normSquared h.isFinite_left).doubled_quotient
        (squaredNorm_normSquared h.isFinite_right) (squaredNorm_normSquared hb) hnorm hazero hbzero
        (h.dot hb) (within_dot h.isFinite_right hb)

/-- By angle, multiplying a vector by a power of two changes nothing, as long as the multiple is
made of numbers of the element type. -/
theorem cosine_mul_two_pow (h : List.Forall₂ (TimesTwoPow j) a a') :
    (∀ b : List α, a.length = b.length → (∀ y ∈ b, (widen y).isFinite = true) →
        cosine.distance a' b = cosine.distance a b) ∧
      ∀ (backend : Backend) (cells : List α) (k : Nat),
        (∀ y ∈ cells, (widen y).isFinite = true) →
          backend.rank cosine a' cells k = backend.rank cosine a cells k := by
  have hdistance (b : List α) (hlen : a.length = b.length)
      (hb : ∀ y ∈ b, (widen y).isFinite = true) :
      cosine.distance a' b = cosine.distance a b := by
    obtain ⟨k, rfl | rfl⟩ := j.eq_nat_or_neg
    · have hdoubles : Doubles k a a' := h.imp fun x x' hx => hx.doubled
      exact hdoubles.cosine_distance_eq hlen hb
    · have hdoubles : Doubles k a' a := h.flip.imp fun x' x hx => (TimesTwoPow.of_neg hx).doubled
      exact (hdoubles.cosine_distance_eq (h.length_eq.symm.trans hlen) hb).symm
  refine ⟨hdistance, fun backend cells k hcells => ?_⟩
  refine backend.rank_congr h.length_eq.symm (fun row hrow hsubset => ?_) k
  exact hdistance row hrow.symm fun y hy => hcells y (hsubset hy)

/-- An eighth of a vector of bytes, and the least positive number of binary32 beside a zero times
two to the power of 249. -/
theorem cosine_mul_two_pow_of_extremes :
    (List.Forall₂ (TimesTwoPow (-3)) [8, (-24 : Int8)] [1, -3] ∧
      (∀ y ∈ [5, 7, 0, (1 : Int8)], (widen y).isFinite = true) ∧
      ∀ k, Backend.standard.rank cosine [1, -3] [5, 7, 0, (1 : Int8)] k =
        Backend.standard.rank cosine [8, -24] [5, 7, 0, (1 : Int8)] k) ∧
    List.Forall₂ (TimesTwoPow 249) [ofBits binary32 1, zero false]
        [ofBits binary32 0x71800000, zero true] ∧
      [ofBits binary32 1, zero false].length = [(one : Binary32), one].length ∧
      (∀ y ∈ [(one : Binary32), one], (widen y).isFinite = true) ∧
      cosine.distance [ofBits binary32 0x71800000, zero true] [one, one] =
        cosine.distance [ofBits binary32 1, zero false] [one, one] := by
  have hbytes : List.Forall₂ (TimesTwoPow (-3)) [8, (-24 : Int8)] [1, -3] :=
    .cons (timesTwoPow_iff_value.2 (by decide +kernel))
      (.cons (timesTwoPow_iff_value.2 (by decide +kernel)) .nil)
  have hbytesFinite : ∀ y ∈ [5, 7, 0, (1 : Int8)], (widen y).isFinite = true :=
    fun y _ => isFinite_widen y
  have hleast : TimesTwoPow 249 (ofBits binary32 1) (ofBits binary32 0x71800000) :=
    timesTwoPow_iff_rational?.2 ⟨1 / (1 <<< 149 : Nat), by decide +kernel, by decide +kernel⟩
  have hzero : TimesTwoPow 249 (zero false : Binary32) (zero true) :=
    timesTwoPow_iff_rational?.2 ⟨0, by decide +kernel, by decide +kernel⟩
  have hlen : [ofBits binary32 1, zero false].length = [(one : Binary32), one].length := by simp
  have hones : ∀ y ∈ [(one : Binary32), one], (widen y).isFinite = true := by
    decide +kernel
  have hsingles := List.Forall₂.cons hleast (.cons hzero .nil)
  exact ⟨⟨hbytes, hbytesFinite, fun k => (cosine_mul_two_pow hbytes).2 _ _ k hbytesFinite⟩,
    hsingles, hlen, hones, (cosine_mul_two_pow hsingles).1 _ hlen hones⟩

end Metric

end Vicinity
