import Mathlib.Data.List.Zip
import Vicinity.Metric.Kind
import Vicinity.Proofs.Signs

namespace Vicinity

namespace Number.Value

variable {F : Format}

theorem abs_nearest (negative : Bool) (num den : Nat) :
    (nearest negative num den : Value F).abs = nearest false num den := by
  rw [nearest, nearest]
  split <;> rfl

/-- Differences the two ways round have opposite exact values, and rounding does not see the
sign. Only the sign of a zero does not change with the order. -/
theorem abs_sub_comm (x y : Value F) : (x - y).abs = (y - x).abs := by
  change (add x y.neg).abs = (add y x.neg).abs
  cases x with
  | nan => cases y <;> rfl
  | infinite s =>
      cases y with
      | nan | finite => rfl
      | infinite t => cases s <;> cases t <;> rfl
  | finite s m hm =>
      cases y with
      | nan | infinite => rfl
      | finite t n hn =>
          have hopposite : signed t n + signed (!s) m = -(signed s m + signed (!t) n) := by
            rw [signed_not, signed_not]
            omega
          simp only [neg, add]
          rw [hopposite, Int.natAbs_neg]
          by_cases hzero : signed s m + signed (!t) n = 0
          · rw [if_pos hzero, if_pos (Int.neg_eq_zero.2 hzero)]
            rfl
          · rw [if_neg hzero, if_neg (mt Int.neg_eq_zero.1 hzero), abs_nearest, abs_nearest]

theorem abs_mul_self (x : Value F) : x.abs * x.abs = x * x := by
  change mul x.abs x.abs = mul x x
  cases x with
  | nan => rfl
  | infinite s | finite s => simp only [abs, mul, Bool.xor_self]

theorem mul_comm (x y : Value F) : x * y = y * x := by
  change mul x y = mul y x
  cases x with
  | nan => cases y <;> rfl
  | infinite s =>
      cases y with
      | nan => rfl
      | infinite t | finite t => simp only [mul, Bool.xor_comm]
  | finite s m hm =>
      cases y with
      | nan => rfl
      | infinite t => simp only [mul, Bool.xor_comm]
      | finite t n hn => simp only [mul, Bool.xor_comm, Nat.mul_comm]

end Number.Value

namespace Metric

open Number Number.Value

variable {α : Type} [Element α]

theorem terms_swap {f g : Binary64 → Binary64 → Binary64} (hfg : ∀ x y, f x y = g y x)
    (a b : List α) : terms f a b = terms g b a := by
  rw [terms, terms, ← List.zip_swap a b, List.map_map]
  exact List.map_congr_left fun p _ => hfg _ _

theorem absoluteDifference_comm (x y : Binary64) :
    absoluteDifference x y = absoluteDifference y x :=
  abs_sub_comm x y

theorem squaredDifference_comm (x y : Binary64) :
    squaredDifference x y = squaredDifference y x := by
  rw [squaredDifference, squaredDifference, ← abs_mul_self, abs_sub_comm, abs_mul_self]

theorem squaredEuclidean_comm (a b : List α) :
    squaredEuclidean.distance a b = squaredEuclidean.distance b a :=
  congrArg Value.sum (terms_swap squaredDifference_comm a b)

theorem manhattan_comm (a b : List α) : manhattan.distance a b = manhattan.distance b a :=
  congrArg Value.sum (terms_swap absoluteDifference_comm a b)

theorem dot_comm (a b : List α) : dot a b = dot b a :=
  congrArg accumulate (terms_swap Value.mul_comm a b)

theorem leftNormSquared_swap (a b : List α) : leftNormSquared a b = rightNormSquared b a :=
  congrArg accumulate (terms_swap (fun _ _ => rfl) a b)

theorem cosine_comm (a b : List α) : cosine.distance a b = cosine.distance b a := by
  rw [cosine]
  dsimp only
  rw [similarity, similarity, dot_comm, leftNormSquared_swap, ← leftNormSquared_swap b a,
    Value.mul_comm, Bool.or_comm]

/-- No metric tells which vector is the query. -/
theorem Kind.distance_comm (kind : Kind) (a b : List α) :
    kind.distance a b = kind.distance b a := by
  cases kind with
  | euclidean => exact congrArg Value.sqrt (squaredEuclidean_comm a b)
  | squaredEuclidean => exact squaredEuclidean_comm a b
  | manhattan => exact manhattan_comm a b
  | cosine => exact cosine_comm a b

end Metric

end Vicinity
