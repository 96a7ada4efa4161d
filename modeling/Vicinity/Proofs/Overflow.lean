import Vicinity.Proofs.Magnitude
import Vicinity.Proofs.Range
import Vicinity.Proofs.Symmetry

namespace Vicinity

open Number Number.Value

namespace Number.Value

def settle (x : Binary64) : Option Binary64 := if x.isFinite then some x else none

variable {x : Binary64} {p : Nat}

theorem Within.settle_eq (hx : x.Within p) : settle x = some x := if_pos hx.isFinite

/-- Numbers of the range of binary32 are multiples of `2 ^ 925` units and below `2 ^ 1202`. -/
theorem InSingleRange.onGrid (hx : x.InSingleRange) : x.OnGrid 925 := by
  cases x with
  | nan => exact .nan
  | infinite => exact .infinite
  | finite s m hm => exact .finite hx.1

theorem InSingleRange.within (hx : x.InSingleRange) (hfinite : x.isFinite = true) :
    x.Within 1202 := by
  cases x with
  | nan | infinite => cases hfinite
  | finite s m hm =>
      have hlimit : binary32.limit * singleUnit = 1 <<< 1202 :=
        one_shiftLeft_mul_one_shiftLeft 277 925
      exact .finite (hx.2.trans_eq hlimit).le

theorem InSingleRange.zeroOrFrom (hx : x.InSingleRange) : x.ZeroOrFrom singleUnit := by
  cases x with
  | nan | infinite => trivial
  | finite s m hm =>
      rcases Nat.eq_zero_or_pos m with hzero | hpos
      · exact .inl hzero
      · exact .inr (Nat.le_of_dvd hpos hx.1)

theorem signClear_zero : (zero false : Binary64).SignClear := .finite

theorem within_one (hp : 1074 ≤ p) : (one : Binary64).Within p := by
  rw [one_eq]
  exact .finite (shiftLeft_le_shiftLeft_right 1 hp)

end Number.Value

namespace Metric

variable {α : Type} [Element α] (check : Binary64 → Option Binary64)

def addThrough (term : Binary64 → Binary64 → Option Binary64) (total : Binary64) (p : α × α) :
    Option Binary64 := do
  let next ← term (widen p.1) (widen p.2)
  check (total + next)

def sumThrough (start : Binary64) (term : Binary64 → Binary64 → Option Binary64) (a b : List α) :
    Option Binary64 :=
  (a.zip b).foldlM (addThrough check term) start

def differenceThrough (f : Binary64 → Binary64) (x y : Binary64) : Option Binary64 := do
  let difference ← check (x - y)
  check (f difference)

def productThrough (x y : Binary64) : Option Binary64 := check (x * y)

def cosineThrough (dot left right : Binary64) : Option Binary64 := do
  if left.isZero || right.isZero then return .one
  let leftNorm ← check left.sqrt
  let rightNorm ← check right.sqrt
  let norms ← check (leftNorm * rightNorm)
  let quotient ← check (dot / norms)
  check (.one - quotient.clamp (-.one) .one)

/-- A distance with the result of each of its operations handed to the check. -/
def Kind.distanceThrough (kind : Kind) (a b : List α) : Option Binary64 :=
  match kind with
  | .euclidean => do
    check (← sumThrough check (.zero true) (differenceThrough check fun d => d * d) a b).sqrt
  | .squaredEuclidean => sumThrough check (.zero true) (differenceThrough check fun d => d * d) a b
  | .manhattan => sumThrough check (.zero true) (differenceThrough check .abs) a b
  | .cosine => do
    let dot ← sumThrough check (.zero false) (productThrough check) a b
    let left ← sumThrough check (.zero false) (fun x _ => productThrough check x x) a b
    let right ← sumThrough check (.zero false) (fun _ y => productThrough check y y) a b
    cosineThrough check dot left right

def normSquared (v : List α) : Binary64 := accumulate (v.map fun x => widen x * widen x)

variable {check} {a b : List α} {f : Binary64 → Binary64 → Binary64}
  {term : Binary64 → Binary64 → Option Binary64} {start : Binary64}

theorem sumThrough_eq (P : Binary64 → Prop) (hcheck : ∀ x, P x → check x = some x)
    (hterm : ∀ x ∈ a, ∀ y ∈ b, term (widen x) (widen y) = some (f (widen x) (widen y)))
    (hstart : P start) (hstep : ∀ total, P total → ∀ t ∈ terms f a b, P (total + t)) :
    sumThrough check start term a b = some ((terms f a b).foldl (· + ·) start) := by
  have hterm : ∀ p ∈ a.zip b, term (widen p.1) (widen p.2) = some (f (widen p.1) (widen p.2)) :=
    fun p hp => hterm p.1 (List.of_mem_zip hp).1 p.2 (List.of_mem_zip hp).2
  rw [terms] at hstep
  rw [sumThrough, terms]
  generalize a.zip b = ps at hterm hstep
  induction ps generalizing start with
  | nil => rfl
  | cons p ps ih =>
      obtain ⟨hp, hps⟩ := List.forall_mem_cons.1 hterm
      have hnext : P (start + f (widen p.1) (widen p.2)) := hstep start hstart _ List.mem_cons_self
      have hadd : addThrough check term start p = some (start + f (widen p.1) (widen p.2)) := by
        rw [addThrough, hp]
        exact hcheck _ hnext
      rw [List.foldlM_cons, hadd]
      exact ih hnext hps fun total htotal t ht => hstep total htotal t (List.mem_cons_of_mem _ ht)

theorem differenceThrough_eq {g : Binary64 → Binary64} {x y : Binary64}
    (hdifference : check (x - y) = some (x - y)) (hg : check (g (x - y)) = some (g (x - y))) :
    differenceThrough check g x y = some (g (x - y)) := by
  rw [differenceThrough, hdifference]
  exact hg

theorem leftNormSquared_eq (hlen : a.length = b.length) : leftNormSquared a b = normSquared a := by
  have hterms : terms (fun x _ => x * x) a b =
      ((a.zip b).map Prod.fst).map fun x => widen x * widen x := by
    rw [terms, List.map_map]
    rfl
  rw [leftNormSquared, hterms, List.map_fst_zip hlen.le, normSquared]

theorem rightNormSquared_eq (hlen : a.length = b.length) :
    rightNormSquared a b = normSquared b := by
  rw [← leftNormSquared_swap, leftNormSquared_eq hlen.symm]

theorem signClear_squares (v : List α) : ∀ t ∈ v.map fun x => widen x * widen x, t.SignClear :=
  List.forall_mem_map.2 fun _ _ => signClear_mul_self _

theorem signClear_normSquared (v : List α) : (normSquared v).SignClear :=
  signClear_zero.foldl_add (signClear_squares v)

theorem cosine_distance_eq (a b : List α) : cosine.distance a b =
    if (leftNormSquared a b).isZero || (rightNormSquared a b).isZero then .one
    else .one - similarity a b :=
  rfl

theorem distanceThrough_cosine
    (hdot : sumThrough check (.zero false) (productThrough check) a b = some (dot a b))
    (hleft : sumThrough check (.zero false) (fun x _ => productThrough check x x) a b =
      some (leftNormSquared a b))
    (hright : sumThrough check (.zero false) (fun _ y => productThrough check y y) a b =
      some (rightNormSquared a b)) :
    Kind.cosine.distanceThrough check a b =
      cosineThrough check (dot a b) (leftNormSquared a b) (rightNormSquared a b) := by
  simp only [Kind.distanceThrough, hdot, hleft, hright]
  rfl

theorem Kind.distanceThrough_some (kind : Kind) (a b : List α) :
    kind.distanceThrough some a b = some (kind.distance a b) := by
  have hsum (start : Binary64) (f : Binary64 → Binary64 → Binary64) :
      sumThrough some start (fun x y => some (f x y)) a b =
        some ((terms f a b).foldl (· + ·) start) :=
    sumThrough_eq (fun _ => True) (fun _ _ => rfl) (fun _ _ _ _ => rfl) trivial
      fun _ _ _ _ => trivial
  cases kind with
  | euclidean =>
      exact congrArg (· >>= fun total => some total.sqrt) (hsum (.zero true) squaredDifference)
  | squaredEuclidean => exact hsum (.zero true) squaredDifference
  | manhattan => exact hsum (.zero true) absoluteDifference
  | cosine =>
      rw [distanceThrough_cosine (hsum _ _) (hsum _ _) (hsum _ _), cosineThrough]
      change _ = some (Metric.cosine.distance a b)
      rw [cosine_distance_eq]
      split
      · rfl
      · rfl

/-- No sum of terms grows past `2 ^ 54` times their bound, however many terms there are. -/
theorem sumThrough_settle_eq {p : Nat} (s : Bool)
    (hterm : ∀ x ∈ a, ∀ y ∈ b, term (widen x) (widen y) = some (f (widen x) (widen y)) ∧
      (f (widen x) (widen y)).Within p)
    (hp : 1 <<< (54 + p) < binary64.limit) :
    sumThrough settle (.zero s) term a b = some ((terms f a b).foldl (· + ·) (.zero s)) ∧
      ((terms f a b).foldl (· + ·) (zero s)).Within (54 + p) := by
  have hterms : ∀ t ∈ terms f a b, t.Within p :=
    forall_mem_terms fun x hx y hy => (hterm x hx y hy).2
  refine ⟨sumThrough_eq (fun x => x.Within (54 + p)) (fun _ hx => hx.settle_eq)
    (fun x hx y hy => (hterm x hx y hy).1) (within_zero _ _) ?_, ?_⟩
  · exact fun total htotal t ht => htotal.add_small (hterms t ht) hp
  · exact (within_zero _ _).foldl_add hterms hp

theorem sumThrough_products (hf : ∀ x ∈ a, ∀ y ∈ b, (f (widen x) (widen y)).Within 1330) :
    sumThrough settle (.zero false) (fun x y => settle (f x y)) a b =
        some (accumulate (terms f a b)) ∧
      (accumulate (terms f a b)).Within 1384 :=
  sumThrough_settle_eq false (fun x hx y hy => ⟨(hf x hx y hy).settle_eq, hf x hx y hy⟩)
    (one_shiftLeft_lt (by decide))

section SingleRange

variable [SingleRange α]

theorem within_difference {x y : α} (hx : (widen x).isFinite = true)
    (hy : (widen y).isFinite = true) : (widen x - widen y).Within 1203 :=
  ((SingleRange.widen_inSingleRange x).within hx).sub
    ((SingleRange.widen_inSingleRange y).within hy) (one_shiftLeft_lt (by decide))

theorem within_product {x y : α} (hx : (widen x).isFinite = true)
    (hy : (widen y).isFinite = true) : (widen x * widen y).Within 1330 :=
  ((SingleRange.widen_inSingleRange x).within hx).mul
    ((SingleRange.widen_inSingleRange y).within hy) (by decide) (one_shiftLeft_lt (by decide))

theorem onGrid_product (x y : α) : (widen x * widen y).OnGrid 776 :=
  (SingleRange.widen_inSingleRange x).onGrid.mul (SingleRange.widen_inSingleRange y).onGrid rfl

theorem within_dot (ha : ∀ x ∈ a, (widen x).isFinite = true)
    (hb : ∀ y ∈ b, (widen y).isFinite = true) : (dot a b).Within 1384 :=
  (sumThrough_products fun x hx y hy => within_product (ha x hx) (hb y hy)).2

theorem sumThrough_squaredDifference (ha : ∀ x ∈ a, (widen x).isFinite = true)
    (hb : ∀ y ∈ b, (widen y).isFinite = true) :
    sumThrough settle (.zero true) (differenceThrough settle fun d => d * d) a b =
        some (squaredEuclidean.distance a b) ∧
      (squaredEuclidean.distance a b).Within 1386 := by
  refine sumThrough_settle_eq (p := 1332) true (fun x hx y hy => ?_)
    (one_shiftLeft_lt (by decide))
  have hdifference := within_difference (ha x hx) (hb y hy)
  have hsquare : (squaredDifference (widen x) (widen y)).Within 1332 :=
    hdifference.mul hdifference (by decide) (one_shiftLeft_lt (by decide))
  exact ⟨differenceThrough_eq hdifference.settle_eq hsquare.settle_eq, hsquare⟩

theorem sumThrough_absoluteDifference (ha : ∀ x ∈ a, (widen x).isFinite = true)
    (hb : ∀ y ∈ b, (widen y).isFinite = true) :
    sumThrough settle (.zero true) (differenceThrough settle .abs) a b =
      some (manhattan.distance a b) := by
  refine (sumThrough_settle_eq (p := 1203) true (fun x hx y hy => ?_)
    (one_shiftLeft_lt (by decide))).1
  have hdifference := within_difference (ha x hx) (hb y hy)
  exact ⟨differenceThrough_eq hdifference.settle_eq hdifference.abs.settle_eq, hdifference.abs⟩

structure SquaredNorm (x : Binary64) : Prop where
  within : x.Within 1384
  onGrid : x.OnGrid 776
  signClear : x.SignClear

theorem squaredNorm_normSquared {v : List α} (hv : ∀ x ∈ v, (widen x).isFinite = true) :
    SquaredNorm (normSquared v) where
  within := by
    refine (within_zero _ _).foldl_add (p := 1330) ?_ (one_shiftLeft_lt (by decide))
    exact List.forall_mem_map.2 fun x hx => within_product (hv x hx) (hv x hx)
  onGrid := by
    refine (onGrid_zero _ _).foldl_add ?_
    exact List.forall_mem_map.2 fun x _ => onGrid_product x x
  signClear := signClear_normSquared v

theorem isZero_normSquared_iff (v : List α) :
    (normSquared v).isZero = true ↔ ∀ x ∈ v, (widen x).isZero = true := by
  have hsquare (x : α) : (widen x * widen x).isZero = (widen x).isZero :=
    (SingleRange.widen_inSingleRange x).zeroOrFrom.isZero_mul_self one_shiftLeft_scale_le
  rw [normSquared, accumulate, signClear_zero.isZero_foldl_add (signClear_squares v), Bool.and_eq_true,
    List.all_eq_true, List.forall_mem_map]
  simp only [hsquare]
  exact and_iff_right rfl

namespace SquaredNorm

variable {x y dot : Binary64}

theorem within_sqrt (hx : SquaredNorm x) : x.sqrt.Within 1229 :=
  hx.within.sqrt hx.signClear (by decide) (one_shiftLeft_lt (by decide))

theorem beyond_sqrt (hx : SquaredNorm x) (hzero : x.isZero = false) : x.sqrt.Beyond 925 :=
  (hx.onGrid.beyond hx.within.isNaN hzero).sqrt hx.signClear (by decide)

theorem within_norms (hx : SquaredNorm x) (hy : SquaredNorm y) :
    (x.sqrt * y.sqrt).Within 1384 :=
  hx.within_sqrt.mul hy.within_sqrt (by decide) (one_shiftLeft_lt (by decide))

theorem beyond_norms (hx : SquaredNorm x) (hy : SquaredNorm y) (hxzero : x.isZero = false)
    (hyzero : y.isZero = false) : (x.sqrt * y.sqrt).Beyond 776 :=
  (hx.beyond_sqrt hxzero).mul (hy.beyond_sqrt hyzero) (by decide)

theorem within_quotient (hx : SquaredNorm x) (hy : SquaredNorm y) (hxzero : x.isZero = false)
    (hyzero : y.isZero = false) (hdot : dot.Within 1384) :
    (dot / (x.sqrt * y.sqrt)).Within 1682 :=
  hdot.div (hx.beyond_norms hy hxzero hyzero) (by decide) (one_shiftLeft_lt (by decide))

theorem cosineThrough_eq (hx : SquaredNorm x) (hy : SquaredNorm y) (hdot : dot.Within 1384) :
    cosineThrough settle dot x y = some (if x.isZero || y.isZero then .one
      else .one - (dot / (x.sqrt * y.sqrt)).clamp (-.one) .one) := by
  rw [cosineThrough]
  split
  · rfl
  · next hzero =>
      obtain ⟨hxzero, hyzero⟩ := Bool.or_eq_false_iff.1 (Bool.eq_false_iff.2 hzero)
      have hnorms := hx.within_norms hy
      have hquotient := hx.within_quotient hy hxzero hyzero hdot
      have hone : (one : Binary64).Within 1682 := within_one (by decide)
      have hdistance := hone.sub (hquotient.clamp hone) (one_shiftLeft_lt (by decide))
      simp only [hx.within_sqrt.settle_eq, hy.within_sqrt.settle_eq, hnorms.settle_eq,
        hquotient.settle_eq, hdistance.settle_eq, Option.bind_eq_bind, Option.bind_some]

end SquaredNorm

theorem euclidean_settles (hlen : a.length = b.length) (ha : ∀ x ∈ a, (widen x).isFinite = true)
    (hb : ∀ y ∈ b, (widen y).isFinite = true) :
    Kind.euclidean.distanceThrough settle a b = some (Kind.euclidean.distance a b) := by
  obtain ⟨hsquares, hwithin⟩ := sumThrough_squaredDifference ha hb
  have hroot : (squaredEuclidean.distance a b).sqrt.Within 1230 := by
    rcases eq_or_ne a [] with rfl | hne
    · exact within_zero true 1230
    · exact hwithin.sqrt (signClear_squaredEuclidean hlen hne) (by decide)
        (one_shiftLeft_lt (by decide))
  rw [Kind.distanceThrough, hsquares]
  exact hroot.settle_eq

theorem cosine_settles (hlen : a.length = b.length) (ha : ∀ x ∈ a, (widen x).isFinite = true)
    (hb : ∀ y ∈ b, (widen y).isFinite = true) :
    Kind.cosine.distanceThrough settle a b = some (Kind.cosine.distance a b) := by
  obtain ⟨hdot, hdotWithin⟩ :=
    sumThrough_products fun x hx y hy => within_product (ha x hx) (hb y hy)
  obtain ⟨hleft, -⟩ := sumThrough_products (f := fun x _ => x * x) (b := b)
    fun x hx _ _ => within_product (ha x hx) (ha x hx)
  obtain ⟨hright, -⟩ := sumThrough_products (f := fun _ y => y * y) (a := a)
    fun _ _ y hy => within_product (hb y hy) (hb y hy)
  have hnorms := (squaredNorm_normSquared ha).cosineThrough_eq (squaredNorm_normSquared hb)
    hdotWithin
  rw [distanceThrough_cosine hdot hleft hright]
  rw [← leftNormSquared_eq hlen, ← rightNormSquared_eq hlen] at hnorms
  exact hnorms

/-- Whatever the length of the vectors, no operation of a metric leaves the finite numbers, and by
angle a vector has no direction only when all its components are zero. -/
theorem distance_settles (hlen : a.length = b.length) (ha : ∀ x ∈ a, (widen x).isFinite = true)
    (hb : ∀ y ∈ b, (widen y).isFinite = true) :
    (∀ kind : Kind, kind.distanceThrough settle a b = some (kind.distance a b)) ∧
      (((leftNormSquared a b).isZero || (rightNormSquared a b).isZero) = true ↔
        (∀ x ∈ a, (widen x).isZero = true) ∨ ∀ y ∈ b, (widen y).isZero = true) := by
  refine ⟨fun kind => ?_, ?_⟩
  · cases kind with
    | euclidean => exact euclidean_settles hlen ha hb
    | squaredEuclidean => exact (sumThrough_squaredDifference ha hb).1
    | manhattan => exact sumThrough_absoluteDifference ha hb
    | cosine => exact cosine_settles hlen ha hb
  · rw [leftNormSquared_eq hlen, rightNormSquared_eq hlen, Bool.or_eq_true,
      isZero_normSquared_iff, isZero_normSquared_iff]

end SingleRange

/-- In two places the greatest number of binary32 stands against the lowest one, so that sums grow
on the way. The least numbers of both signs stand beside them. -/
theorem distance_settles_of_extremes :
    ∃ a b : List Binary32, a.map toBits = [0x00000001, 0x7f7fffff, 0x7f7fffff, 0xff7fffff] ∧
      b.map toBits = [0xff7fffff, 0xff7fffff, 0xff7fffff, 0x80000001] ∧ a.length = b.length ∧
      (∀ x ∈ a, (widen x).isFinite = true) ∧ (∀ y ∈ b, (widen y).isFinite = true) ∧
      (∀ kind : Kind, kind.distanceThrough settle a b = some (kind.distance a b)) ∧
      ((leftNormSquared a b).isZero || (rightNormSquared a b).isZero) = false := by
  have hfinite (bits : List Nat) (h : ∀ n ∈ bits, (ofBits binary32 n).isFinite = true) :
      ∀ x ∈ bits.map (ofBits binary32), (widen x).isFinite = true := by
    intro x hx
    obtain ⟨n, hn, rfl⟩ := List.mem_map.1 hx
    exact (isFinite_convert _).trans (h n hn)
  have ha := hfinite [0x00000001, 0x7f7fffff, 0x7f7fffff, 0xff7fffff] (by decide)
  have hb := hfinite [0xff7fffff, 0xff7fffff, 0xff7fffff, 0x80000001] (by decide)
  obtain ⟨hsettles, hzero⟩ := distance_settles (by decide) ha hb
  refine ⟨_, _, by decide, by decide, by decide, ha, hb, hsettles, Bool.eq_false_iff.2 fun h => ?_⟩
  rcases hzero.1 h with hall | hall
  · have hleast := (isZero_convert _).symm.trans (hall _ List.mem_cons_self)
    exact absurd hleast (by decide)
  · have hlowest := (isZero_convert _).symm.trans (hall _ List.mem_cons_self)
    exact absurd hlowest (by decide)

end Metric

end Vicinity
