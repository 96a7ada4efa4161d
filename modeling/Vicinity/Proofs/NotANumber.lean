import Vicinity.Proofs.Overflow

namespace Vicinity

namespace Number.Value

variable {F : Format} {x y low high : Value F} {xs : List (Value F)}

theorem isNaN_iff : x.isNaN = true ↔ x = .nan := by
  cases x <;> simp [isNaN]

theorem isFinite_eq_false_iff : x.isFinite = false ↔ x.isNaN = true ∨ x.isInfinite = true := by
  rw [isFinite, Bool.not_eq_false', Bool.or_eq_true]

theorem isNaN_of_isFinite (hx : x.isFinite = true) : x.isNaN = false := by
  cases x with
  | nan | infinite => cases hx
  | finite => rfl

theorem isNaN_nearest (s : Bool) (num den : Nat) : (nearest s num den : Value F).isNaN = false := by
  rw [nearest]
  split <;> rfl

theorem isNaN_neg (x : Value F) : x.neg.isNaN = x.isNaN := by
  cases x <;> rfl

theorem isNaN_abs (x : Value F) : x.abs.isNaN = x.isNaN := by
  cases x <;> rfl

theorem isNaN_mul_self (x : Value F) : (x * x).isNaN = x.isNaN := by
  cases x with
  | nan | infinite => rfl
  | finite s m hm => exact isNaN_nearest _ _ _

theorem isNaN_finite_add (hx : x.isFinite = true) : (x + y).isNaN = y.isNaN := by
  cases x with
  | nan | infinite => cases hx
  | finite s m hm =>
      cases y with
      | nan | infinite => rfl
      | finite t n hn =>
          rw [add_finite]
          split
          · rfl
          · exact isNaN_nearest _ _ _

theorem isNaN_add_finite (hy : y.isFinite = true) : (x + y).isNaN = x.isNaN := by
  cases x with
  | nan => rfl
  | infinite s =>
      cases y with
      | nan | infinite => cases hy
      | finite => rfl
  | finite s m hm =>
      rw [isNaN_finite_add rfl]
      cases y with
      | nan | infinite => cases hy
      | finite => rfl

theorem isNaN_sub (hx : x.isFinite = true) : (x - y).isNaN = y.isNaN :=
  (isNaN_finite_add hx).trans (isNaN_neg y)

theorem isNaN_foldl_add_finite (hx : x.isNaN = false) (hxs : ∀ y ∈ xs, y.isFinite = true) :
    (xs.foldl (· + ·) x).isNaN = false := by
  induction xs generalizing x with
  | nil => exact hx
  | cons y ys ih =>
      obtain ⟨hy, hys⟩ := List.forall_mem_cons.1 hxs
      exact ih ((isNaN_add_finite hy).trans hx) hys

theorem isFinite_of_add (h : (x + y).isFinite = true) :
    x.isFinite = true ∧ y.isFinite = true := by
  cases x with
  | nan => cases h
  | infinite s =>
      cases y with
      | nan | finite => cases h
      | infinite t => cases s <;> cases t <;> cases h
  | finite s m hm =>
      cases y with
      | nan | infinite => cases h
      | finite => exact ⟨rfl, rfl⟩

theorem isFinite_of_foldl_add (h : (xs.foldl (· + ·) x).isFinite = true) :
    x.isFinite = true ∧ ∀ y ∈ xs, y.isFinite = true := by
  induction xs generalizing x with
  | nil => exact ⟨h, List.forall_mem_nil _⟩
  | cons y ys ih =>
      obtain ⟨hxy, hys⟩ := ih h
      obtain ⟨hx, hy⟩ := isFinite_of_add hxy
      exact ⟨hx, List.forall_mem_cons.2 ⟨hy, hys⟩⟩

theorem isFinite_of_mul (h : (x * y).isFinite = true) :
    x.isFinite = true ∧ y.isFinite = true := by
  have hinfinite (s : Bool) (m : Nat) :
      (if m = 0 then .nan else .infinite s : Value F).isFinite = false := by
    split <;> rfl
  cases x with
  | nan => cases h
  | infinite s =>
      cases y with
      | nan | infinite => cases h
      | finite => exact absurd h (Bool.eq_false_iff.1 (hinfinite _ _))
  | finite s m hm =>
      cases y with
      | nan => cases h
      | infinite => exact absurd h (Bool.eq_false_iff.1 (hinfinite _ _))
      | finite => exact ⟨rfl, rfl⟩

theorem isFinite_of_sqrt (h : x.sqrt.isFinite = true) : x.isFinite = true := by
  cases x with
  | nan => cases h
  | infinite s => cases s <;> cases h
  | finite => rfl

theorem isFinite_nearest_of_le {a b : Nat} (hab : a ≤ b) (den : Nat) (s t : Bool)
    (h : (nearest t b den : Value F).isFinite = true) :
    (nearest s a den : Value F).isFinite = true := by
  have hround := roundTo_mono F.fractionBits hab den
  rw [nearest] at h ⊢
  split at h
  · next hb =>
      rw [dif_pos (hround.trans_lt hb)]
      rfl
  · cases h

theorem isFinite_mul (hx : x.isFinite = true) (hy : y.isFinite = true)
    (hxx : (x * x).isFinite = true) (hyy : (y * y).isFinite = true) :
    (x * y).isFinite = true := by
  cases x with
  | nan | infinite => cases hx
  | finite s m hm =>
      cases y with
      | nan | infinite => cases hy
      | finite t n hn =>
          rcases Nat.le_total m n with hle | hle
          · exact isFinite_nearest_of_le (Nat.mul_le_mul_right n hle) _ _ _ hyy
          · exact isFinite_nearest_of_le (Nat.mul_le_mul_left m hle) _ _ _ hxx

theorem isNaN_clamp (hlow : low.isNaN = false) (hhigh : high.isNaN = false) :
    (x.clamp low high).isNaN = x.isNaN := by
  cases x with
  | nan => rfl
  | infinite | finite =>
      rw [clamp]
      split_ifs
      · exact hlow
      · exact hhigh
      · rfl

theorem isNaN_one_sub_clamp (x : Binary64) : (one - x.clamp (-one) one).isNaN = x.isNaN := by
  have hone : (one : Binary64).isFinite = true := (within_one le_rfl).isFinite
  have hhigh : (one : Binary64).isNaN = false := isNaN_of_isFinite hone
  have hlow : (-one : Binary64).isNaN = false := (isNaN_neg one).trans hhigh
  rw [isNaN_sub hone, isNaN_clamp hlow hhigh]

theorem Beyond.isNaN_div {p : Nat} (hy : y.Beyond p) :
    (x / y).isNaN = true ↔ x.isNaN = true ∨ x.isInfinite = true ∧ y.isFinite = false := by
  cases hy with
  | infinite =>
      cases x with
      | nan => exact iff_of_true rfl (.inl rfl)
      | infinite => exact iff_of_true rfl (.inr ⟨rfl, rfl⟩)
      | finite => exact iff_of_false nofun nofun
  | @finite t n hn hy =>
      have hne : n ≠ 0 := Nat.ne_of_gt ((one_shiftLeft_pos p).trans_le hy)
      cases x with
      | nan => exact iff_of_true rfl (.inl rfl)
      | infinite => exact iff_of_false nofun nofun
      | finite s m hm =>
          rw [div_finite hne, isNaN_nearest]
          exact iff_of_false nofun nofun

theorem within_of_isZero_mul_self {p : Nat} (h : (x * x).isZero = true) (hp : F.scale ≤ p + p) :
    x.Within p := by
  cases x with
  | nan | infinite => cases h
  | finite s m hm =>
      refine .finite (Nat.le_of_not_lt fun hlt => ?_)
      have hsquare : 1 <<< F.scale ≤ m * m := by
        calc
          1 <<< F.scale ≤ 1 <<< p * 1 <<< p := by
            rw [one_shiftLeft_mul_one_shiftLeft]
            exact shiftLeft_le_shiftLeft_right 1 hp
          _ ≤ m * m := Nat.mul_le_mul hlt.le hlt.le
      rw [mul_finite, isZero_nearest (one_shiftLeft_pos _) hsquare] at h
      cases h

namespace SignClear

theorem isNaN_add (hx : x.SignClear) (hy : y.SignClear) :
    (x + y).isNaN = (x.isNaN || y.isNaN) := by
  cases hx with
  | nan => cases hy <;> rfl
  | infinite => cases hy <;> rfl
  | finite => exact isNaN_finite_add rfl

theorem isNaN_foldl_add (hx : x.SignClear) (hxs : ∀ y ∈ xs, y.SignClear) :
    (xs.foldl (· + ·) x).isNaN = (x.isNaN || xs.any isNaN) := by
  induction xs generalizing x with
  | nil => exact (Bool.or_false _).symm
  | cons y ys ih =>
      obtain ⟨hy, hys⟩ := List.forall_mem_cons.1 hxs
      rw [List.foldl_cons, ih (hx.add hy) hys, hx.isNaN_add hy, Bool.or_assoc, List.any_cons]

theorem isNaN_sqrt (hx : x.SignClear) : x.sqrt.isNaN = x.isNaN := by
  cases hx with
  | nan | infinite => rfl
  | finite =>
      rw [sqrt_finite]
      exact isNaN_nearest _ _ _

theorem exists_of_isFinite (hx : x.SignClear) (h : x.isFinite = true) :
    ∃ m hm, x = .finite false m hm := by
  cases hx with
  | nan | infinite => cases h
  | finite => exact ⟨_, _, rfl⟩

theorem isFinite_of_place_le (hx : x.SignClear) (hy : y.isFinite = true)
    (h : x.place ≤ y.place) : x.isFinite = true := by
  cases y with
  | nan | infinite => cases hy
  | finite t n hn =>
      cases hx with
      | nan => exact absurd h (Place.number_lt_last _).not_ge
      | infinite =>
          have hle : (F.limit : Int) ≤ signed t n := Place.number_le_number.1 h
          have hlimit := hn.1
          cases t <;> simp only [signed] at hle <;> omega
      | finite => rfl

end SignClear

/-- A sum of terms without minus signs is a NaN only when one of the terms is. -/
theorem isNaN_sum (hxs : ∀ y ∈ xs, y.SignClear) : (sum xs).isNaN = xs.any isNaN := by
  cases xs with
  | nil => rfl
  | cons y ys =>
      obtain ⟨hy, hys⟩ := List.forall_mem_cons.1 hxs
      rw [sum, List.foldl_cons, (signClear_zero_add hy).isNaN_foldl_add hys,
        isNaN_finite_add rfl, List.any_cons]

def greatest : Binary64 := .finite false ((1 <<< 53 - 1) <<< 2045) (by decide +kernel)

theorem le_of_holds {m : Nat} (hm : binary64.Holds m) : m ≤ (1 <<< 53 - 1) <<< 2045 := by
  obtain ⟨q, hq⟩ := hm.2
  have hdigits := lt_shiftLeft_spacing binary64.fractionBits m
  have hspacing : spacing binary64.fractionBits m ≤ 2045 := spacing_le_of_lt hm.1
  generalize spacing binary64.fractionBits m = k at hq hdigits hspacing
  have hsignificand : q < 1 <<< 53 := by
    rw [Nat.add_comm, ← one_shiftLeft_mul_one_shiftLeft, hq] at hdigits
    exact Nat.lt_of_mul_lt_mul_left hdigits
  rw [shiftLeft_eq_mul, Nat.mul_comm, hq]
  exact Nat.mul_le_mul (shiftLeft_le_shiftLeft_right 1 hspacing)
    (Nat.le_sub_one_of_lt hsignificand)

theorem place_le_greatest {x : Binary64} (hx : x.isFinite = true) : x.place ≤ greatest.place := by
  cases x with
  | nan | infinite => cases hx
  | finite s m hm =>
      have hle := Int.ofNat_le.2 (le_of_holds hm)
      refine Place.number_le_number.2 (le_trans ?_ hle)
      cases s <;> simp only [signed] <;> omega

/-- The product of two roots does not overflow. The closest case is that of the greatest number. -/
theorem SignClear.isFinite_sqrt_mul_sqrt {x y : Binary64} (hx : x.SignClear) (hy : y.SignClear)
    (hxfinite : x.isFinite = true) (hyfinite : y.isFinite = true) :
    (x.sqrt * y.sqrt).isFinite = true := by
  have hclear : greatest.SignClear := .finite
  have hproduct : (greatest.sqrt * greatest.sqrt).isFinite = true := by decide +kernel
  have hgreatest : greatest.sqrt.isFinite = true := (isFinite_of_mul hproduct).1
  have hxle := hx.place_sqrt_le hclear (place_le_greatest hxfinite)
  have hyle := hy.place_sqrt_le hclear (place_le_greatest hyfinite)
  obtain ⟨r, hr, hroot⟩ := hclear.sqrt.exists_of_isFinite hgreatest
  obtain ⟨m, hm, hxroot⟩ :=
    hx.sqrt.exists_of_isFinite (hx.sqrt.isFinite_of_place_le hgreatest hxle)
  obtain ⟨n, hn, hyroot⟩ :=
    hy.sqrt.exists_of_isFinite (hy.sqrt.isFinite_of_place_le hgreatest hyle)
  rw [hroot] at hxle hyle hproduct
  rw [hxroot] at hxle ⊢
  rw [hyroot] at hyle ⊢
  have hmr : m ≤ r := Int.ofNat_le.1 (Place.number_le_number.1 hxle)
  have hnr : n ≤ r := Int.ofNat_le.1 (Place.number_le_number.1 hyle)
  exact isFinite_nearest_of_le (Nat.mul_le_mul hmr hnr) _ _ _ hproduct

theorem SignClear.isFinite_sqrt_mul_sqrt_eq_false_iff {x y : Binary64} (hx : x.SignClear)
    (hy : y.SignClear) :
    (x.sqrt * y.sqrt).isFinite = false ↔ x.isFinite = false ∨ y.isFinite = false := by
  rw [← Bool.and_eq_false_iff, ← Bool.not_eq_true, ← Bool.not_eq_true, not_iff_not,
    Bool.and_eq_true]
  refine ⟨fun h => ?_, fun ⟨hxfinite, hyfinite⟩ => hx.isFinite_sqrt_mul_sqrt hy hxfinite hyfinite⟩
  obtain ⟨hxroot, hyroot⟩ := isFinite_of_mul h
  exact ⟨isFinite_of_sqrt hxroot, isFinite_of_sqrt hyroot⟩

end Number.Value

namespace Metric

open Number Number.Value

variable {α : Type} [Element α] {a b : List α}

theorem isNaN_sum_terms {f : Binary64 → Binary64 → Binary64} (hclear : ∀ x y, (f x y).SignClear)
    (hf : ∀ x ∈ a, ∀ y ∈ b, (f (widen x) (widen y)).isNaN = false) :
    (Value.sum (terms f a b)).isNaN = false := by
  rw [isNaN_sum (signClear_of_mem_terms hclear), List.any_eq_false]
  exact forall_mem_terms fun x hx y hy => Bool.eq_false_iff.1 (hf x hx y hy)

theorem isNaN_squaredEuclidean (ha : ∀ x ∈ a, (widen x).isFinite = true)
    (hb : ∀ y ∈ b, (widen y).isFinite = true) :
    (squaredEuclidean.distance a b).isNaN = false := by
  refine isNaN_sum_terms (fun _ _ => signClear_mul_self _) fun x hx y hy => ?_
  rw [squaredDifference, isNaN_mul_self, isNaN_sub (ha x hx)]
  exact isNaN_of_isFinite (hb y hy)

theorem isNaN_manhattan (ha : ∀ x ∈ a, (widen x).isFinite = true)
    (hb : ∀ y ∈ b, (widen y).isFinite = true) : (manhattan.distance a b).isNaN = false := by
  refine isNaN_sum_terms (fun _ _ => signClear_abs _) fun x hx y hy => ?_
  rw [absoluteDifference, isNaN_abs, isNaN_sub (ha x hx)]
  exact isNaN_of_isFinite (hb y hy)

theorem isNaN_normSquared (ha : ∀ x ∈ a, (widen x).isFinite = true) :
    (normSquared a).isNaN = false := by
  have hsquares : ∀ t ∈ a.map fun x => widen x * widen x, ¬t.isNaN = true := by
    refine List.forall_mem_map.2 fun x hx => Bool.eq_false_iff.1 ?_
    rw [isNaN_mul_self]
    exact isNaN_of_isFinite (ha x hx)
  rw [normSquared, accumulate, signClear_zero.isNaN_foldl_add (signClear_squares a),
    List.any_eq_false.2 hsquares]
  rfl

theorem beyond_sqrt_normSquared (ha : ∀ x ∈ a, (widen x).isFinite = true)
    (hzero : (normSquared a).isZero = false) : (normSquared a).sqrt.Beyond 537 :=
  ((onGrid_units _).beyond (isNaN_normSquared ha) hzero).sqrt (signClear_normSquared a)
    (by decide)

theorem isFinite_dot_of_isZero (ha : (normSquared a).isZero = true)
    (hb : ∀ y ∈ b, (widen y).isFinite = true) : (dot a b).isFinite = true := by
  have hsmall : ∀ x ∈ a, (widen x).Within 537 := by
    rw [normSquared, accumulate, signClear_zero.isZero_foldl_add (signClear_squares a),
      Bool.and_eq_true, List.all_eq_true, List.forall_mem_map] at ha
    exact fun x hx => within_of_isZero_mul_self (ha.2 x hx) (by decide)
  have hproducts : ∀ t ∈ terms (· * ·) a b, t.Within 1561 :=
    forall_mem_terms fun x hx y hy =>
      (hsmall x hx).mul (within_of_isFinite (hb y hy)) (by decide) (one_shiftLeft_lt (by decide))
  exact ((within_zero _ _).foldl_add hproducts (one_shiftLeft_lt (by decide))).isFinite

theorem overflow_of_isNaN_dot (ha : ∀ x ∈ a, (widen x).isFinite = true)
    (hb : ∀ y ∈ b, (widen y).isFinite = true) (h : (dot a b).isNaN = true) :
    (normSquared a).isFinite = false ∨ (normSquared b).isFinite = false := by
  rw [← Bool.and_eq_false_iff, Bool.eq_false_iff, ne_eq, Bool.and_eq_true]
  rintro ⟨hleft, hright⟩
  have hleft := List.forall_mem_map.1 (isFinite_of_foldl_add hleft).2
  have hright := List.forall_mem_map.1 (isFinite_of_foldl_add hright).2
  have hproducts : ∀ t ∈ terms (· * ·) a b, t.isFinite = true :=
    forall_mem_terms fun x hx y hy => isFinite_mul (ha x hx) (hb y hy) (hleft x hx) (hright y hy)
  exact absurd h (Bool.eq_false_iff.1 (isNaN_foldl_add_finite rfl hproducts))

theorem isNaN_cosine_iff (hlen : a.length = b.length) (ha : ∀ x ∈ a, (widen x).isFinite = true)
    (hb : ∀ y ∈ b, (widen y).isFinite = true) : (cosine.distance a b).isNaN = true ↔
      (dot a b).isFinite = false ∧
        ((normSquared a).isFinite = false ∨ (normSquared b).isFinite = false) := by
  rw [cosine_distance_eq, similarity, leftNormSquared_eq hlen, rightNormSquared_eq hlen]
  split
  · next hzero =>
      have hdot : (dot a b).isFinite = true := by
        rcases (Bool.or_eq_true _ _).mp hzero with hazero | hbzero
        · exact isFinite_dot_of_isZero hazero hb
        · rw [dot_comm]
          exact isFinite_dot_of_isZero hbzero ha
      refine iff_of_false (Bool.eq_false_iff.1 (isNaN_ofInt 1)) fun h => ?_
      exact absurd hdot (Bool.eq_false_iff.1 h.1)
  · next hzero =>
      obtain ⟨hazero, hbzero⟩ := Bool.or_eq_false_iff.1 (Bool.eq_false_iff.2 hzero)
      have hnorms : ((normSquared a).sqrt * (normSquared b).sqrt).Beyond 0 :=
        (beyond_sqrt_normSquared ha hazero).mul (beyond_sqrt_normSquared hb hbzero) (by decide)
      have hoverflow := (signClear_normSquared a).isFinite_sqrt_mul_sqrt_eq_false_iff
        (signClear_normSquared b)
      rw [isNaN_one_sub_clamp, hnorms.isNaN_div, hoverflow]
      constructor
      · rintro (hnan | ⟨hinfinite, hnorms⟩)
        · exact ⟨isFinite_eq_false_iff.2 (.inl hnan), overflow_of_isNaN_dot ha hb hnan⟩
        · exact ⟨isFinite_eq_false_iff.2 (.inr hinfinite), hnorms⟩
      · rintro ⟨hdot, hnorms⟩
        exact (isFinite_eq_false_iff.1 hdot).imp_right fun hinfinite => ⟨hinfinite, hnorms⟩

/-- Between vectors of numbers only the angle can fail to be one, and it does exactly where the
product of the vectors overflows together with the square of one of them. -/
theorem Kind.distance_eq_nan_iff (kind : Kind) (hlen : a.length = b.length)
    (ha : ∀ x ∈ a, (widen x).isFinite = true) (hb : ∀ y ∈ b, (widen y).isFinite = true) :
    kind.distance a b = .nan ↔ kind = .cosine ∧ (dot a b).isFinite = false ∧
      ((leftNormSquared a b).isFinite = false ∨ (rightNormSquared a b).isFinite = false) := by
  rw [leftNormSquared_eq hlen, rightNormSquared_eq hlen, ← isNaN_iff]
  cases kind with
  | euclidean =>
      have hroot : (Metric.squaredEuclidean.distance a b).sqrt.isNaN = false := by
        rcases eq_or_ne a [] with rfl | hne
        · rfl
        · rw [(signClear_squaredEuclidean hlen hne).isNaN_sqrt]
          exact isNaN_squaredEuclidean ha hb
      exact iff_of_false (Bool.eq_false_iff.1 hroot) nofun
  | squaredEuclidean =>
      exact iff_of_false (Bool.eq_false_iff.1 (isNaN_squaredEuclidean ha hb)) nofun
  | manhattan => exact iff_of_false (Bool.eq_false_iff.1 (isNaN_manhattan ha hb)) nofun
  | cosine => exact (isNaN_cosine_iff hlen ha hb).trans (and_iff_right rfl).symm

/-- Of `2 ^ 600` beside one and its inverse beside one: a norm overflows, their product does not. -/
theorem distance_ne_nan_of_inverses :
    [ofBits binary64 0x6570000000000000, one].length =
        [ofBits binary64 0x1a70000000000000, one].length ∧
      (∀ x ∈ [ofBits binary64 0x6570000000000000, one], (widen x).isFinite = true) ∧
      (∀ y ∈ [ofBits binary64 0x1a70000000000000, one], (widen y).isFinite = true) ∧
      Kind.cosine.distance [ofBits binary64 0x6570000000000000, one]
        [ofBits binary64 0x1a70000000000000, one] ≠ .nan := by
  obtain ⟨hlarge, hsmall, hdot⟩ :
      (∀ x ∈ [ofBits binary64 0x6570000000000000, one], (widen x).isFinite = true) ∧
        (∀ y ∈ [ofBits binary64 0x1a70000000000000, one], (widen y).isFinite = true) ∧
        (dot [ofBits binary64 0x6570000000000000, one]
          [ofBits binary64 0x1a70000000000000, one]).isFinite = true := by
    decide +kernel
  have hlen : [ofBits binary64 0x6570000000000000, one].length =
      [ofBits binary64 0x1a70000000000000, one].length := by simp
  refine ⟨hlen, hlarge, hsmall, fun h => ?_⟩
  obtain ⟨-, hdot', -⟩ := (Kind.cosine.distance_eq_nan_iff hlen hlarge hsmall).1 h
  exact absurd hdot (Bool.eq_false_iff.1 hdot')

/-- Of `2 ^ 600` and itself: the quotient is one of infinities. -/
theorem cosine_distance_eq_nan :
    (widen (ofBits binary64 0x6570000000000000)).isFinite = true ∧
      Kind.cosine.distance [ofBits binary64 0x6570000000000000]
        [ofBits binary64 0x6570000000000000] = .nan := by
  decide +kernel

end Metric

end Vicinity
