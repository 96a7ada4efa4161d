import Vicinity.Proofs.Exactness
import Vicinity.Proofs.SquareRoot

namespace Vicinity.Number

namespace Value

variable {F : Format} {x y : Value F} {s t : Bool} {m n low : Nat} {hm : F.Holds m} {hn : F.Holds n}

def isFinite (x : Value F) : Bool := !(x.isNaN || x.isInfinite)

theorem level?_finite_ne_infinite (s t : Bool) (hm : F.Holds m) :
    (finite s m hm : Value F).level? ≠ (infinite t : Value F).level? := by
  have hlt := hm.1
  intro h
  have heq : signed s m = signed t F.limit := Option.some.inj h
  cases s <;> cases t <;> simp only [signed] at heq <;> omega

theorem level?_infinite_inj {s t : Bool} :
    (infinite s : Value F).level? = (infinite t : Value F).level? ↔ s = t := by
  have hpos := F.limit_pos
  simp only [level?, Option.some_inj]
  cases s <;> cases t <;> simp only [signed] <;> grind

theorem compare?_eq_iff : x.compare? y = some .eq ↔ x.isNaN = false ∧ x.level? = y.level? := by
  rw [compare?, isNaN_eq]
  cases x.level? with
  | none => simp
  | some a =>
      cases y.level? with
      | none => simp
      | some b => simp

def ZeroOrFrom (low : Nat) : Value F → Prop
  | .finite _ m _ => m = 0 ∨ low ≤ m
  | .infinite _ | .nan => True

theorem zeroOrFrom_nearest (hlow : 1 <<< spacing F.fractionBits low ∣ low) {num den : Nat}
    (hden : 0 < den) (h : low * den ≤ num) (s : Bool) :
    (nearest s num den : Value F).ZeroOrFrom low := by
  rw [nearest]
  split
  · exact .inr (le_roundTo_of_dvd hlow hden h)
  · trivial

theorem isZero_nearest {num den : Nat} (hden : 0 < den) (h : den ≤ num) (s : Bool) :
    (nearest s num den : Value F).isZero = false := by
  have hone : 1 <<< spacing F.fractionBits 1 ∣ 1 := one_shiftLeft_spacing_dvd _ 0
  have hround := le_roundTo_of_dvd hone hden ((Nat.one_mul den).trans_le h)
  rw [nearest]
  split
  · exact beq_eq_false_iff_ne.2 (Nat.ne_of_gt hround)
  · rfl

theorem isZero_abs (x : Value F) : x.abs.isZero = x.isZero := by
  cases x <;> rfl

/-- Sums are not rounded to zero: those that are not zero are no less than one unit. -/
theorem isZero_add_finite : (finite s m hm + finite t n hn : Value F).isZero =
    decide (signed s m + signed t n = 0) := by
  change (add _ _).isZero = _
  simp only [add]
  split
  · next h => exact (decide_eq_true h).symm
  · next h =>
      rw [decide_eq_false h]
      exact isZero_nearest Nat.one_pos (Int.natAbs_pos.2 h) _

theorem zeroOrFrom_add_finite (hlow : 1 <<< spacing F.fractionBits low ∣ low)
    (h : signed s m + signed t n = 0 ∨ low ≤ (signed s m + signed t n).natAbs) :
    (finite s m hm + finite t n hn : Value F).ZeroOrFrom low := by
  change (add _ _).ZeroOrFrom low
  simp only [add]
  split
  · exact .inl rfl
  · next hne =>
      refine zeroOrFrom_nearest hlow Nat.one_pos ?_ _
      rw [Nat.mul_one]
      exact h.resolve_left hne

theorem isZero_sub_iff (hx : x.isFinite = true) :
    (x - y).isZero = true ↔ x.compare? y = some .eq := by
  cases x with
  | nan | infinite => cases hx
  | finite s m hm =>
      cases y with
      | nan => exact iff_of_false nofun nofun
      | infinite t =>
          exact iff_of_false nofun fun h => level?_finite_ne_infinite s t hm (compare?_eq_iff.1 h).2
      | finite t n hn =>
          have hsub : (finite s m hm - finite t n hn).isZero =
              decide (signed s m + signed (!t) n = 0) := isZero_add_finite
          rw [hsub, decide_eq_true_eq, signed_not]
          refine Iff.trans ?_ (compare_eq_iff_eq.symm.trans Option.some_inj.symm)
          omega

theorem ZeroOrFrom.isZero_mul_self (hx : x.ZeroOrFrom low) (hlow : 1 <<< F.scale ≤ low * low) :
    (x * x).isZero = x.isZero := by
  cases x with
  | nan | infinite => rfl
  | finite s m hm =>
      change (nearest _ _ _).isZero = (m == 0)
      rcases hx with rfl | hle
      · have hzero := nearest_mul (s ^^ s) F.holds_zero (one_shiftLeft_pos F.scale)
        rw [Nat.zero_mul] at hzero ⊢
        rw [hzero]
        rfl
      · have hsq : 1 <<< F.scale ≤ m * m := hlow.trans (Nat.mul_le_mul hle hle)
        have hne : m ≠ 0 := fun h => (one_shiftLeft_pos F.scale).not_ge (by rwa [h] at hsq)
        rw [isZero_nearest (one_shiftLeft_pos _) hsq]
        exact (beq_eq_false_iff_ne.2 hne).symm

namespace SignClear

theorem isZero_iff (hx : x.SignClear) : x.isZero = true ↔ x = zero false := by
  refine ⟨fun h => ?_, fun h => h ▸ rfl⟩
  cases hx with
  | nan | infinite => cases h
  | finite =>
      obtain rfl := beq_iff_eq.1 h
      rfl

theorem eq_zero_of_place_le (hx : x.SignClear) (h : x.place ≤ (zero false : Value F).place) :
    x = zero false := by
  cases hx with
  | nan => exact absurd h (Place.number_lt_last 0).not_ge
  | infinite => exact absurd (Int.ofNat_le.1 (Place.number_le_number.1 h)) F.limit_pos.not_ge
  | @finite m hm =>
      obtain rfl := Nat.le_zero.1 (Int.ofNat_le.1 (Place.number_le_number.1 h))
      rfl

theorem isZero_zero_add (hy : y.SignClear) : (zero true + y).isZero = y.isZero := by
  cases hy with
  | nan | infinite => rfl
  | @finite n hn =>
      rw [zero, isZero_add_finite]
      change decide ((0 : Int) + n = 0) = (n == 0)
      rw [Bool.eq_iff_iff, decide_eq_true_eq, beq_iff_eq]
      omega

theorem isZero_add (hx : x.SignClear) (hy : y.SignClear) :
    (x + y).isZero = (x.isZero && y.isZero) := by
  cases hx with
  | nan => cases hy <;> rfl
  | infinite => cases hy <;> rfl
  | @finite m hm =>
      cases hy with
      | nan | infinite => exact (Bool.and_false _).symm
      | @finite n hn =>
          rw [isZero_add_finite]
          change decide ((m : Int) + n = 0) = (m == 0 && n == 0)
          rw [Bool.eq_iff_iff, decide_eq_true_eq, Bool.and_eq_true, beq_iff_eq, beq_iff_eq]
          omega

theorem isZero_foldl_add {xs : List (Value F)} (hx : x.SignClear) (hxs : ∀ y ∈ xs, y.SignClear) :
    (xs.foldl (· + ·) x).isZero = (x.isZero && xs.all isZero) := by
  induction xs generalizing x with
  | nil => exact (Bool.and_true _).symm
  | cons y ys ih =>
      obtain ⟨hy, hys⟩ := List.forall_mem_cons.1 hxs
      rw [List.foldl_cons, ih (hx.add hy) hys, hx.isZero_add hy, Bool.and_assoc, List.all_cons]

theorem isZero_sqrt (hx : x.SignClear) : x.sqrt.isZero = x.isZero := by
  cases hx with
  | nan | infinite => rfl
  | @finite m hm =>
      by_cases h : m = 0
      · rw [Value.sqrt, if_pos h]
      · have hroot : 0 < (m <<< F.scale).sqrt := by
          rw [Nat.sqrt_pos, Nat.shiftLeft_eq]
          exact Nat.mul_pos (Nat.pos_of_ne_zero h) (Nat.two_pow_pos _)
        have htwice : 2 ≤ twiceRoot (m <<< F.scale) :=
          (Nat.mul_le_mul_left 2 hroot).trans (Nat.le_add_right _ _)
        rw [sqrt_finite, isZero_nearest Nat.two_pos htwice]
        exact (beq_eq_false_iff_ne.2 h).symm

end SignClear

theorem isZero_sum {xs : List (Value F)} (hxs : ∀ y ∈ xs, y.SignClear) :
    (sum xs).isZero = xs.all isZero := by
  cases xs with
  | nil => rfl
  | cons y ys =>
      obtain ⟨hy, hys⟩ := List.forall_mem_cons.1 hxs
      rw [sum, List.foldl_cons, (signClear_zero_add hy).isZero_foldl_add hys, hy.isZero_zero_add,
        List.all_cons]

end Value

end Vicinity.Number
