import Vicinity.Proofs.SingleRange

namespace Vicinity.Number

theorem natAbs_signed (s : Bool) (m : Nat) : (signed s m).natAbs = m := by
  cases s with
  | false => exact Int.natAbs_natCast m
  | true => exact (Int.natAbs_neg _).trans (Int.natAbs_natCast m)

theorem natAbs_signed_add_le (s t : Bool) (m n : Nat) :
    (signed s m + signed t n).natAbs ≤ m + n := by
  have h := Int.natAbs_add_le (signed s m) (signed t n)
  rwa [natAbs_signed, natAbs_signed] at h

theorem twiceRoot_mul_self (n : Nat) : twiceRoot (n * n) = 2 * n := by
  rw [twiceRoot, Nat.sqrt_eq, if_pos rfl, Nat.add_zero]

namespace Value

variable {F : Format} {x y : Value F} {s t : Bool} {m n p q r den num : Nat} {hm : F.Holds m}
  {hn : F.Holds n}

/-- Finite, and no farther from zero than this power of two, in units. -/
inductive Within (high : Nat) : Value F → Prop
  | finite {s : Bool} {m : Nat} {hm : F.Holds m} (h : m ≤ 1 <<< high) :
      Within high (.finite s m hm)

/-- No nearer to zero than this power of two, in units. -/
inductive Beyond (low : Nat) : Value F → Prop
  | infinite {s : Bool} : Beyond low (.infinite s)
  | finite {s : Bool} {m : Nat} {hm : F.Holds m} (h : 1 <<< low ≤ m) : Beyond low (.finite s m hm)

/-- A multiple of this power of two, in units, if finite. -/
inductive OnGrid (low : Nat) : Value F → Prop
  | nan : OnGrid low .nan
  | infinite {s : Bool} : OnGrid low (.infinite s)
  | finite {s : Bool} {m : Nat} {hm : F.Holds m} (h : 1 <<< low ∣ m) : OnGrid low (.finite s m hm)

theorem add_finite : (finite s m hm + finite t n hn : Value F) =
    if signed s m + signed t n = 0 then zero (s && t)
    else nearest (decide (signed s m + signed t n < 0)) (signed s m + signed t n).natAbs 1 :=
  rfl

theorem mul_finite : (finite s m hm * finite t n hn : Value F) =
    nearest (s ^^ t) (m * n) (1 <<< F.scale) :=
  rfl

theorem div_finite (h : n ≠ 0) : (finite s m hm / finite t n hn : Value F) =
    nearest (s ^^ t) (m <<< F.scale) n :=
  if_neg h

theorem within_zero (s : Bool) (p : Nat) : (zero s : Value F).Within p := .finite (Nat.zero_le _)

theorem within_of_isFinite {x : Binary64} (hx : x.isFinite = true) : x.Within 2098 := by
  cases x with
  | nan | infinite => cases hx
  | finite s m hm => exact .finite hm.1.le

theorem within_of_roundTo_le (h : roundTo F.fractionBits num den ≤ 1 <<< p)
    (hp : 1 <<< p < F.limit) (s : Bool) : (nearest s num den : Value F).Within p := by
  rw [nearest, dif_pos (h.trans_lt hp)]
  exact .finite h

theorem within_nearest (h : num ≤ 1 <<< p * den) (hden : 0 < den) (hp : 1 <<< p < F.limit)
    (s : Bool) : (nearest s num den : Value F).Within p :=
  within_of_roundTo_le (roundTo_le_of_dvd (one_shiftLeft_spacing_dvd _ _) hden h) hp s

theorem beyond_nearest (h : 1 <<< p * den ≤ num) (hden : 0 < den) (s : Bool) :
    (nearest s num den : Value F).Beyond p := by
  rw [nearest]
  split
  · exact .finite (le_roundTo_of_dvd (one_shiftLeft_spacing_dvd _ _) hden h)
  · exact .infinite

theorem onGrid_zero (s : Bool) (p : Nat) : (zero s : Value F).OnGrid p := .finite (Nat.dvd_zero _)

theorem onGrid_units (x : Value F) : x.OnGrid 0 := by
  cases x with
  | nan => exact .nan
  | infinite => exact .infinite
  | finite s m hm => exact .finite (Nat.one_dvd m)

theorem onGrid_nearest (h : 1 <<< p ∣ m) (hden : 0 < den) (s : Bool) :
    (nearest s (m * den) den : Value F).OnGrid p := by
  rw [nearest]
  split
  · exact .finite (dvd_roundTo h hden)
  · exact .infinite

namespace Within

theorem isFinite (hx : x.Within p) : x.isFinite = true := by
  cases hx
  rfl

theorem isNaN (hx : x.Within p) : x.isNaN = false := by
  cases hx
  rfl

theorem neg (hx : x.Within p) : x.neg.Within p := by
  cases hx with
  | finite hx => exact .finite hx

theorem abs (hx : x.Within p) : x.abs.Within p := by
  cases hx with
  | finite hx => exact .finite hx

theorem add (hx : x.Within p) (hy : y.Within p) (hp : 1 <<< (p + 1) < F.limit) :
    (x + y).Within (p + 1) := by
  cases hx with
  | @finite s m hm hx =>
      cases hy with
      | @finite t n hn hy =>
          have hsum := natAbs_signed_add_le s t m n
          have hdouble : 1 <<< (p + 1) = 1 <<< p * 2 :=
            (one_shiftLeft_mul_one_shiftLeft p 1).symm
          rw [add_finite]
          split
          · exact within_zero _ _
          · exact within_nearest (by omega) Nat.one_pos hp _

theorem sub (hx : x.Within p) (hy : y.Within p) (hp : 1 <<< (p + 1) < F.limit) :
    (x - y).Within (p + 1) :=
  hx.add hy.neg hp

/-- A sum that is large against what is added to it does not grow any more. -/
theorem add_small (hx : x.Within (F.fractionBits + 2 + p)) (hy : y.Within p)
    (hp : 1 <<< (F.fractionBits + 2 + p) < F.limit) : (x + y).Within (F.fractionBits + 2 + p) := by
  cases hx with
  | @finite s m hm hx =>
      cases hy with
      | @finite t n hn hy =>
          rw [add_finite]
          split
          · exact within_zero _ _
          · refine within_of_roundTo_le (roundTo_le_of_le_add ?_) hp _
            exact (natAbs_signed_add_le s t m n).trans (Nat.add_le_add hx hy)

theorem foldl_add {xs : List (Value F)} (hx : x.Within (F.fractionBits + 2 + p))
    (hxs : ∀ y ∈ xs, y.Within p) (hp : 1 <<< (F.fractionBits + 2 + p) < F.limit) :
    (xs.foldl (· + ·) x).Within (F.fractionBits + 2 + p) := by
  induction xs generalizing x with
  | nil => exact hx
  | cons y ys ih =>
      obtain ⟨hy, hys⟩ := List.forall_mem_cons.1 hxs
      exact ih (hx.add_small hy hp) hys

theorem mul (hx : x.Within p) (hy : y.Within q) (hr : p + q ≤ r + F.scale)
    (hlimit : 1 <<< r < F.limit) : (x * y).Within r := by
  cases hx with
  | @finite s m hm hx =>
      cases hy with
      | @finite t n hn hy =>
          refine within_nearest ?_ (one_shiftLeft_pos _) hlimit _
          calc
            m * n ≤ 1 <<< p * 1 <<< q := Nat.mul_le_mul hx hy
            _ ≤ 1 <<< r * 1 <<< F.scale := by
              rw [one_shiftLeft_mul_one_shiftLeft, one_shiftLeft_mul_one_shiftLeft]
              exact shiftLeft_le_shiftLeft_right 1 hr

theorem sqrt (hx : x.Within p) (hclear : x.SignClear) (hr : p + F.scale ≤ r + r)
    (hlimit : 1 <<< r < F.limit) : x.sqrt.Within r := by
  cases hx with
  | @finite s m hm hx =>
      cases hclear with
      | finite =>
          rw [sqrt_finite]
          refine within_nearest ?_ Nat.two_pos hlimit _
          rw [Nat.mul_comm, ← twiceRoot_mul_self, one_shiftLeft_mul_one_shiftLeft]
          refine twiceRoot_mono (le_trans (shiftLeft_le_shiftLeft hx F.scale) ?_)
          rw [← Nat.shiftLeft_add]
          exact shiftLeft_le_shiftLeft_right 1 hr

theorem div (hx : x.Within p) (hy : y.Beyond q) (hr : p + F.scale ≤ r + q)
    (hlimit : 1 <<< r < F.limit) : (x / y).Within r := by
  cases hx with
  | @finite s m hm hx =>
      cases hy with
      | infinite => exact within_zero _ _
      | @finite t n hn hy =>
          have hpos : 0 < n := (one_shiftLeft_pos q).trans_le hy
          rw [div_finite hpos.ne']
          refine within_nearest ?_ hpos hlimit _
          calc
            m <<< F.scale ≤ (1 <<< p) <<< F.scale := shiftLeft_le_shiftLeft hx _
            _ ≤ 1 <<< r * 1 <<< q := by
              rw [← Nat.shiftLeft_add, one_shiftLeft_mul_one_shiftLeft]
              exact shiftLeft_le_shiftLeft_right 1 hr
            _ ≤ 1 <<< r * n := Nat.mul_le_mul_left _ hy

theorem clamp (hx : x.Within p) (hy : y.Within p) : (x.clamp (-y) y).Within p := by
  rw [Value.clamp]
  split
  · exact hy.neg
  · split
    · exact hy
    · exact hx

end Within

namespace Beyond

theorem zeroOrFrom (hx : x.Beyond p) : x.ZeroOrFrom (1 <<< p) := by
  cases hx with
  | infinite => trivial
  | finite hx => exact .inr hx

theorem isZero (hx : x.Beyond p) : x.isZero = false := by
  cases hx with
  | infinite => rfl
  | finite hx => exact beq_eq_false_iff_ne.2 (Nat.ne_of_gt ((one_shiftLeft_pos p).trans_le hx))

theorem mul (hx : x.Beyond p) (hy : y.Beyond q) (hr : r + F.scale ≤ p + q) :
    (x * y).Beyond r := by
  have hpos (k : Nat) {m : Nat} (h : 1 <<< k ≤ m) : m ≠ 0 :=
    Nat.ne_of_gt ((one_shiftLeft_pos k).trans_le h)
  change (Value.mul x y).Beyond r
  cases hx with
  | infinite =>
      cases hy with
      | infinite => exact .infinite
      | finite hy =>
          rw [Value.mul, if_neg (hpos q hy)]
          exact .infinite
  | @finite s m hm hx =>
      cases hy with
      | infinite =>
          rw [Value.mul, if_neg (hpos p hx)]
          exact .infinite
      | @finite t n hn hy =>
          refine beyond_nearest ?_ (one_shiftLeft_pos _) _
          calc
            1 <<< r * 1 <<< F.scale ≤ 1 <<< p * 1 <<< q := by
              rw [one_shiftLeft_mul_one_shiftLeft, one_shiftLeft_mul_one_shiftLeft]
              exact shiftLeft_le_shiftLeft_right 1 hr
            _ ≤ m * n := Nat.mul_le_mul hx hy

theorem sqrt (hx : x.Beyond p) (hclear : x.SignClear) (hr : r + r ≤ p + F.scale) :
    x.sqrt.Beyond r := by
  cases hx with
  | infinite =>
      cases hclear with
      | infinite => exact .infinite
  | @finite s m hm hx =>
      cases hclear with
      | finite =>
          rw [sqrt_finite]
          refine beyond_nearest ?_ Nat.two_pos _
          rw [Nat.mul_comm, ← twiceRoot_mul_self, one_shiftLeft_mul_one_shiftLeft]
          refine twiceRoot_mono (le_trans ?_ (shiftLeft_le_shiftLeft hx F.scale))
          rw [← Nat.shiftLeft_add]
          exact shiftLeft_le_shiftLeft_right 1 hr

end Beyond

namespace OnGrid

theorem beyond (hx : x.OnGrid p) (hnan : x.isNaN = false) (hzero : x.isZero = false) :
    x.Beyond p := by
  cases hx with
  | nan => cases hnan
  | infinite => exact .infinite
  | finite hx =>
      exact .finite (Nat.le_of_dvd (Nat.pos_of_ne_zero (beq_eq_false_iff_ne.1 hzero)) hx)

theorem add (hx : x.OnGrid p) (hy : y.OnGrid p) : (x + y).OnGrid p := by
  cases hx with
  | nan => exact .nan
  | @infinite s =>
      cases hy with
      | nan => exact .nan
      | @infinite t => cases s <;> cases t <;> constructor
      | finite => exact .infinite
  | @finite s m hm hx =>
      cases hy with
      | nan => exact .nan
      | infinite => exact .infinite
      | @finite t n hn hy =>
          have hsum := Int.ofNat_dvd_left.1 (Int.dvd_add (dvd_signed hx s) (dvd_signed hy t))
          have hnearest := onGrid_nearest (F := F) hsum Nat.one_pos
          rw [Nat.mul_one] at hnearest
          rw [add_finite]
          split
          · exact onGrid_zero _ _
          · exact hnearest _

theorem foldl_add {xs : List (Value F)} (hx : x.OnGrid p) (hxs : ∀ y ∈ xs, y.OnGrid p) :
    (xs.foldl (· + ·) x).OnGrid p := by
  induction xs generalizing x with
  | nil => exact hx
  | cons y ys ih =>
      obtain ⟨hy, hys⟩ := List.forall_mem_cons.1 hxs
      exact ih (hx.add hy) hys

theorem mul (hx : x.OnGrid p) (hy : y.OnGrid q) (hr : p + q = r + F.scale) : (x * y).OnGrid r := by
  have hinfinite (s : Bool) (m : Nat) :
      (if m = 0 then .nan else .infinite s : Value F).OnGrid r := by
    split
    · exact .nan
    · exact .infinite
  cases hx with
  | nan => exact .nan
  | infinite =>
      cases hy with
      | nan => exact .nan
      | infinite => exact .infinite
      | finite => exact hinfinite _ _
  | @finite s m hm hx =>
      cases hy with
      | nan => exact .nan
      | infinite => exact hinfinite _ _
      | @finite t n hn hy =>
          obtain ⟨a, rfl⟩ := hx
          obtain ⟨b, rfl⟩ := hy
          have hproduct : 1 <<< p * a * (1 <<< q * b) = 1 <<< r * (a * b) * 1 <<< F.scale := by
            rw [Nat.mul_mul_mul_comm, one_shiftLeft_mul_one_shiftLeft, hr,
              ← one_shiftLeft_mul_one_shiftLeft, Nat.mul_right_comm]
          rw [mul_finite, hproduct]
          exact onGrid_nearest (Nat.dvd_mul_right _ _) (one_shiftLeft_pos _) _

end OnGrid

end Value

end Vicinity.Number
