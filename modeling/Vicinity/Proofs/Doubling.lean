import Mathlib.Data.List.Forall2
import Vicinity.Proofs.Magnitude
import Vicinity.Proofs.Range

namespace Vicinity.Number

variable {digits c den g h k m n x : Nat} {s t : Bool}

theorem signed_mul_signed (s t : Bool) (m n : Nat) :
    signed s m * signed t n = signed (s ^^ t) (m * n) := by
  cases t with
  | false =>
      rw [Bool.xor_false, Value.signed_mul]
      rfl
  | true =>
      rw [Bool.xor_true, Value.signed_not, Value.signed_mul]
      exact Int.mul_neg _ _

theorem signed_natAbs (a : Int) : signed (decide (a < 0)) a.natAbs = a := by
  have h := signed_shiftLeft a 0
  rwa [Nat.shiftLeft_zero, Nat.shiftLeft_zero, Int.natCast_one, Int.mul_one] at h

theorem signed_shiftLeft_eq (s : Bool) (m k : Nat) :
    signed s (m <<< k) = signed s m * (1 <<< k : Nat) := by
  rw [shiftLeft_eq_mul, Value.signed_mul]

theorem signed_eq_zero_iff : signed s m = 0 ↔ m = 0 := by
  rw [← Int.natAbs_eq_zero, natAbs_signed]

theorem signed_inj (h : signed s m = signed t m) : m = 0 ∨ s = t := by
  cases s <;> cases t <;> simp only [signed] at h <;> grind

theorem eq_shiftLeft_of_signed_eq (h : signed t n = signed s m * (1 <<< k : Nat)) :
    n = m <<< k ∧ (m = 0 ∨ t = s) := by
  have hunit : ((1 <<< k : Nat) : Int) ≠ 0 := Int.natCast_ne_zero.2 (one_shiftLeft_pos k).ne'
  have hn : n = m <<< k := by
    rw [← natAbs_signed t n, h, Int.natAbs_mul, natAbs_signed, Int.natAbs_natCast,
      ← shiftLeft_eq_mul]
  rw [hn, signed_shiftLeft_eq] at h
  exact ⟨hn, signed_inj (Int.eq_of_mul_eq_mul_right hunit h)⟩

theorem roundTo_zero (digits : Nat) (hden : 0 < den) : roundTo digits 0 den = 0 := by
  have h : roundTo digits (0 * den) den = 0 := roundTo_mul (Nat.dvd_zero _) hden
  rwa [Nat.zero_mul] at h

/-- Between two neighbours of a grid that has all the midpoints, it does not matter where. -/
theorem roundDiv_of_between (hlow : c * g < x) (hhigh : x < (c + 1) * g) :
    roundDiv x (g * (2 * h)) = c / (2 * h) + if c % (2 * h) < h then 0 else 1 := by
  have hdiv : x / g = c := Nat.div_eq_of_lt_le hlow.le hhigh
  have hpos : 0 < g := Nat.pos_of_ne_zero fun hzero => by simp [hzero] at hhigh
  have hmod := Nat.mod_lt x hpos
  have hrest : 0 < x % g := by
    have hx := Nat.div_add_mod x g
    rw [hdiv, Nat.mul_comm] at hx
    omega
  have hmul : g * (2 * h) = 2 * (g * h) := Nat.mul_left_comm _ _ _
  simp only [roundDiv]
  rw [← Nat.div_div_eq_div_mul, Nat.mod_mul, hdiv]
  generalize c % (2 * h) = r
  by_cases hr : r < h
  · have hnext := Nat.mul_le_mul_left g hr
    rw [Nat.mul_succ] at hnext
    rw [if_pos hr, if_pos (.inl (by omega))]
    rfl
  · have hback := Nat.mul_le_mul_left g (Nat.le_of_not_lt hr)
    rw [if_neg hr, if_neg (by omega)]

theorem roundTo_of_between (hc : 1 <<< (digits + 1) ≤ c) (hlow : 2 * c <<< k < x)
    (hhigh : x < 2 * (c + 1) <<< k) :
    roundTo digits x 2 = roundTo digits (2 * c + 1) 2 <<< k := by
  have hdigits : 1 <<< digits ≤ c := (one_shiftLeft_lt (Nat.lt_succ_self _)).le.trans hc
  have hspacing : spacing digits (x / 2) = spacing digits c + k :=
    spacing_of_shiftLeft_le hdigits (by omega) (by omega)
  obtain ⟨e, he⟩ : ∃ e, spacing digits c = e + 1 := by
    have hlog := (Nat.le_log2 (Nat.ne_of_gt ((one_shiftLeft_pos _).trans_le hc))).2
      (Nat.one_shiftLeft _ ▸ hc)
    exact Nat.exists_eq_succ_of_ne_zero (by unfold spacing; omega)
  have hden (j : Nat) : 2 <<< (e + 1 + j) = 2 <<< j * (2 * 1 <<< e) := by
    rw [Nat.add_comm, Nat.shiftLeft_add, shiftLeft_eq_mul (2 <<< j), Nat.add_comm e,
      ← one_shiftLeft_mul_one_shiftLeft]
    rfl
  have hgrid (b : Nat) : b * 2 <<< k = 2 * b <<< k := by
    rw [Nat.shiftLeft_eq, Nat.shiftLeft_eq, Nat.mul_left_comm]
  have hx : roundDiv x (2 <<< (e + 1 + k)) =
      c / (2 * 1 <<< e) + if c % (2 * 1 <<< e) < 1 <<< e then 0 else 1 := by
    rw [hden]
    exact roundDiv_of_between (hgrid c ▸ hlow) (hgrid (c + 1) ▸ hhigh)
  have hodd : roundDiv (2 * c + 1) (2 <<< (e + 1)) =
      c / (2 * 1 <<< e) + if c % (2 * 1 <<< e) < 1 <<< e then 0 else 1 := by
    rw [← Nat.add_zero (e + 1), hden]
    exact roundDiv_of_between (g := 2) (by omega) (by omega)
  have hhalf : (2 * c + 1) / 2 = c := by omega
  rw [roundTo, roundTo, hhalf, hspacing, he, hx, hodd, Nat.shiftLeft_add]

theorem lt_twiceRoot (h : c * c < n) : 2 * c < twiceRoot n := by
  have hle : c ≤ n.sqrt := Nat.le_sqrt.2 h.le
  rw [twiceRoot]
  split
  · next hsquare =>
      have hlt : c < n.sqrt := Nat.mul_self_lt_mul_self_iff.1 (h.trans_eq hsquare.symm)
      omega
  · omega

theorem twiceRoot_lt (h : n < c * c) : twiceRoot n < 2 * c := by
  have hlt : n.sqrt < c := Nat.sqrt_lt.2 h
  have hle := twiceRoot_le n
  omega

theorem roundTo_twiceRoot_shiftLeft (h : 1 <<< (digits + 1) ≤ n.sqrt) (k : Nat) :
    roundTo digits (twiceRoot (n <<< (k + k))) 2 = roundTo digits (twiceRoot n) 2 <<< k := by
  have hsquare (c : Nat) : c <<< k * c <<< k = (c * c) <<< (k + k) := by
    rw [Nat.shiftLeft_eq, Nat.shiftLeft_eq, Nat.pow_add, Nat.mul_mul_mul_comm]
  generalize hroot : n.sqrt = c at h
  by_cases heq : c * c = n
  · have hdouble : 2 * c <<< k = (2 * c) <<< k := by
      rw [Nat.shiftLeft_eq, Nat.shiftLeft_eq, Nat.mul_assoc]
    have hdigits : 1 <<< digits ≤ 2 * c / 2 := by
      rw [Nat.mul_div_cancel_left c Nat.two_pos]
      exact (one_shiftLeft_lt (Nat.lt_succ_self _)).le.trans h
    rw [← heq, ← hsquare, twiceRoot_mul_self, twiceRoot_mul_self, hdouble]
    exact roundTo_shiftLeft hdigits k
  · have hlow : c * c < n := lt_of_le_of_ne (hroot ▸ Nat.sqrt_le n) heq
    have hhigh : n < (c + 1) * (c + 1) := hroot ▸ Nat.lt_succ_sqrt n
    have hodd : twiceRoot n = 2 * c + 1 := by rw [twiceRoot, hroot, if_neg heq]
    rw [hodd]
    refine roundTo_of_between h (lt_twiceRoot ?_) (twiceRoot_lt ?_)
    · rw [hsquare]
      exact shiftLeft_lt_shiftLeft hlow _
    · rw [hsquare]
      exact shiftLeft_lt_shiftLeft hhigh _

namespace Value

variable {F : Format} {x x' y y' : Value F} {p q num num' den' : Nat} {hm : F.Holds m}
  {hn : F.Holds n}

/-- Finite, and the second is the first times this power of two. Zeros can have any signs. -/
inductive Doubled (k : Nat) : Value F → Value F → Prop
  | finite {s t : Bool} {m n : Nat} {hm : F.Holds m} {hn : F.Holds n}
      (h : signed t n = signed s m * (1 <<< k : Nat)) :
      Doubled k (.finite s m hm) (.finite t n hn)

theorem doubled_zero (k : Nat) (s t : Bool) : Doubled k (zero s : Value F) (zero t) :=
  .finite (by rw [signed_eq_zero_iff.2 rfl, signed_eq_zero_iff.2 rfl, Int.zero_mul])

theorem doubled_self (hx : x.isFinite = true) : Doubled 0 x x := by
  cases x with
  | nan | infinite => cases hx
  | finite s m hm => exact .finite (Int.mul_one _).symm

theorem doubled_nearest (hfinite : (nearest t num' den' : Value F).isFinite = true)
    (hround : roundTo F.fractionBits num' den' = roundTo F.fractionBits num den <<< k)
    (hsign : roundTo F.fractionBits num den = 0 ∨ s = t) :
    Doubled k (nearest s num den : Value F) (nearest t num' den') := by
  have hle : roundTo F.fractionBits num den ≤ roundTo F.fractionBits num den <<< k := by
    rw [Nat.shiftLeft_eq]
    exact Nat.le_mul_of_pos_right _ (Nat.two_pow_pos k)
  rw [nearest] at hfinite
  split at hfinite
  · next hlt =>
      rw [nearest, nearest, dif_pos hlt, dif_pos (hle.trans_lt (hround ▸ hlt))]
      refine .finite ?_
      rw [hround]
      rcases hsign with hzero | rfl
      · rw [hzero, Nat.zero_shiftLeft, signed_eq_zero_iff.2 rfl, signed_eq_zero_iff.2 rfl,
          Int.zero_mul]
      · exact signed_shiftLeft_eq s _ k
  · cases hfinite

/-- Rounding keeps a doubling, unless the number is so small that it has lost digits. -/
theorem doubled_nearest_of_signed (hfinite : (nearest t num' den : Value F).isFinite = true)
    (h : signed t num' = signed s num * (1 <<< k : Nat)) (hden : 0 < den)
    (hdigits : num = 0 ∨ 1 <<< F.fractionBits ≤ num / den) :
    Doubled k (nearest s num den : Value F) (nearest t num' den) := by
  obtain ⟨rfl, rfl | rfl⟩ := eq_shiftLeft_of_signed_eq h
  · refine doubled_nearest hfinite ?_ (.inl (roundTo_zero _ hden))
    rw [Nat.zero_shiftLeft, roundTo_zero _ hden, Nat.zero_shiftLeft]
  · refine doubled_nearest hfinite ?_ (.inr rfl)
    rcases hdigits with rfl | hdigits
    · rw [Nat.zero_shiftLeft, roundTo_zero _ hden, Nat.zero_shiftLeft]
    · exact roundTo_shiftLeft hdigits k

namespace Doubled

theorem isFinite_left (h : Doubled k x x') : x.isFinite = true := by
  cases h
  rfl

theorem isFinite_right (h : Doubled k x x') : x'.isFinite = true := by
  cases h
  rfl

theorem isZero_eq (h : Doubled k x x') : x'.isZero = x.isZero := by
  cases h with
  | @finite s t m n hm hn h =>
      have hunit : 1 <<< k ≠ 0 := (one_shiftLeft_pos k).ne'
      change (n == 0) = (m == 0)
      rw [(eq_shiftLeft_of_signed_eq h).1, shiftLeft_eq_mul, beq_eq_beq, Nat.mul_eq_zero]
      exact or_iff_left hunit

theorem add (hx : Doubled k x x') (hy : Doubled k y y') (hxgrid : x.OnGrid p)
    (hygrid : y.OnGrid p) (hp : F.fractionBits ≤ p) (hfinite : (x' + y').isFinite = true) :
    Doubled k (x + y) (x' + y') := by
  cases hx with
  | @finite s s' m m' hm hm' hx =>
      cases hy with
      | @finite t t' n n' hn hn' hy =>
          cases hxgrid with
          | finite hxgrid =>
              cases hygrid with
              | finite hygrid =>
                  have hgrid := Int.dvd_add (dvd_signed hxgrid s) (dvd_signed hygrid t)
                  have hunit : ((1 <<< k : Nat) : Int) ≠ 0 :=
                    Int.natCast_ne_zero.2 (one_shiftLeft_pos k).ne'
                  rw [add_finite, hx, hy, ← Int.add_mul] at hfinite
                  rw [add_finite, add_finite, hx, hy, ← Int.add_mul]
                  generalize signed s m + signed t n = sum at hgrid hfinite ⊢
                  by_cases hzero : sum = 0
                  · rw [if_pos hzero, if_pos (by rw [hzero, Int.zero_mul])]
                    exact doubled_zero k _ _
                  · rw [if_neg (Int.mul_ne_zero hzero hunit)] at hfinite ⊢
                    rw [if_neg hzero]
                    refine doubled_nearest_of_signed hfinite ?_ Nat.one_pos (.inr ?_)
                    · rw [signed_natAbs, signed_natAbs]
                    · rw [Nat.div_one]
                      exact (shiftLeft_le_shiftLeft_right 1 hp).trans
                        (Nat.le_of_dvd (Int.natAbs_pos.2 hzero) (Int.ofNat_dvd_left.1 hgrid))

theorem mul {j : Nat} (hx : Doubled j x x') (hy : Doubled k y y') (hxfrom : x.ZeroOrFrom (1 <<< p))
    (hyfrom : y.ZeroOrFrom (1 <<< q)) (hpq : F.fractionBits + F.scale ≤ p + q)
    (hfinite : (x' * y').isFinite = true) : Doubled (j + k) (x * y) (x' * y') := by
  cases hx with
  | @finite s s' m m' hm hm' hx =>
      cases hy with
      | @finite t t' n n' hn hn' hy =>
          refine doubled_nearest_of_signed hfinite ?_ (one_shiftLeft_pos _) ?_
          · rw [← signed_mul_signed, ← signed_mul_signed, hx, hy,
              ← one_shiftLeft_mul_one_shiftLeft, Int.natCast_mul, Int.mul_assoc, Int.mul_assoc,
              Int.mul_left_comm (signed t n)]
          · rcases hxfrom with rfl | hm
            · exact .inl (Nat.zero_mul n)
            · rcases hyfrom with rfl | hn
              · exact .inl (Nat.mul_zero m)
              · refine .inr ((Nat.le_div_iff_mul_le (one_shiftLeft_pos _)).2 ?_)
                calc
                  1 <<< F.fractionBits * 1 <<< F.scale ≤ 1 <<< p * 1 <<< q := by
                    rw [one_shiftLeft_mul_one_shiftLeft, one_shiftLeft_mul_one_shiftLeft]
                    exact shiftLeft_le_shiftLeft_right 1 hpq
                  _ ≤ m * n := Nat.mul_le_mul hm hn

theorem sqrt (hx : Doubled (k + k) x x') (hclear : x.SignClear) (hclear' : x'.SignClear)
    (hscale : F.fractionBits + 1 + (F.fractionBits + 1) ≤ F.scale)
    (hfinite : x'.sqrt.isFinite = true) : Doubled k x.sqrt x'.sqrt := by
  cases hx with
  | @finite s s' m m' hm hm' hx =>
      cases hclear with
      | finite =>
          cases hclear' with
          | finite =>
              obtain ⟨rfl, -⟩ := eq_shiftLeft_of_signed_eq hx
              rw [sqrt_finite] at hfinite
              rw [sqrt_finite, sqrt_finite]
              refine doubled_nearest hfinite ?_ (.inr rfl)
              rcases Nat.eq_zero_or_pos m with rfl | hpos
              · have hroot : twiceRoot 0 = 0 := twiceRoot_mul_self 0
                rw [Nat.zero_shiftLeft, Nat.zero_shiftLeft, hroot, roundTo_zero _ Nat.two_pos,
                  Nat.zero_shiftLeft]
              · have hroot : 1 <<< (F.fractionBits + 1) ≤ (m <<< F.scale).sqrt := by
                  rw [Nat.le_sqrt, one_shiftLeft_mul_one_shiftLeft]
                  exact (shiftLeft_le_shiftLeft_right 1 hscale).trans
                    (shiftLeft_le_shiftLeft hpos _)
                rw [← Nat.shiftLeft_add, Nat.add_comm, Nat.shiftLeft_add]
                exact roundTo_twiceRoot_shiftLeft hroot k

theorem div (hx : Doubled k x x') (hy : Doubled k y y') (hzero : y.isZero = false)
    (hfinite : (x' / y').isFinite = true) : Doubled 0 (x / y) (x' / y') := by
  have hzero' : y'.isZero = false := hy.isZero_eq.trans hzero
  cases hx with
  | @finite s s' m m' hm hm' hx =>
      cases hy with
      | @finite t t' n n' hn hn' hy =>
          have hn : n ≠ 0 := beq_eq_false_iff_ne.1 hzero
          have hn' : n' ≠ 0 := beq_eq_false_iff_ne.1 hzero'
          obtain ⟨rfl, hs⟩ := eq_shiftLeft_of_signed_eq hx
          obtain ⟨rfl, ht⟩ := eq_shiftLeft_of_signed_eq hy
          obtain rfl := ht.resolve_left hn
          rw [div_finite hn'] at hfinite
          rw [div_finite hn, div_finite hn']
          refine doubled_nearest hfinite ?_ (hs.imp (fun hm => ?_) fun hs => ?_)
          · rw [← Nat.shiftLeft_add, Nat.add_comm, Nat.shiftLeft_add, Nat.shiftLeft_zero,
              Nat.shiftLeft_eq _ k, Nat.shiftLeft_eq n, roundTo_mul_right (Nat.two_pow_pos k)]
          · rw [hm, Nat.zero_shiftLeft, roundTo_zero _ (Nat.pos_of_ne_zero hn)]
          · rw [hs]

theorem foldl_add {xs xs' : List (Value F)} (hxs : List.Forall₂ (Doubled k) xs xs')
    (hgrid : ∀ y ∈ xs, y.OnGrid p) (hwithin : ∀ y ∈ xs', y.Within q) (hp : F.fractionBits ≤ p)
    (hq : 1 <<< (F.fractionBits + 2 + q) < F.limit) (hx : Doubled k x x') (hxgrid : x.OnGrid p)
    (hxwithin : x'.Within (F.fractionBits + 2 + q)) :
    Doubled k (xs.foldl (· + ·) x) (xs'.foldl (· + ·) x') := by
  induction hxs generalizing x x' with
  | nil => exact hx
  | @cons y y' ys ys' hy hys ih =>
      obtain ⟨hygrid, hgrid⟩ := List.forall_mem_cons.1 hgrid
      obtain ⟨hywithin, hwithin⟩ := List.forall_mem_cons.1 hwithin
      have hnext := hxwithin.add_small hywithin hq
      exact ih hgrid hwithin (hx.add hy hxgrid hygrid hp hnext.isFinite) (hxgrid.add hygrid) hnext

end Doubled

theorem sub_eq_of_doubled (hx : Doubled 0 x x') :
    finite false m hm - x = finite false m hm - x' := by
  cases hx with
  | @finite s t n n' hn hn' h =>
      have hlevel : signed t n' = signed s n := h.trans (Int.mul_one _)
      change finite false m hm + finite (!s) n hn = finite false m hm + finite (!t) n' hn'
      rw [add_finite, add_finite, signed_not, signed_not, hlevel, Bool.false_and, Bool.false_and]

theorem one_sub_clamp_eq {x x' : Binary64} (hx : Doubled 0 x x') :
    one - x.clamp (-one) one = one - x'.clamp (-one) one := by
  have hlevel : x'.level? = x.level? := by
    cases hx with
    | finite h => exact congrArg some (h.trans (Int.mul_one _))
  have hcompare (y : Binary64) : x'.compare? y = x.compare? y := by
    rw [compare?, compare?, hlevel]
  rw [clamp, clamp, hcompare, hcompare]
  split_ifs
  · rfl
  · rfl
  · rw [one_eq]
    exact sub_eq_of_doubled hx

end Value

end Vicinity.Number
