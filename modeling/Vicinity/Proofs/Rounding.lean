import Vicinity.Number.Rounding

namespace Vicinity.Number

variable {digits a b c k num den m n : Nat}

theorem one_shiftLeft_pos (n : Nat) : 0 < 1 <<< n := by
  rw [Nat.one_shiftLeft]
  exact Nat.two_pow_pos n

theorem shiftLeft_le_shiftLeft (h : a ≤ b) (n : Nat) : a <<< n ≤ b <<< n := by
  rw [Nat.shiftLeft_eq, Nat.shiftLeft_eq]
  exact Nat.mul_le_mul_right _ h

theorem shiftLeft_lt_shiftLeft (h : a < b) (n : Nat) : a <<< n < b <<< n := by
  rw [Nat.shiftLeft_eq, Nat.shiftLeft_eq]
  exact Nat.mul_lt_mul_of_pos_right h (Nat.two_pow_pos n)

theorem shiftLeft_le_shiftLeft_right (m : Nat) (h : a ≤ b) : m <<< a ≤ m <<< b := by
  rw [Nat.shiftLeft_eq, Nat.shiftLeft_eq]
  exact Nat.mul_le_mul_left m (Nat.pow_le_pow_right (by decide) h)

theorem shiftLeft_eq_mul (m n : Nat) : m <<< n = m * 1 <<< n := by
  rw [Nat.one_shiftLeft, Nat.shiftLeft_eq]

theorem one_shiftLeft_mul_one_shiftLeft (a b : Nat) : 1 <<< a * 1 <<< b = 1 <<< (a + b) := by
  rw [← shiftLeft_eq_mul, ← Nat.shiftLeft_add]

theorem one_shiftLeft_lt (h : a < b) : 1 <<< a < 1 <<< b := by
  rw [Nat.one_shiftLeft, Nat.one_shiftLeft]
  exact Nat.pow_lt_pow_right (by decide) h

theorem one_shiftLeft_dvd (h : a ≤ b) : 1 <<< a ∣ 1 <<< b := by
  rw [Nat.one_shiftLeft, Nat.one_shiftLeft]
  exact Nat.pow_dvd_pow 2 h

theorem shiftLeft_lt (h : m < 1 <<< k) (n : Nat) : m <<< n < 1 <<< (k + n) := by
  rw [Nat.shiftLeft_add]
  exact shiftLeft_lt_shiftLeft h n

theorem mul_shiftLeft (a b n : Nat) : a * b <<< n = a <<< n * b := by
  rw [Nat.shiftLeft_eq, Nat.shiftLeft_eq, Nat.mul_right_comm, Nat.mul_assoc]

theorem spacing_one_shiftLeft (digits n : Nat) : spacing digits (1 <<< n) = n - digits := by
  rw [spacing, Nat.one_shiftLeft, Nat.log2_two_pow]

theorem one_shiftLeft_spacing_dvd (digits n : Nat) : 1 <<< spacing digits (1 <<< n) ∣ 1 <<< n := by
  rw [spacing_one_shiftLeft]
  exact one_shiftLeft_dvd (Nat.sub_le n digits)

theorem spacing_dvd_shiftLeft (hn : n < 1 <<< (digits + 1)) (k : Nat) :
    1 <<< spacing digits (n <<< k) ∣ n <<< k := by
  refine Nat.dvd_trans (one_shiftLeft_dvd (spacing_le_of_lt (shiftLeft_lt hn k))) ?_
  rw [shiftLeft_eq_mul n]
  exact Nat.dvd_mul_left _ _

theorem lt_shiftLeft_spacing (digits m : Nat) : m < 1 <<< (digits + 1 + spacing digits m) := by
  have hpow : 2 ^ (m.log2 + 1) ≤ 2 ^ (digits + 1 + spacing digits m) :=
    Nat.pow_le_pow_right (by decide) (by unfold spacing; omega)
  rw [Nat.one_shiftLeft]
  exact Nat.lt_of_lt_of_le Nat.lt_log2_self hpow

theorem shiftLeft_spacing_le (h : 0 < spacing digits m) :
    1 <<< (digits + spacing digits m) ≤ m := by
  have hlog : m.log2 = digits + spacing digits m := by
    unfold spacing at h ⊢
    omega
  have hm : m ≠ 0 := by
    rintro rfl
    simp [spacing] at h
  rw [Nat.one_shiftLeft, ← hlog]
  exact Nat.log2_self_le hm

theorem spacing_mono (digits : Nat) (h : a ≤ b) : spacing digits a ≤ spacing digits b :=
  spacing_le_of_lt (Nat.lt_of_le_of_lt h (lt_shiftLeft_spacing digits b))

theorem roundDiv_mono (h : a ≤ b) (den : Nat) : roundDiv a den ≤ roundDiv b den := by
  rcases Nat.lt_or_eq_of_le (Nat.div_le_div_right (c := den) h) with hlt | heq
  · calc
      roundDiv a den ≤ a / den + 1 := roundDiv_le_succ a den
      _ ≤ b / den := hlt
      _ ≤ roundDiv b den := div_le_roundDiv b den
  · have hmod : a % den ≤ b % den := by
      have ha := Nat.div_add_mod a den
      have hb := Nat.div_add_mod b den
      rw [heq] at ha
      omega
    simp only [roundDiv, heq]
    split <;> split <;> omega

/-- A rounded number can reach the end of its binade, but does not go past it. -/
theorem roundTo_le (digits num den : Nat) :
    roundTo digits num den ≤ 1 <<< (digits + 1 + spacing digits (num / den)) := by
  have hq := shiftRight_spacing_lt digits (num / den)
  rw [roundTo]
  generalize spacing digits (num / den) = s at hq ⊢
  rw [Nat.shiftRight_eq_div_pow, Nat.div_div_eq_div_mul, ← Nat.shiftLeft_eq] at hq
  have hr : roundDiv num (den <<< s) ≤ 1 <<< (digits + 1) :=
    Nat.le_trans (roundDiv_le_succ _ _) hq
  calc
    roundDiv num (den <<< s) <<< s ≤ (1 <<< (digits + 1)) <<< s := shiftLeft_le_shiftLeft hr s
    _ = 1 <<< (digits + 1 + s) := (Nat.shiftLeft_add 1 (digits + 1) s).symm

theorem le_roundTo (h : 0 < spacing digits (num / den)) :
    1 <<< (digits + spacing digits (num / den)) ≤ roundTo digits num den := by
  have hq := shiftLeft_spacing_le h
  rw [roundTo]
  generalize spacing digits (num / den) = s at hq ⊢
  have hr : 1 <<< digits ≤ roundDiv num (den <<< s) := by
    refine Nat.le_trans ?_ (div_le_roundDiv _ _)
    rw [Nat.shiftLeft_eq den, ← Nat.div_div_eq_div_mul, Nat.le_div_iff_mul_le (Nat.two_pow_pos s),
      ← Nat.shiftLeft_eq, ← Nat.shiftLeft_add]
    exact hq
  calc
    1 <<< (digits + s) = (1 <<< digits) <<< s := Nat.shiftLeft_add 1 digits s
    _ ≤ roundDiv num (den <<< s) <<< s := shiftLeft_le_shiftLeft hr s

theorem roundTo_mono (digits : Nat) (h : a ≤ b) (den : Nat) :
    roundTo digits a den ≤ roundTo digits b den := by
  have hspacing := spacing_mono digits (Nat.div_le_div_right (c := den) h)
  rcases Nat.lt_or_eq_of_le hspacing with hlt | heq
  · -- The power of two where the wider spacing begins lies between the two results.
    calc
      roundTo digits a den ≤ 1 <<< (digits + 1 + spacing digits (a / den)) := roundTo_le _ _ _
      _ ≤ 1 <<< (digits + spacing digits (b / den)) := by
        rw [Nat.one_shiftLeft, Nat.one_shiftLeft]
        exact Nat.pow_le_pow_right (by decide) (by omega)
      _ ≤ roundTo digits b den := le_roundTo (by omega)
  · rw [roundTo, roundTo, heq]
    exact shiftLeft_le_shiftLeft (roundDiv_mono h _) _

theorem two_mul_roundDiv_le (num den : Nat) : 2 * (den * roundDiv num den) ≤ 2 * num + den := by
  have hnum := Nat.div_add_mod num den
  simp only [roundDiv]
  split
  · omega
  · rw [Nat.mul_succ]
    omega

theorem le_two_mul_roundDiv (hden : 0 < den) :
    2 * num ≤ 2 * (den * roundDiv num den) + den := by
  have hnum := Nat.div_add_mod num den
  have hmod := Nat.mod_lt num hden
  simp only [roundDiv]
  split
  · omega
  · rw [Nat.mul_succ]
    omega

theorem two_mul_roundTo_le (digits num den : Nat) :
    2 * (den * roundTo digits num den) ≤ 2 * num + den <<< spacing digits (num / den) := by
  rw [roundTo, mul_shiftLeft]
  exact two_mul_roundDiv_le _ _

theorem le_two_mul_roundTo (digits num : Nat) (hden : 0 < den) :
    2 * num ≤ 2 * (den * roundTo digits num den) + den <<< spacing digits (num / den) := by
  rw [roundTo, mul_shiftLeft]
  refine le_two_mul_roundDiv ?_
  rw [Nat.shiftLeft_eq]
  exact Nat.mul_pos hden (Nat.two_pow_pos _)

/-- Numbers more than one spacing apart do not become one. -/
theorem roundTo_lt_roundTo (hden : 0 < den)
    (h : a + den <<< spacing digits (b / den) < b) :
    roundTo digits a den < roundTo digits b den := by
  have hab : a / den ≤ b / den :=
    Nat.div_le_div_right (Nat.le_of_lt (Nat.lt_of_le_of_lt (Nat.le_add_right a _) h))
  have hspacing : den <<< spacing digits (a / den) ≤ den <<< spacing digits (b / den) :=
    shiftLeft_le_shiftLeft_right den (spacing_mono digits hab)
  have ha := two_mul_roundTo_le digits a den
  have hb := le_two_mul_roundTo digits b hden
  refine Nat.lt_of_mul_lt_mul_left (a := den) ?_
  omega

theorem roundDiv_mul (m : Nat) (hden : 0 < den) : roundDiv (m * den) den = m := by
  simp only [roundDiv]
  rw [Nat.mul_div_cancel m hden, Nat.mul_mod_left, if_pos (.inl (by omega))]

theorem roundTo_mul (hm : 1 <<< spacing digits m ∣ m) (hden : 0 < den) :
    roundTo digits (m * den) den = m := by
  obtain ⟨q, hq⟩ := hm
  rw [roundTo, Nat.mul_div_cancel m hden]
  generalize spacing digits m = s at hq ⊢
  have hpos : 0 < den <<< s := by
    rw [Nat.shiftLeft_eq]
    exact Nat.mul_pos hden (Nat.two_pow_pos _)
  rw [Nat.one_shiftLeft] at hq
  have hnum : m * den = q * den <<< s := by
    rw [hq, Nat.shiftLeft_eq, Nat.mul_comm (2 ^ s), Nat.mul_assoc, Nat.mul_comm (2 ^ s)]
  rw [hnum, roundDiv_mul q hpos, hq, Nat.shiftLeft_eq, Nat.mul_comm]

theorem le_roundTo_of_dvd (hm : 1 <<< spacing digits m ∣ m) (hden : 0 < den) (h : m * den ≤ num) :
    m ≤ roundTo digits num den := by
  have hround := roundTo_mono digits h den
  rwa [roundTo_mul hm hden] at hround

theorem roundTo_le_of_dvd (hm : 1 <<< spacing digits m ∣ m) (hden : 0 < den) (h : num ≤ m * den) :
    roundTo digits num den ≤ m := by
  have hround := roundTo_mono digits h den
  rwa [roundTo_mul hm hden] at hround

/-- Rounding does not leave a grid of powers of two, be it finer or coarser than the spacing. -/
theorem dvd_roundTo (h : 1 <<< k ∣ m) (hden : 0 < den) :
    1 <<< k ∣ roundTo digits (m * den) den := by
  rcases Nat.le_total (spacing digits m) k with hle | hle
  · rw [roundTo_mul (Nat.dvd_trans (one_shiftLeft_dvd hle) h) hden]
    exact h
  · rw [roundTo, Nat.mul_div_cancel m hden, shiftLeft_eq_mul (roundDiv _ _)]
    exact Nat.dvd_trans (one_shiftLeft_dvd hle) (Nat.dvd_mul_left _ _)

theorem roundDiv_mul_right (hc : 0 < c) : roundDiv (num * c) (den * c) = roundDiv num den := by
  have hlt : 2 * (num % den * c) < den * c ↔ 2 * (num % den) < den := by
    rw [← Nat.mul_assoc]
    exact Nat.mul_lt_mul_right hc
  have heq : 2 * (num % den * c) = den * c ↔ 2 * (num % den) = den := by
    rw [← Nat.mul_assoc]
    exact Nat.mul_right_cancel_iff hc
  simp only [roundDiv, Nat.mul_div_mul_right _ _ hc, Nat.mul_mod_mul_right, hlt, heq]

theorem roundTo_mul_right (hc : 0 < c) :
    roundTo digits (num * c) (den * c) = roundTo digits num den := by
  have hden (s : Nat) : (den * c) <<< s = den <<< s * c := by
    rw [Nat.shiftLeft_eq, Nat.shiftLeft_eq, Nat.mul_right_comm]
  rw [roundTo, roundTo, Nat.mul_div_mul_right _ _ hc, hden, roundDiv_mul_right hc]

theorem spacing_of_shiftLeft_le (hm : 1 <<< digits ≤ m) (hlow : m <<< k ≤ n)
    (hhigh : n < (m + 1) <<< k) : spacing digits n = spacing digits m + k := by
  have hpos : m ≠ 0 := Nat.ne_of_gt (Nat.lt_of_lt_of_le (one_shiftLeft_pos digits) hm)
  have hlog : digits ≤ m.log2 := by
    rw [Nat.le_log2 hpos, ← Nat.one_shiftLeft]
    exact hm
  have hlog' : n.log2 = m.log2 + k := by
    have hpow : 0 < 2 ^ k := Nat.two_pow_pos k
    rw [Nat.shiftLeft_eq] at hlow hhigh
    have hn : n ≠ 0 := Nat.ne_of_gt (Nat.lt_of_lt_of_le (Nat.mul_pos (by omega) hpow) hlow)
    rw [Nat.log2_eq_iff hn, Nat.add_right_comm, Nat.pow_add, Nat.pow_add]
    constructor
    · exact Nat.le_trans (Nat.mul_le_mul_right _ (Nat.log2_self_le hpos)) hlow
    · exact Nat.lt_of_lt_of_le hhigh (Nat.mul_le_mul_right _ Nat.lt_log2_self)
  unfold spacing
  omega

theorem roundTo_shiftLeft (h : 1 <<< digits ≤ num / den) (k : Nat) :
    roundTo digits (num <<< k) den = roundTo digits num den <<< k := by
  have hpow : 0 < 2 ^ k := Nat.two_pow_pos k
  have hden : 0 < den := by
    refine Nat.pos_of_ne_zero fun hzero => ?_
    rw [hzero, Nat.div_zero] at h
    exact Nat.not_le_of_gt (one_shiftLeft_pos digits) h
  have hspacing : spacing digits (num <<< k / den) = spacing digits (num / den) + k := by
    refine spacing_of_shiftLeft_le h ?_ ?_
    · rw [Nat.shiftLeft_eq, Nat.shiftLeft_eq]
      rw [Nat.mul_comm, Nat.mul_comm num]
      exact Nat.mul_div_le_mul_div_assoc _ _ _
    · rw [Nat.div_lt_iff_lt_mul hden, Nat.shiftLeft_eq, Nat.shiftLeft_eq, Nat.mul_right_comm]
      rw [Nat.succ_mul]
      exact Nat.mul_lt_mul_of_pos_right (Nat.lt_div_mul_add hden) hpow
  rw [roundTo, roundTo, hspacing, Nat.shiftLeft_add den, Nat.shiftLeft_eq num,
    Nat.shiftLeft_eq (den <<< _), roundDiv_mul_right hpow, Nat.shiftLeft_add]

theorem add_le_of_dvd (hm : k ∣ m) (hn : k ∣ n) (h : m < n) : m + k ≤ n := by
  have hgap := Nat.le_of_dvd (Nat.sub_pos_of_lt h) (Nat.dvd_sub hn hm)
  omega

theorem add_spacing_le (hn : 1 <<< spacing digits n ∣ n) :
    n + 1 <<< spacing digits n ≤ 1 <<< (digits + 1 + spacing digits n) :=
  add_le_of_dvd hn (one_shiftLeft_dvd (Nat.le_add_left _ _)) (lt_shiftLeft_spacing digits n)

theorem shiftLeft_spacing_dvd_add (hn : 1 <<< spacing digits n ∣ n) :
    1 <<< spacing digits (n + 1 <<< spacing digits n) ∣ n + 1 <<< spacing digits n := by
  rcases Nat.lt_or_eq_of_le (add_spacing_le hn) with hlt | heq
  · exact Nat.dvd_trans (one_shiftLeft_dvd (spacing_le_of_lt hlt))
      (Nat.dvd_add hn (Nat.dvd_refl _))
  · rw [heq]
    exact one_shiftLeft_spacing_dvd _ _

theorem add_spacing_le_roundTo (hn : 1 <<< spacing digits n ∣ n)
    (h : n < roundTo digits num den) : n + 1 <<< spacing digits n ≤ roundTo digits num den := by
  have hcoarse := one_shiftLeft_dvd (spacing_mono digits (Nat.le_of_lt h))
  exact add_le_of_dvd hn (Nat.dvd_trans hcoarse (shiftLeft_spacing_dvd_roundTo digits num den)) h

theorem roundTo_le_of_lt_midpoint (hn : 1 <<< spacing digits n ∣ n)
    (h : 2 * num < den * (2 * n + 1 <<< spacing digits n)) : roundTo digits num den ≤ n := by
  refine Nat.le_of_not_lt fun hlt => ?_
  have hnext := add_spacing_le_roundTo hn hlt
  have hround := two_mul_roundTo_le digits num den
  have hspacing : spacing digits (num / den) ≤ spacing digits n := by
    refine spacing_le_of_lt (Nat.lt_of_lt_of_le (Nat.div_lt_of_lt_mul ?_) (add_spacing_le hn))
    have hpos := Nat.zero_le (den * 1 <<< spacing digits n)
    rw [Nat.mul_add, Nat.mul_left_comm] at h
    rw [Nat.mul_add]
    omega
  have hshift := shiftLeft_le_shiftLeft_right den hspacing
  have hmul := Nat.mul_le_mul_left den hnext
  rw [shiftLeft_eq_mul den (spacing digits n)] at hshift
  rw [Nat.mul_add, Nat.mul_left_comm] at h
  rw [Nat.mul_add] at hmul
  omega

theorem roundTo_le_add_spacing (hn : 1 <<< spacing digits n ∣ n)
    (h : 2 * num < den * (2 * n + 3 * 1 <<< spacing digits n)) :
    roundTo digits num den ≤ n + 1 <<< spacing digits n := by
  have hspacing := shiftLeft_le_shiftLeft_right 1
    (spacing_mono digits (Nat.le_add_right n (1 <<< spacing digits n)))
  refine roundTo_le_of_lt_midpoint (shiftLeft_spacing_dvd_add hn) ?_
  exact Nat.lt_of_lt_of_le h (Nat.mul_le_mul_left den (by omega))

/-- Past a power of two, what is less than half of the spacing there is lost. -/
theorem roundTo_le_of_le_add (h : n ≤ 1 <<< (digits + 2 + k) + 1 <<< k) :
    roundTo digits n 1 ≤ 1 <<< (digits + 2 + k) := by
  have hpos := one_shiftLeft_pos k
  have hspacing : digits + 2 + k - digits = k + 2 := by omega
  refine roundTo_le_of_lt_midpoint (one_shiftLeft_spacing_dvd _ _) ?_
  rw [spacing_one_shiftLeft, hspacing, Nat.shiftLeft_succ, Nat.shiftLeft_succ]
  omega

theorem exists_roundTo_eq_shiftLeft (hden : 0 < den) (ha : 1 <<< digits ≤ a)
    (hb : b < 1 <<< (digits + 1)) (hlow : a <<< k * den ≤ num) (hhigh : num ≤ b <<< k * den) :
    ∃ c, a ≤ c ∧ c ≤ b ∧ roundTo digits num den = c <<< k := by
  have hpos := one_shiftLeft_pos k
  have hab : a ≤ b := by
    have hmul := Nat.le_of_mul_le_mul_right (Nat.le_trans hlow hhigh) hden
    rw [shiftLeft_eq_mul, shiftLeft_eq_mul b] at hmul
    exact Nat.le_of_mul_le_mul_right hmul hpos
  have hge := le_roundTo_of_dvd (spacing_dvd_shiftLeft (Nat.lt_of_le_of_lt hab hb) k) hden hlow
  have hle := roundTo_le_of_dvd (spacing_dvd_shiftLeft hb k) hden hhigh
  have hspacing : k ≤ spacing digits (roundTo digits num den) := by
    have hmono := spacing_mono digits (Nat.le_trans (shiftLeft_le_shiftLeft ha k) hge)
    rw [← Nat.shiftLeft_add, spacing_one_shiftLeft] at hmono
    omega
  obtain ⟨c, hc⟩ := Nat.dvd_trans (one_shiftLeft_dvd hspacing)
    (shiftLeft_spacing_dvd_roundTo digits num den)
  rw [Nat.mul_comm] at hc
  rw [hc, shiftLeft_eq_mul a] at hge
  rw [hc, shiftLeft_eq_mul b] at hle
  refine ⟨c, Nat.le_of_mul_le_mul_right hge hpos, Nat.le_of_mul_le_mul_right hle hpos, ?_⟩
  rw [hc, shiftLeft_eq_mul c]

end Vicinity.Number
