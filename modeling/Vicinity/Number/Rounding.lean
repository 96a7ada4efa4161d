namespace Vicinity.Number

/-- The integer nearest to `num / den`; of two equally near, the even one. -/
def roundDiv (num den : Nat) : Nat :=
  let q := num / den
  let r := num % den
  if 2 * r < den ∨ 2 * r = den ∧ q % 2 = 0 then q else q + 1

/-- The spacing of the numbers with `digits + 1` binary digits around `m` is two to this power. -/
def spacing (digits m : Nat) : Nat := m.log2 - digits

/-- The number with at most `digits + 1` binary digits that is nearest to `num / den`. -/
def roundTo (digits num den : Nat) : Nat :=
  let s := spacing digits (num / den)
  roundDiv num (den <<< s) <<< s

theorem div_le_roundDiv (num den : Nat) : num / den ≤ roundDiv num den := by
  unfold roundDiv
  dsimp only
  split <;> omega

theorem roundDiv_le_succ (num den : Nat) : roundDiv num den ≤ num / den + 1 := by
  unfold roundDiv
  dsimp only
  split <;> omega

theorem shiftRight_spacing_lt (digits q : Nat) : q >>> spacing digits q < 1 <<< (digits + 1) := by
  have hq : q < 2 ^ (q.log2 + 1) := Nat.lt_log2_self
  have hs : 2 ^ (q.log2 + 1) ≤ 2 ^ (digits + 1) * 2 ^ spacing digits q := by
    rw [← Nat.pow_add]
    exact Nat.pow_le_pow_right (by decide) (by unfold spacing; omega)
  rw [Nat.shiftRight_eq_div_pow, Nat.one_shiftLeft]
  exact (Nat.div_lt_iff_lt_mul (Nat.two_pow_pos _)).2 (Nat.lt_of_lt_of_le hq hs)

theorem spacing_le_of_lt {digits m s : Nat} (h : m < 1 <<< (digits + 1 + s)) :
    spacing digits m ≤ s := by
  by_cases hm : m = 0
  · simp [hm, spacing]
  · rw [Nat.one_shiftLeft] at h
    have := (Nat.log2_lt hm).2 h
    unfold spacing
    omega

theorem shiftLeft_spacing_dvd_roundTo (digits num den : Nat) :
    1 <<< spacing digits (roundTo digits num den) ∣ roundTo digits num den := by
  unfold roundTo
  dsimp only
  generalize hs : spacing digits (num / den) = s
  have hq : num / (den <<< s) < 1 <<< (digits + 1) := by
    rw [Nat.shiftLeft_eq, ← Nat.div_div_eq_div_mul, ← Nat.shiftRight_eq_div_pow, ← hs]
    exact shiftRight_spacing_lt digits _
  have hr := roundDiv_le_succ num (den <<< s)
  generalize roundDiv num (den <<< s) = r at hr
  rw [Nat.one_shiftLeft] at hq
  rw [Nat.one_shiftLeft, Nat.shiftLeft_eq]
  by_cases hlt : r < 2 ^ (digits + 1)
  · have hm : r * 2 ^ s < 1 <<< (digits + 1 + s) := by
      rw [Nat.one_shiftLeft, Nat.pow_add]
      exact Nat.mul_lt_mul_of_pos_right hlt (Nat.two_pow_pos s)
    exact Nat.dvd_trans (Nat.pow_dvd_pow 2 (spacing_le_of_lt hm)) (Nat.dvd_mul_left _ _)
  · have he : r = 2 ^ (digits + 1) := by omega
    rw [he, ← Nat.pow_add]
    refine Nat.pow_dvd_pow 2 ?_
    simp only [spacing, Nat.log2_two_pow]
    omega

end Vicinity.Number
