import Vicinity.Number.Bits
import Vicinity.Proofs.Exactness
import Vicinity.Proofs.SquareRoot

namespace Vicinity

namespace Number.Value

variable {F : Format} {x y low high : Value F}

theorem magnitudeBits_lt {m : Nat} (hm : binary64.Holds m) :
    magnitudeBits binary64 m < 1 <<< 63 := by
  have hspacing : spacing binary64.fractionBits m ≤ 2045 :=
    spacing_le_of_lt (Nat.lt_of_lt_of_le hm.1 (shiftLeft_le_shiftLeft_right 1 (by decide)))
  have hhigh := shiftLeft_le_shiftLeft hspacing 52
  have hlow := shiftRight_spacing_lt binary64.fractionBits m
  change spacing binary64.fractionBits m <<< 52 + m >>> spacing binary64.fractionBits m < _
  generalize spacing binary64.fractionBits m <<< 52 = a at hhigh ⊢
  generalize m >>> spacing binary64.fractionBits m = b at hlow ⊢
  have hlow : b < 1 <<< 53 := hlow
  omega

/-- The encoding shows the sign in its top bit. -/
theorem signClear_iff_toBits_lt {x : Binary64} : x.SignClear ↔ x.toBits < 1 <<< 63 := by
  have hsign : signBit binary64 true = 1 <<< 63 := rfl
  constructor
  · intro h
    cases h with
    | nan | infinite => decide
    | @finite m hm =>
        rw [toBits, signBit, if_neg Bool.false_ne_true, Nat.zero_add]
        exact magnitudeBits_lt hm
  · intro h
    cases x with
    | nan => exact .nan
    | infinite s =>
        cases s with
        | false => exact .infinite
        | true =>
            rw [toBits, hsign] at h
            exact absurd h (Nat.not_lt.2 (Nat.le_add_right _ _))
    | finite s m hm =>
        cases s with
        | false => exact .finite
        | true =>
            rw [toBits, hsign] at h
            exact absurd h (Nat.not_lt.2 (Nat.le_add_right _ _))

theorem isNaN_eq_false_iff : x.isNaN = false ↔ x ≠ .nan := by
  cases x <;> simp [isNaN]

def AtMost (x y : Value F) : Prop := ∃ o, x.compare? y = some o ∧ o ≠ .gt

theorem atMost_of_place_le (h : x.place ≤ y.place) (hy : y.isNaN = false) : x.AtMost y := by
  rw [isNaN_eq] at hy
  obtain ⟨b, hb⟩ := Option.isSome_iff_exists.1 (Option.isNone_eq_false_iff.1 hy)
  rw [place, place, hb] at h
  cases ha : x.level? with
  | none =>
      rw [ha] at h
      exact absurd h (Place.number_lt_last b).not_ge
  | some a =>
      rw [ha] at h
      refine ⟨compare a b, by rw [compare?, ha, hb], ?_⟩
      rw [compare_le_iff_le]
      exact Place.number_le_number.1 h

theorem SignClear.place_zero_le (hx : x.SignClear) (s : Bool) :
    (zero s : Value F).place ≤ x.place := by
  have hzero : (zero s : Value F).place = .number 0 := by cases s <;> rfl
  rw [hzero]
  cases hx with
  | nan => exact Place.le_last _
  | infinite | finite => exact Place.number_le_number.2 (Int.natCast_nonneg _)

theorem compare?_clamp_low (h : low.compare? high ≠ some .gt) :
    low.compare? (x.clamp low high) ≠ some .gt := by
  rw [compare?_ne_gt_iff] at h ⊢
  intro a ha b hb
  rw [clamp] at hb
  split_ifs at hb with hlow hhigh
  · exact (Option.mem_unique ha hb).le
  · exact h a ha b hb
  · refine not_lt.1 fun hlt => hlow ?_
    rw [compare?, Option.mem_def.1 ha, Option.mem_def.1 hb]
    exact congrArg some (compare_lt_iff_lt.2 hlt)

theorem sub_nan (x : Value F) : x - .nan = .nan := by
  cases x <;> rfl

theorem place_add_finite_le {s t : Bool} {m n k : Nat} {hm : F.Holds m} {hn : F.Holds n}
    (hnonneg : 0 ≤ signed s m + signed t n) (hle : signed s m + signed t n ≤ k) :
    (finite s m hm + finite t n hn : Value F).place ≤ (nearest false k 1 : Value F).place := by
  change (add _ _).place ≤ _
  simp only [add, decide_eq_false (Int.not_lt.2 hnonneg)]
  split
  · exact (signClear_nearest k 1).place_zero_le _
  · exact place_nearest_mono (by omega) 1

theorem one_eq : (one : Binary64) =
    finite false (1 <<< binary64.scale) (Format.holds_integer (by decide : 1 < 1 <<< 53)) :=
  ofInt_natCast (by decide)

theorem place_one_sub_le {x : Binary64} (hlow : one.neg.compare? x ≠ some .gt)
    (hhigh : x.compare? one ≠ some .gt) (hx : x.isNaN = false) :
    (one - x).place ≤ (ofInt 2 : Binary64).place := by
  rw [compare?_ne_gt_iff, one_eq] at hlow hhigh
  rw [one_eq]
  cases x with
  | nan => cases hx
  | infinite s =>
      exfalso
      have hlow : signed true (1 <<< binary64.scale) ≤ signed s binary64.limit := hlow _ rfl _ rfl
      have hhigh : signed s binary64.limit ≤ signed false (1 <<< binary64.scale) :=
        hhigh _ rfl _ rfl
      have hlimit : 1 <<< binary64.scale < binary64.limit := one_shiftLeft_lt (by decide)
      generalize 1 <<< binary64.scale = unit at hlow hhigh hlimit
      cases s <;> simp only [signed] at hlow hhigh <;> omega
  | finite s m hm =>
      have hlow : signed true (1 <<< binary64.scale) ≤ signed s m := hlow _ rfl _ rfl
      have hhigh : signed s m ≤ signed false (1 <<< binary64.scale) := hhigh _ rfl _ rfl
      have htwo : 2 <<< binary64.scale = 2 * 1 <<< binary64.scale := shiftLeft_eq_mul 2 _
      refine place_add_finite_le (k := 2 <<< binary64.scale) ?_ ?_
      · rw [signed_not]
        omega
      · rw [signed_not, htwo]
        simp only [signed] at hlow ⊢
        omega

end Number.Value

namespace Metric

open Number Number.Value

variable {α : Type} [Element α] {a b : List α}

theorem place_cosine_le (a b : List α) :
    cosine.distance a b = .nan ∨ (cosine.distance a b).place ≤ (ofInt 2 : Binary64).place := by
  rw [cosine]
  dsimp only
  split
  · have hlt := place_ofInt_lt Nat.one_lt_two (by decide)
    rw [Int.natCast_one, Int.cast_ofNat_Int] at hlt
    exact .inr hlt.le
  · by_cases hnan : similarity a b = .nan
    · rw [hnan]
      exact .inl (sub_nan one)
    · refine .inr (place_one_sub_le ?_ (similarity_compare?_one a b) ?_)
      · exact compare?_clamp_low signClear_one.neg_compare?_self
      · exact isNaN_eq_false_iff.2 hnan

/-- A distance that is a number has no minus sign, and by angle it is at most two. -/
theorem Kind.distance_range (kind : Kind) (hlen : a.length = b.length) (ha : a ≠ []) :
    kind.distance a b = .nan ∨
      (kind.distance a b).toBits < 1 <<< 63 ∧ (zero false).AtMost (kind.distance a b) ∧
        (kind = .cosine → (kind.distance a b).AtMost (.ofInt 2)) := by
  by_cases hnan : kind.distance a b = .nan
  · exact .inl hnan
  have hclear := kind.signClear_distance hlen ha
  refine .inr ⟨signClear_iff_toBits_lt.1 hclear, ?_, fun hcosine => ?_⟩
  · refine atMost_of_place_le (hclear.place_zero_le false) ?_
    exact isNaN_eq_false_iff.2 hnan
  · subst hcosine
    exact atMost_of_place_le ((place_cosine_le a b).resolve_left hnan) (isNaN_ofInt 2)

theorem distance_range_of_opposite :
    ([1, 0] : List Int8).length = ([-1, 0] : List Int8).length ∧ ([1, 0] : List Int8) ≠ [] ∧
      (Kind.cosine.distance [1, 0] ([-1, 0] : List Int8) = .nan ∨
        (Kind.cosine.distance [1, 0] ([-1, 0] : List Int8)).toBits < 1 <<< 63 ∧
          (Kind.cosine.distance [1, 0] ([-1, 0] : List Int8)).AtMost (.ofInt 2)) := by
  have hlen : ([1, 0] : List Int8).length = ([-1, 0] : List Int8).length := rfl
  have hne : ([1, 0] : List Int8) ≠ [] := by decide
  refine ⟨hlen, hne, ?_⟩
  rcases Kind.cosine.distance_range hlen hne with hnan | ⟨hbits, -, htwo⟩
  · exact .inl hnan
  · exact .inr ⟨hbits, htwo rfl⟩

end Metric

end Vicinity
