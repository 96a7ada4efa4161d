import Vicinity.Number.Bits
import Vicinity.Proofs.Direction
import Vicinity.Proofs.NotANumber

namespace Vicinity

open Number

namespace Number.Value

variable {F : Format} {x y : Value F} {s t : Bool} {m n : Nat} {hm : F.Holds m} {hn : F.Holds n}

/-- The two are one number, whatever the sign of a zero. -/
inductive Equals : Value F → Value F → Prop
  | finite {x y : Value F} {q : ℚ} (hx : x.rational? = some q) (hy : y.rational? = some q) :
      Equals x y
  | infinite (s : Bool) : Equals (.infinite s) (.infinite s)

inductive Below : Value F → Value F → Prop
  | finite {x y : Value F} {p q : ℚ} (hx : x.rational? = some p) (hy : y.rational? = some q)
      (h : p < q) : Below x y
  | top {x : Value F} (hx : x.isFinite = true) : Below x (.infinite false)
  | bottom {y : Value F} (hy : y.isFinite = true) : Below (.infinite true) y
  | ends : Below (.infinite true) (.infinite false)

theorem rational?_eq_iff :
    (finite s m hm).rational? = (finite t n hn).rational? ↔ signed s m = signed t n := by
  rw [rational?, rational?, Option.some_inj, div_left_inj' (one_shiftLeft_ne_zero _), Int.cast_inj]

theorem signed_lt_of_rational? {p q : ℚ} (hx : (finite s m hm).rational? = some p)
    (hy : (finite t n hn).rational? = some q) (h : p < q) : signed s m < signed t n := by
  have hunit : (0 : ℚ) < (1 <<< F.scale : Nat) := by exact_mod_cast one_shiftLeft_pos F.scale
  rw [← Option.some.inj hx, ← Option.some.inj hy, div_lt_div_iff_of_pos_right hunit] at h
  exact_mod_cast h

theorem signed_lt_signed_limit (hm : F.Holds m) (s : Bool) : signed s m < signed false F.limit := by
  have hlt : (m : Int) < F.limit := Int.ofNat_lt.2 hm.1
  change signed s m < F.limit
  cases s with
  | false => exact hlt
  | true =>
      change -(m : Int) < F.limit
      omega

theorem signed_limit_lt_signed (hm : F.Holds m) (s : Bool) : signed true F.limit < signed s m := by
  have hlt := signed_lt_signed_limit hm (!s)
  rw [signed_not] at hlt
  change -signed false F.limit < signed s m
  omega

theorem Equals.level?_eq (h : x.Equals y) : x.level? = y.level? := by
  cases h with
  | infinite => rfl
  | finite hx hy =>
      cases x with
      | nan | infinite => cases hx
      | finite s m hm =>
          cases y with
          | nan | infinite => cases hy
          | finite t n hn => exact congrArg some (rational?_eq_iff.1 (hx.trans hy.symm))

theorem level?_eq_iff :
    x.level? = y.level? ↔ x.Equals y ∨ x.isNaN = true ∧ y.isNaN = true := by
  constructor
  · intro h
    cases x with
    | nan =>
        refine .inr ⟨rfl, ?_⟩
        rw [isNaN_eq, ← h]
        rfl
    | infinite s =>
        cases y with
        | nan => cases h
        | infinite t => exact .inl (level?_infinite_inj.1 h ▸ .infinite s)
        | finite t n hn => exact absurd h.symm (level?_finite_ne_infinite t s hn)
    | finite s m hm =>
        cases y with
        | nan => cases h
        | infinite t => exact absurd h (level?_finite_ne_infinite s t hm)
        | finite t n hn =>
            have heq : (finite t n hn).rational? = (finite s m hm).rational? :=
              rational?_eq_iff.2 (Option.some.inj h.symm)
            exact .inl (.finite rfl heq)
  · rintro (h | ⟨hx, hy⟩)
    · exact h.level?_eq
    · rw [isNaN_iff.1 hx, isNaN_iff.1 hy]

theorem Below.place_lt (h : x.Below y) : x.place < y.place := by
  cases h with
  | finite hx hy h =>
      cases x with
      | nan | infinite => cases hx
      | finite s m hm =>
          cases y with
          | nan | infinite => cases hy
          | finite t n hn => exact Place.number_lt_number.2 (signed_lt_of_rational? hx hy h)
  | top hx =>
      cases x with
      | nan | infinite => cases hx
      | finite s m hm => exact Place.number_lt_number.2 (signed_lt_signed_limit hm s)
  | bottom hy =>
      cases y with
      | nan | infinite => cases hy
      | finite s m hm => exact Place.number_lt_number.2 (signed_limit_lt_signed hm s)
  | ends =>
      have hpos : (0 : Int) < F.limit := Int.natCast_pos.2 F.limit_pos
      exact Place.number_lt_number.2 ((Int.neg_neg_of_pos hpos).trans hpos)

theorem place_eq_iff : x.place = y.place ↔ x.Equals y ∨ x.isNaN = true ∧ y.isNaN = true := by
  rw [← level?_eq_iff]
  exact ⟨level?_eq_of_place_eq, fun h => by rw [place, place, h]⟩

theorem place_lt_last (hx : x.isNaN = false) : x.place < .last := by
  cases x with
  | nan => cases hx
  | infinite | finite => exact Place.number_lt_last _

theorem exists_compare? (hx : x.isNaN = false) (hy : y.isNaN = false) :
    ∃ o, x.compare? y = some o := by
  cases x with
  | nan => cases hx
  | infinite | finite =>
      cases y with
      | nan => cases hy
      | infinite | finite => exact ⟨_, rfl⟩

theorem isNaN_ofBits {bits : Nat}
    (hexponent : (bits >>> F.fractionBits) % (1 <<< F.exponentBits) = (1 <<< F.exponentBits) - 1)
    (hfraction : bits % (1 <<< F.fractionBits) ≠ 0) : (ofBits F bits).isNaN = true := by
  simp only [ofBits]
  rw [if_pos hexponent, if_neg hfraction]
  rfl

end Number.Value

namespace Candidate

open Number.Value

instance : Std.TransCmp rankCompare where
  eq_swap := by
    intro c d
    rw [rankCompare_eq, rankCompare_eq]
    exact Std.OrientedCmp.eq_swap
  isLE_trans := by
    intro c d e
    rw [rankCompare_eq, rankCompare_eq, rankCompare_eq]
    exact Std.TransCmp.isLE_trans

theorem rankCompare_trans {a b c : Candidate} {o : Ordering} (hab : a.rankCompare b = o)
    (hbc : b.rankCompare c = o) : a.rankCompare c = o := by
  cases o with
  | lt => exact Std.TransCmp.lt_trans hab hbc
  | eq => exact Std.TransCmp.eq_trans hab hbc
  | gt => exact Std.TransCmp.gt_trans hab hbc

theorem rankCompare_eq_lt_of_place_lt {a b : Candidate} (h : a.distance.place < b.distance.place) :
    a.rankCompare b = .lt := by
  rw [rankCompare, compareDistance_eq, compare_lt_iff_lt.2 h]
  rfl

theorem rankCompare_eq_eq_iff {a b : Candidate} : a.rankCompare b = .eq ↔
    a.slot = b.slot ∧
      (a.distance.Equals b.distance ∨ a.distance.isNaN = true ∧ b.distance.isNaN = true) := by
  rw [rankCompare, compareDistance_eq, Ordering.then_eq_eq, compare_eq_iff_eq, compare_eq_iff_eq,
    place_eq_iff, and_comm]

/-- Ranking orders all candidates: by their distances as numbers, then by slot, and with every NaN
behind every number. -/
theorem rankCompare_total_order :
    (∀ a b : Candidate, a.rankCompare b = (b.rankCompare a).swap) ∧
      (∀ (a b c : Candidate) (o : Ordering),
        a.rankCompare b = o → b.rankCompare c = o → a.rankCompare c = o) ∧
      (∀ a b c : Candidate, a.rankCompare b = .eq → a.rankCompare c = b.rankCompare c) ∧
      (∀ a b : Candidate, a.rankCompare b = .eq ↔ a.slot = b.slot ∧
        (a.distance.Equals b.distance ∨ a.distance.isNaN = true ∧ b.distance.isNaN = true)) ∧
      (∀ a b : Candidate, a.distance.Below b.distance → a.rankCompare b = .lt) ∧
      (∀ a b : Candidate, a.distance.isNaN = true → b.distance.isNaN = false →
        a.rankCompare b = .gt) ∧
      (∀ bits : Nat, (bits >>> 52) % 2048 = 2047 → bits % (1 <<< 52) ≠ 0 →
        (ofBits binary64 bits).isNaN = true) ∧
      ∀ x y : Binary64, x.isNaN = false → y.isNaN = false → ∃ o, x.compare? y = some o := by
  refine ⟨fun _ _ => Std.OrientedCmp.eq_swap, fun _ _ _ _ => rankCompare_trans,
    fun _ _ _ => Std.TransCmp.congr_left, fun _ _ => rankCompare_eq_eq_iff,
    fun _ _ h => rankCompare_eq_lt_of_place_lt h.place_lt, fun a b ha hb => ?_,
    fun _ => isNaN_ofBits (F := binary64), fun _ _ => exists_compare?⟩
  have hplace : b.distance.place < a.distance.place := by
    rw [isNaN_iff.1 ha]
    exact place_lt_last hb
  rw [Std.OrientedCmp.gt_iff_lt]
  exact rankCompare_eq_lt_of_place_lt hplace

theorem rankCompare_total_order_of_zeros :
    rankCompare ⟨3, zero true⟩ ⟨3, zero false⟩ = .eq ∧
      rankCompare ⟨3, zero false⟩ ⟨7, .infinite false⟩ = .lt ∧
      (ofBits binary64 0xfff0000000000001).isNaN = true ∧
      rankCompare ⟨0, ofBits binary64 0xfff0000000000001⟩ ⟨7, .infinite false⟩ = .gt ∧
      rankCompare ⟨3, zero true⟩ ⟨0, ofBits binary64 0xfff0000000000001⟩ = .lt ∧
      ∃ o, (zero true : Binary64).compare? (zero false) = some o := by
  obtain ⟨hswap, htrans, hcongr, heq, hbelow, hnan, hbits, hcompare⟩ := rankCompare_total_order
  have hzeros : rankCompare ⟨3, zero true⟩ ⟨3, zero false⟩ = .eq :=
    (heq _ _).2 ⟨rfl, .inl (.finite (q := 0) (by decide +kernel) (by decide +kernel))⟩
  have hinfinity : rankCompare ⟨3, zero false⟩ ⟨7, .infinite false⟩ = .lt := hbelow _ _ (.top rfl)
  have hpayload := hbits 0xfff0000000000001 (by decide) (by decide)
  have hlast : rankCompare ⟨0, ofBits binary64 0xfff0000000000001⟩ ⟨7, .infinite false⟩ = .gt :=
    hnan _ _ hpayload rfl
  have hfirst : rankCompare ⟨7, .infinite false⟩ ⟨0, ofBits binary64 0xfff0000000000001⟩ = .lt := by
    rw [hswap, hlast]
    rfl
  refine ⟨hzeros, hinfinity, hpayload, hlast, ?_, hcompare _ _ rfl rfl⟩
  rw [hcongr _ _ _ hzeros]
  exact htrans _ _ _ _ hinfinity hfirst

end Candidate

end Vicinity
