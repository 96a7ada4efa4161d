import Mathlib.Data.List.Nodup
import Mathlib.Data.Prod.Lex
import Mathlib.Order.WithBot
import Vicinity.Ranking.Candidate

namespace Vicinity

open Number

def Place : Type := WithTop Int

namespace Place

instance : LinearOrder Place := @WithTop.linearOrder Int Int.instLinearOrder

def number (n : Int) : Place := WithTop.some n

def last : Place := (⊤ : WithTop Int)

theorem number_lt_number {a b : Int} : number a < number b ↔ a < b := WithTop.coe_lt_coe

theorem number_le_number {a b : Int} : number a ≤ number b ↔ a ≤ b := WithTop.coe_le_coe

theorem le_last (p : Place) : p ≤ last := le_top (α := WithTop Int)

theorem number_lt_last (a : Int) : number a < last := WithTop.coe_lt_top a

theorem compare_number (a b : Int) : compare (number a) (number b) = compare a b := by
  rcases lt_trichotomy a b with h | rfl | h
  · rw [compare_lt_iff_lt.2 h, compare_lt_iff_lt.2 (number_lt_number.2 h)]
  · rw [compare_eq_iff_eq.2 rfl, compare_eq_iff_eq.2 rfl]
  · rw [compare_gt_iff_gt.2 h, compare_gt_iff_gt.2 (number_lt_number.2 h)]

end Place

namespace Number.Value

variable {F : Format}

/-- Where a value stands on the line, counted in units, with NaN behind everything. -/
def place (x : Value F) : Place := x.level?.elim .last .number

theorem isNaN_eq (x : Value F) : x.isNaN = x.level?.isNone := by
  cases x <;> rfl

end Number.Value

namespace Candidate

theorem compareDistance_eq (x y : Binary64) : compareDistance x y = compare x.place y.place := by
  rw [compareDistance, x.isNaN_eq, y.isNaN_eq, Value.compare?, Value.place, Value.place]
  cases x.level? with
  | none =>
      cases y.level? with
      | none => exact (compare_eq_iff_eq.2 rfl).symm
      | some b => exact (compare_gt_iff_gt.2 (Place.number_lt_last b)).symm
  | some a =>
      cases y.level? with
      | none => exact (compare_lt_iff_lt.2 (Place.number_lt_last a)).symm
      | some b => exact (Place.compare_number a b).symm

def standing (c : Candidate) : Place ×ₗ Nat := toLex (c.distance.place, c.slot)

theorem rankCompare_eq (c d : Candidate) : c.rankCompare d = compare c.standing d.standing := by
  rw [rankCompare, compareDistance_eq, Prod.Lex.compare_def]
  rfl

theorem ranksBy_iff {c d : Candidate} : c.ranksBy d = true ↔ c.standing ≤ d.standing := by
  rw [ranksBy, rankCompare_eq, bne_iff_ne, compare_le_iff_le]

theorem precedes_iff {c d : Candidate} : c.precedes d = true ↔ c.standing < d.standing := by
  rw [precedes, rankCompare_eq, beq_iff_eq, compare_lt_iff_lt]

theorem eq_of_standing_eq {cs : List Candidate} (hcs : (cs.map slot).Nodup) {c d : Candidate}
    (hc : c ∈ cs) (hd : d ∈ cs) (h : c.standing = d.standing) : c = d := by
  have hslot : c.slot = d.slot := congrArg (fun p => (ofLex p).2) h
  exact List.inj_on_of_nodup_map hcs hc hd hslot

end Candidate

end Vicinity
