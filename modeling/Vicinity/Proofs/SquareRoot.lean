import Mathlib.Data.Nat.Sqrt
import Vicinity.Proofs.Exhaustive
import Vicinity.Proofs.Rounding
import Vicinity.Proofs.Signs

namespace Vicinity

namespace Number

/-- Twice the root of `n`, or the odd number between the doubles of its two neighbours. -/
def twiceRoot (n : Nat) : Nat := 2 * n.sqrt + if n.sqrt * n.sqrt = n then 0 else 1

theorem two_mul_sqrt_le (n : Nat) : 2 * n.sqrt ≤ twiceRoot n := Nat.le_add_right _ _

theorem twiceRoot_le (n : Nat) : twiceRoot n ≤ 2 * n.sqrt + 1 := by
  rw [twiceRoot]
  split <;> omega

theorem twiceRoot_div_two (n : Nat) : twiceRoot n / 2 = n.sqrt := by
  have hlow := two_mul_sqrt_le n
  have hhigh := twiceRoot_le n
  omega

theorem twiceRoot_mono {a b : Nat} (h : a ≤ b) : twiceRoot a ≤ twiceRoot b := by
  rcases Nat.lt_or_eq_of_le (Nat.sqrt_le_sqrt h) with hlt | heq
  · have ha := twiceRoot_le a
    have hb := two_mul_sqrt_le b
    omega
  · -- Of the numbers with one root, the square is the least.
    have hle := Nat.sqrt_le a
    simp only [twiceRoot, heq] at hle ⊢
    split <;> split <;> omega

namespace Value

variable {F : Format} {x y : Value F}

theorem place_nearest_le (num den : Nat) :
    (nearest false num den : Value F).place ≤ .number F.limit := by
  rw [nearest]
  split
  · next h => exact Place.number_le_number.2 (Int.ofNat_le.2 h.le)
  · exact le_rfl

theorem place_nearest_mono {a b : Nat} (h : a ≤ b) (den : Nat) :
    (nearest false a den : Value F).place ≤ (nearest false b den : Value F).place := by
  by_cases hb : roundTo F.fractionBits b den < F.limit
  · have hround := roundTo_mono F.fractionBits h den
    rw [nearest, nearest, dif_pos hb, dif_pos (by omega)]
    exact Place.number_le_number.2 (Int.ofNat_le.2 hround)
  · have hinfinite : (nearest false b den : Value F) = .infinite false := dif_neg hb
    rw [hinfinite]
    exact place_nearest_le a den

theorem sqrt_finite {m : Nat} (hm : F.Holds m) :
    (finite false m hm).sqrt = nearest false (twiceRoot (m <<< F.scale)) 2 := by
  rw [sqrt]
  split
  · next h =>
      subst h
      simp [twiceRoot, nearest, roundTo, roundDiv, F.limit_pos]
  · rfl

theorem SignClear.place_sqrt_le (hx : x.SignClear) (hy : y.SignClear) (h : x.place ≤ y.place) :
    x.sqrt.place ≤ y.sqrt.place := by
  cases hy with
  | nan => exact Place.le_last _
  | infinite =>
      cases hx with
      | nan => exact absurd h (Place.number_lt_last _).not_ge
      | infinite => exact le_rfl
      | @finite m hm =>
          rw [sqrt_finite]
          exact place_nearest_le _ _
  | @finite n hn =>
      cases hx with
      | nan => exact absurd h (Place.number_lt_last _).not_ge
      | infinite => exact absurd (Int.ofNat_le.1 (Place.number_le_number.1 h)) hn.1.not_ge
      | @finite m hm =>
          rw [sqrt_finite, sqrt_finite]
          have hmn : m ≤ n := Int.ofNat_le.1 (Place.number_le_number.1 h)
          exact place_nearest_mono (twiceRoot_mono (shiftLeft_le_shiftLeft hmn _)) 2

end Value

end Number

namespace Candidate

open Number.Value

variable {cs : List Candidate} {c d : Candidate}

theorem standing_le_iff : c.standing ≤ d.standing ↔
    c.distance.place < d.distance.place ∨
      c.distance.place = d.distance.place ∧ c.slot ≤ d.slot :=
  Prod.Lex.toLex_le_toLex

theorem eq_of_map_slot_eq {as bs : List Candidate} (hcs : (cs.map slot).Nodup)
    (has : as ⊆ cs) (hbs : bs ⊆ cs) (h : as.map slot = bs.map slot) : as = bs := by
  have hlength : as.length = bs.length := by simpa using congrArg List.length h
  refine List.ext_getElem hlength fun i hi hj => ?_
  have hslot : as[i].slot = bs[i].slot := by
    have hget := congrArg (fun l => l[i]?) h
    simpa [hi, hj] using hget
  exact List.inj_on_of_nodup_map hcs (has (List.getElem_mem hi)) (hbs (List.getElem_mem hj)) hslot

def rooted (c : Candidate) : Candidate := ⟨c.slot, c.distance.sqrt⟩

/-- The root can only take a candidate ahead of another that has a smaller distance by making the
two distances equal. -/
theorem standing_rooted_le_iff (hc : c.distance.SignClear) (hd : d.distance.SignClear)
    (h : c.standing ≤ d.standing) : c.rooted.standing ≤ d.rooted.standing ↔
      (d.slot < c.slot → c.distance.sqrt ≠ d.distance.sqrt) := by
  have hle : c.distance.place ≤ d.distance.place := by
    rcases standing_le_iff.1 h with hlt | ⟨heq, -⟩
    · exact hlt.le
    · exact heq.le
  have hroot : c.distance.sqrt = d.distance.sqrt ↔
      c.distance.sqrt.place = d.distance.sqrt.place :=
    ⟨congrArg place, fun h => (hc.sqrt.level?_inj hd.sqrt).1 (level?_eq_of_place_eq h)⟩
  rw [standing_le_iff, ne_eq, hroot]
  rcases (hc.place_sqrt_le hd hle).lt_or_eq with hlt | heq
  · exact iff_of_true (.inl hlt) fun _ => hlt.ne
  · constructor
    · rintro (hlt | ⟨-, hslot⟩) hback
      · exact absurd heq hlt.ne
      · exact absurd hslot hback.not_ge
    · intro hslot
      exact .inr ⟨heq, not_lt.1 fun hback => hslot hback heq⟩

end Candidate

namespace Backend

open Candidate

variable {cs : List Candidate} {f : Candidate → Candidate}

theorem pairwise_standing_mergeSort (cs : List Candidate) :
    (cs.mergeSort ranksBy).Pairwise fun c d => c.standing ≤ d.standing := by
  refine (sorted_mergeSort cs).imp fun h => ?_
  rwa [rankCompare_eq, compare_le_iff_le] at h

theorem rel_of_standing_le {R : Candidate → Candidate → Prop} (hcs : (cs.map slot).Nodup)
    (hranked : (cs.mergeSort ranksBy).Pairwise R) (hrefl : ∀ c, R c c) {c d : Candidate}
    (hc : c ∈ cs) (hd : d ∈ cs) (hcd : c.standing ≤ d.standing) : R c d := by
  have hc' : c ∈ cs.mergeSort ranksBy := List.mem_mergeSort.2 hc
  have hd' : d ∈ cs.mergeSort ranksBy := List.mem_mergeSort.2 hd
  obtain ⟨i, hi, rfl⟩ := List.getElem_of_mem hc'
  obtain ⟨j, hj, rfl⟩ := List.getElem_of_mem hd'
  rcases Nat.lt_trichotomy i j with hij | rfl | hji
  · exact List.pairwise_iff_getElem.1 hranked i j hi hj hij
  · exact hrefl _
  · -- The ranking can only have them the other way round when they are one candidate.
    have hdc := List.pairwise_iff_getElem.1 (pairwise_standing_mergeSort cs) j i hj hi hji
    exact eq_of_standing_eq hcs hc hd (le_antisymm hcd hdc) ▸ hrefl _

theorem map_slot_mergeSort_map_iff (hf : ∀ c, (f c).slot = c.slot) (hcs : (cs.map slot).Nodup) :
    (cs.mergeSort ranksBy).map slot = ((cs.map f).mergeSort ranksBy).map slot ↔
      ∀ c ∈ cs, ∀ d ∈ cs, c.standing ≤ d.standing → (f c).standing ≤ (f d).standing := by
  have hslot (ds : List Candidate) : (ds.map f).map slot = ds.map slot := by
    rw [List.map_map]
    exact List.map_congr_left fun c _ => hf c
  have hperm : ((cs.mergeSort ranksBy).map f).Perm (cs.map f) :=
    (List.mergeSort_perm cs ranksBy).map f
  have hnodup : ((cs.map f).map slot).Nodup := (hslot cs).symm ▸ hcs
  constructor
  · intro h c hc d hd hcd
    -- A slot tells its candidate, so from equal slots the lists are equal.
    have heq : (cs.map f).mergeSort ranksBy = (cs.mergeSort ranksBy).map f :=
      eq_of_map_slot_eq hnodup (List.mergeSort_perm _ _).subset hperm.subset
        (h.symm.trans (hslot _).symm)
    have hranked := pairwise_standing_mergeSort (cs.map f)
    rw [heq, List.pairwise_map] at hranked
    exact rel_of_standing_le hcs hranked (fun _ => le_rfl) hc hd hcd
  · intro h
    have hsorted : Sorted ((cs.mergeSort ranksBy).map f) := by
      refine List.pairwise_map.2 ((pairwise_standing_mergeSort cs).imp_of_mem ?_)
      intro c d hc hd hcd
      rw [rankCompare_eq, compare_le_iff_le]
      exact h c (List.mem_mergeSort.1 hc) d (List.mem_mergeSort.1 hd) hcd
    rw [← eq_mergeSort_of_sorted hnodup hperm hsorted, hslot]

theorem map_slot_take_iff {as bs : List Candidate} :
    (∀ k, (as.take k).map slot = (bs.take k).map slot) ↔ as.map slot = bs.map slot := by
  simp only [List.map_take]
  constructor
  · intro h
    have hall := h (as.length + bs.length)
    rwa [List.take_of_length_le (by simp), List.take_of_length_le (by simp)] at hall
  · intro h k
    rw [h]

section Roots

variable {α : Type} [Element α]

theorem rowCandidates_euclidean (query cells : List α) :
    rowCandidates .euclidean query cells =
      (rowCandidates .squaredEuclidean query cells).map rooted := by
  rw [rowCandidates, rowCandidates, List.map_map]
  rfl

theorem signClear_rowCandidates {query cells : List α} {c : Candidate}
    (hc : c ∈ rowCandidates .squaredEuclidean query cells) : c.distance.SignClear := by
  obtain ⟨slot, hslot, rfl⟩ := List.mem_map.1 hc
  have hpos : 0 < query.length := by
    refine Nat.pos_of_ne_zero fun hzero => ?_
    rw [hzero, Nat.div_zero] at hslot
    cases hslot
  have hrow : (cells.drop (slot * query.length)).take query.length ∈
      rows query.length hpos cells := by
    rw [rows_eq_map]
    exact List.mem_map_of_mem hslot
  exact Metric.signClear_squaredEuclidean (length_of_mem_rows hrow).symm
    (List.length_pos_iff.1 hpos)

/-- Ranking by squares and ranking by roots agree on a buffer just when no row is followed by a
nearer one whose rounded root is the same. -/
theorem Sound.squares_rank_as_roots_iff {b : Backend} (hb : b.Sound) (query cells : List α) :
    (∀ k, (b.rank .squaredEuclidean query cells k).map slot =
        (b.rank .euclidean query cells k).map slot) ↔
      ∀ c ∈ rowCandidates .squaredEuclidean query cells,
        ∀ d ∈ rowCandidates .squaredEuclidean query cells, c.slot < d.slot →
          compareDistance d.distance c.distance = .lt → d.distance.sqrt ≠ c.distance.sqrt := by
  have hnodup := nodup_slot_rowCandidates .squaredEuclidean query cells
  simp only [hb.rank_eq, map_slot_take_iff, rowCandidates_euclidean]
  rw [map_slot_mergeSort_map_iff (f := rooted) (fun _ => rfl) hnodup]
  constructor
  · intro h c hc d hd hslot hnear
    rw [compareDistance_eq, compare_lt_iff_lt] at hnear
    have hdc : d.standing ≤ c.standing := standing_le_iff.2 (.inl hnear)
    exact (standing_rooted_le_iff (signClear_rowCandidates hd) (signClear_rowCandidates hc) hdc).1
      (h d hd c hc hdc) hslot
  · intro h c hc d hd hcd
    refine (standing_rooted_le_iff (signClear_rowCandidates hc) (signClear_rowCandidates hd) hcd).2
      fun hslot => h d hd c hc hslot ?_
    rw [compareDistance_eq, compare_lt_iff_lt]
    exact (standing_le_iff.1 hcd).resolve_right fun ⟨_, hle⟩ => absurd hle hslot.not_ge

theorem squares_rank_as_roots_of_bytes :
    standard.Sound ∧ ∀ k,
      (standard.rank .squaredEuclidean [0, 0] [3, 4, 1, 1, 4, (3 : UInt8)] k).map slot =
        (standard.rank .euclidean [0, 0] [3, 4, 1, 1, 4, (3 : UInt8)] k).map slot :=
  ⟨standard_sound, (standard_sound.squares_rank_as_roots_iff _ _).2 (by decide +kernel)⟩

open Number in
/-- The squared distances, two to the power of 60 and 256 more, have one rounded root. -/
theorem squares_rank_unlike_roots :
    (standard.rank .squaredEuclidean [0, 0] [1073741824, 16, 1073741824, (0 : Int32)] 2).map slot ≠
      (standard.rank .euclidean [0, 0] [1073741824, 16, 1073741824, (0 : Int32)] 2).map slot := by
  have hsquares : Sorted [⟨1, .ofInt (2 ^ 60)⟩, ⟨0, .ofInt (2 ^ 60 + 256)⟩] := by
    unfold Sorted; decide +kernel
  have hroots : Sorted [⟨0, .ofInt (2 ^ 30)⟩, ⟨1, .ofInt (2 ^ 30)⟩] := by
    unfold Sorted; decide +kernel
  rw [standard_sound.rank_eq_of_sorted (by decide +kernel) hsquares,
    standard_sound.rank_eq_of_sorted (by decide +kernel) hroots]
  decide

end Roots

end Backend

end Vicinity
