import Vicinity.Proofs.SquareRoot

namespace Vicinity.Backend

open Candidate Number Number.Value

variable {cs : List Candidate} {f : Binary64 → Binary64} {g : Candidate → Candidate}

theorem map_distance_mergeSort_sorted (cs : List Candidate) :
    ((cs.mergeSort ranksBy).map distance).Pairwise fun x y => x.place ≤ y.place := by
  refine List.pairwise_map.2 ((pairwise_standing_mergeSort cs).imp fun h => ?_)
  rcases standing_le_iff.1 h with hlt | ⟨heq, -⟩
  · exact hlt.le
  · exact heq.le

theorem map_distance_mergeSort_map (hg : ∀ c, (g c).distance = f c.distance)
    (hclear : ∀ c ∈ cs, (f c.distance).SignClear)
    (hf : ∀ c ∈ cs, ∀ d ∈ cs, c.distance.place ≤ d.distance.place →
      (f c.distance).place ≤ (f d.distance).place) :
    ((cs.map g).mergeSort ranksBy).map distance =
      ((cs.mergeSort ranksBy).map distance).map f := by
  have hsame : (cs.map g).map distance = (cs.map distance).map f := by
    rw [List.map_map, List.map_map]
    exact List.map_congr_left fun c _ => hg c
  have hchanged : (((cs.map g).mergeSort ranksBy).map distance).Perm ((cs.map distance).map f) :=
    hsame ▸ (List.mergeSort_perm (cs.map g) ranksBy).map distance
  have hranked : (((cs.mergeSort ranksBy).map distance).map f).Perm ((cs.map distance).map f) :=
    ((List.mergeSort_perm cs ranksBy).map distance).map f
  refine eq_of_perm_of_sorted ?_ (hchanged.trans hranked.symm)
    (map_distance_mergeSort_sorted _) ?_
  · intro x hx
    obtain ⟨c, hc, rfl⟩ := List.mem_map.1 (List.map_map ▸ hchanged.mem_iff.1 hx)
    exact hclear c hc
  · rw [List.map_map, List.pairwise_map]
    refine (List.pairwise_map.1 (map_distance_mergeSort_sorted cs)).imp_of_mem ?_
    intro c d hc hd hcd
    exact hf c (List.mem_mergeSort.1 hc) d (List.mem_mergeSort.1 hd) hcd

variable {α : Type} [Element α] {b : Backend}

/-- Ranked by roots, the distances are the roots of those ranked by squares, place by place. -/
theorem Sound.distances_eq_roots (hb : b.Sound) (query cells : List α) (k : Nat) :
    (b.rank .euclidean query cells k).map distance =
      ((b.rank .squaredEuclidean query cells k).map distance).map Value.sqrt := by
  rw [hb.rank_eq, hb.rank_eq, rowCandidates_euclidean, List.map_take, List.map_take,
    List.map_take]
  refine congrArg (List.take k) (map_distance_mergeSort_map (fun _ => rfl) ?_ ?_)
  · intro c hc
    exact (signClear_rowCandidates hc).sqrt
  · intro c hc d hd hcd
    exact (signClear_rowCandidates hc).place_sqrt_le (signClear_rowCandidates hd) hcd

/-- Two squared distances have one rounded root, so the slots trade places. -/
theorem distances_eq_roots_of_trade :
    standard.Sound ∧
      (standard.rank .squaredEuclidean [0, 0] [67108864, 1, 67108864, (0 : UInt32)] 2).map slot =
        [1, 0] ∧
      (standard.rank .euclidean [0, 0] [67108864, 1, 67108864, (0 : UInt32)] 2).map slot =
        [0, 1] ∧
      (standard.rank .euclidean [0, 0] [67108864, 1, 67108864, (0 : UInt32)] 2).map distance =
        ((standard.rank .squaredEuclidean [0, 0]
          [67108864, 1, 67108864, (0 : UInt32)] 2).map distance).map Value.sqrt := by
  have hsquares : Sorted [⟨1, .ofInt (2 ^ 52)⟩, ⟨0, .ofInt (2 ^ 52 + 1)⟩] := by
    unfold Sorted; decide +kernel
  have hroots : Sorted [⟨0, .ofInt (2 ^ 26)⟩, ⟨1, .ofInt (2 ^ 26)⟩] := by
    unfold Sorted; decide +kernel
  refine ⟨standard_sound, ?_, ?_, standard_sound.distances_eq_roots _ _ 2⟩
  · rw [standard_sound.rank_eq_of_sorted (by decide +kernel) hsquares]
    rfl
  · rw [standard_sound.rank_eq_of_sorted (by decide +kernel) hroots]
    rfl

end Vicinity.Backend
