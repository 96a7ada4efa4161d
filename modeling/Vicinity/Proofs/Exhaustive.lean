import Vicinity.Proofs.Selection

namespace Vicinity.Backend

open Candidate

variable {α : Type}

/-- Every complete row of a buffer under its slot, with its distance to the query. Behind an empty
query there are no rows. -/
def rowCandidates (metric : Metric α) (query cells : List α) : List Candidate :=
  (List.range (cells.length / query.length)).map fun slot =>
    ⟨slot, metric.distance query ((cells.drop (slot * query.length)).take query.length)⟩

theorem candidates_rows (metric : Metric α) (query cells : List α) (h : 0 < query.length) :
    candidates metric query (rows query.length h cells) = rowCandidates metric query cells := by
  rw [rows_eq_map]
  refine List.ext_getElem (by simp [candidates, rowCandidates]) fun slot hi hj => ?_
  simp [candidates, rowCandidates]

theorem rank_congr (b : Backend) {metric : Metric α} {query query' cells : List α}
    (hlen : query'.length = query.length)
    (hdistance : ∀ row : List α, row.length = query.length → row ⊆ cells →
      metric.distance query' row = metric.distance query row) (k : Nat) :
    b.rank metric query' cells k = b.rank metric query cells k := by
  have hnil : query' = [] ↔ query = [] := by
    rw [← List.length_eq_zero_iff, hlen, List.length_eq_zero_iff]
  have hcandidates (h : 0 < query.length) (h' : 0 < query'.length) :
      candidates metric query' (rows query'.length h' cells) =
        candidates metric query (rows query.length h cells) := by
    simp only [hlen]
    refine List.mapIdx_eq_mapIdx_iff.2 fun slot hslot => congrArg (Candidate.mk slot) ?_
    have hrow := List.getElem_mem hslot
    exact hdistance _ (length_of_mem_rows hrow) (subset_of_mem_rows hrow)
  rw [rank, rank]
  by_cases hempty : k = 0 ∨ query = [] ∨ cells = []
  · rw [dif_pos hempty, dif_pos (by rwa [hnil])]
  · have hquery : 0 < query.length := List.length_pos_iff.2 fun hq => hempty (.inr (.inl hq))
    rw [dif_neg hempty, dif_neg (by rwa [hnil])]
    dsimp only
    rw [hcandidates hquery]

theorem nodup_slot_rowCandidates (metric : Metric α) (query cells : List α) :
    ((rowCandidates metric query cells).map slot).Nodup := by
  rw [rowCandidates, List.map_map]
  exact (List.map_id _).symm ▸ List.nodup_range

theorem rankAll_eq (metric : Metric α) (query cells : List α) (k : Nat) :
    rankAll metric query cells k =
      ((rowCandidates metric query cells).mergeSort ranksBy).take k := by
  by_cases hq : query = []
  · subst hq
    simp [rankAll, rowCandidates]
  · rw [rankAll, dif_neg hq, candidates_rows]

theorem Sound.rank_eq {b : Backend} (hb : b.Sound) (metric : Metric α) (query cells : List α)
    (k : Nat) : b.rank metric query cells k =
      ((rowCandidates metric query cells).mergeSort ranksBy).take k := by
  rw [hb.rank_eq_rankAll, rankAll_eq]

theorem Sound.rank_eq_of_sorted {b : Backend} (hb : b.Sound) {metric : Metric α}
    {query cells : List α} {ds : List Candidate}
    (hperm : ds.Perm (rowCandidates metric query cells)) (hsorted : Sorted ds) (k : Nat) :
    b.rank metric query cells k = ds.take k := by
  have hnodup := nodup_slot_rowCandidates metric query cells
  rw [hb.rank_eq, eq_mergeSort_of_sorted hnodup hperm hsorted]

theorem rankAll_append_of_lt (metric : Metric α) {query cells row : List α} (k : Nat)
    (hcells : query.length ∣ cells.length) (hrow : row.length < query.length) :
    rankAll metric query (cells ++ row) k = rankAll metric query cells k := by
  have hq : query ≠ [] := List.length_pos_iff.1 (by omega)
  rw [rankAll, rankAll, dif_neg hq, dif_neg hq, rows_append_of_lt hcells hrow]

/-- Ranking answers the head of the one list that has all complete rows in ranking order, wherever
the two rearrangements put the rest. Cells behind the last complete row have no part in it. -/
theorem Sound.rank_determined {b : Backend} (hb : b.Sound) (metric : Metric α)
    (query cells : List α) (k : Nat) :
    ∃ all : List Candidate,
      (∀ ds : List Candidate, ds.Perm (rowCandidates metric query cells) ∧ Sorted ds ↔ ds = all) ∧
      b.rank metric query cells k = all.take k ∧
      (∀ row, query.length ∣ cells.length → row.length < query.length →
        b.rank metric query (cells ++ row) k = b.rank metric query cells k) ∧
      b.rank metric [] cells k = [] := by
  refine ⟨(rowCandidates metric query cells).mergeSort ranksBy, fun ds => ⟨?_, ?_⟩, ?_, ?_, ?_⟩
  · rintro ⟨hperm, hsorted⟩
    exact eq_mergeSort_of_sorted (nodup_slot_rowCandidates metric query cells) hperm hsorted
  · rintro rfl
    exact ⟨List.mergeSort_perm _ _, sorted_mergeSort _⟩
  · exact hb.rank_eq metric query cells k
  · intro row hcells hrow
    rw [hb.rank_eq_rankAll, hb.rank_eq_rankAll, rankAll_append_of_lt metric k hcells hrow]
  · rw [hb.rank_eq_rankAll, rankAll, dif_pos rfl]

open Number in
theorem rank_determined_of_ties :
    standard.Sound ∧ 2 ∣ 6 ∧ 1 < 2 ∧
      standard.rank (Metric.manhattan : Metric UInt8) [0, 0] [1, 1, 0, 3, 2, 0, 9] 2 =
        [⟨0, .ofInt 2⟩, ⟨2, .ofInt 2⟩] := by
  obtain ⟨all, hall, hrank, htail, -⟩ := standard_sound.rank_determined
    (Metric.manhattan : Metric UInt8) [0, 0] [1, 1, 0, 3, 2, 0] 2
  have hsorted := (hall [⟨0, .ofInt 2⟩, ⟨2, .ofInt 2⟩, ⟨1, .ofInt 3⟩]).1
    ⟨by decide +kernel, by unfold Sorted; decide +kernel⟩
  refine ⟨standard_sound, by decide, by decide, ?_⟩
  exact (htail [9] (by decide) (by decide)).trans (hrank.trans (hsorted ▸ rfl))

end Vicinity.Backend
