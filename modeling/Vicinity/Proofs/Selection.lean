import Vicinity.Proofs.Rows
import Vicinity.Proofs.Standing

namespace Vicinity.Backend

open Candidate

theorem standing_lt_of_mem_ahead {pivot c : Candidate} {cs : List Candidate}
    (h : c ∈ ahead pivot cs) : c.standing < pivot.standing :=
  precedes_iff.1 (List.mem_filter.1 h).2

theorem standing_le_of_mem_behind {pivot c : Candidate} {cs : List Candidate}
    (h : c ∈ behind pivot cs) : pivot.standing ≤ c.standing := by
  have hc := (List.mem_filter.1 h).2
  rw [Bool.not_eq_true', ← Bool.not_eq_true, precedes_iff] at hc
  exact not_lt.1 hc

theorem partition_perm (pivot : Candidate) (cs : List Candidate) :
    (ahead pivot cs ++ pivot :: behind pivot cs).Perm (pivot :: cs) :=
  List.perm_middle.trans ((List.filter_append_perm _ cs).cons pivot)

theorem quickselect_perm (cs : List Candidate) (i : Nat) : (quickselect cs i).Perm cs := by
  fun_induction quickselect cs i with
  | case1 => exact .refl _
  | case2 i pivot rest before after h ih =>
      exact (ih.append_right _).trans (partition_perm pivot rest)
  | case3 pivot rest before after h => exact partition_perm pivot rest
  | case4 i pivot rest before after h h' ih =>
      exact ((ih.cons pivot).append_left _).trans (partition_perm pivot rest)

theorem quickselect_split (cs : List Candidate) (i : Nat) (hi : i < cs.length) :
    ∃ before c after, quickselect cs i = before ++ c :: after ∧ before.length = i ∧
      (∀ d ∈ before, d.standing ≤ c.standing) ∧ ∀ d ∈ after, c.standing ≤ d.standing := by
  fun_induction quickselect cs i with
  | case1 => cases hi
  | case2 i pivot rest before after h ih =>
      obtain ⟨l, c, r, he, hl, hlow, hhigh⟩ := ih h
      have hc : c ∈ before := (quickselect_perm before i).mem_iff.1 (by rw [he]; simp)
      have hcp := standing_lt_of_mem_ahead hc
      refine ⟨l, c, r ++ pivot :: after, by rw [he]; simp, hl, hlow, ?_⟩
      intro d hd
      rcases List.mem_append.1 hd with hd | hd
      · exact hhigh d hd
      · rcases List.mem_cons.1 hd with rfl | hd
        · exact hcp.le
        · exact hcp.le.trans (standing_le_of_mem_behind hd)
  | case3 pivot rest before after h =>
      exact ⟨before, pivot, after, rfl, rfl, fun d hd => (standing_lt_of_mem_ahead hd).le,
        fun d hd => standing_le_of_mem_behind hd⟩
  | case4 i pivot rest before after h h' ih =>
      have hlen : (before ++ pivot :: after).length = (pivot :: rest).length :=
        (partition_perm pivot rest).length_eq
      rw [List.length_append, List.length_cons] at hlen
      obtain ⟨l, c, r, he, hl, hlow, hhigh⟩ := ih (by omega)
      have hc : c ∈ after := (quickselect_perm after _).mem_iff.1 (by rw [he]; simp)
      have hpc := standing_le_of_mem_behind hc
      refine ⟨before ++ pivot :: l, c, r, by rw [he]; simp, ?_, ?_, hhigh⟩
      · rw [List.length_append, List.length_cons]; omega
      · intro d hd
        rcases List.mem_append.1 hd with hd | hd
        · exact (standing_lt_of_mem_ahead hd).le.trans hpc
        · rcases List.mem_cons.1 hd with rfl | hd
          · exact hpc
          · exact hlow d hd

theorem selected_quickselect (cs : List Candidate) (i : Fin cs.length) :
    Selected cs i (quickselect cs i) := by
  obtain ⟨before, c, after, he, hl, hlow, hhigh⟩ := quickselect_split cs i i.isLt
  refine ⟨quickselect_perm cs i, c, ?_, ?_, ?_⟩
  · rw [he, ← hl, List.getElem?_append_right le_rfl, Nat.sub_self]
    rfl
  · rw [he, List.take_left' hl]
    intro d hd
    rw [rankCompare_eq, compare_le_iff_le]
    exact hlow d hd
  · rw [he, ← List.drop_drop, List.drop_left' hl]
    intro d hd
    rw [rankCompare_eq, compare_ge_iff_ge]
    exact hhigh d hd

theorem sorted_mergeSort (cs : List Candidate) : Sorted (cs.mergeSort ranksBy) := by
  have htrans (a b c : Candidate) (hab : a.ranksBy b) (hbc : b.ranksBy c) : a.ranksBy c :=
    ranksBy_iff.2 ((ranksBy_iff.1 hab).trans (ranksBy_iff.1 hbc))
  have htotal (a b : Candidate) : a.ranksBy b || b.ranksBy a := by
    rw [Bool.or_eq_true, ranksBy_iff, ranksBy_iff]
    exact le_total _ _
  exact (List.pairwise_mergeSort htrans htotal cs).imp fun h => bne_iff_ne.1 h

theorem standard_sound : standard.Sound where
  select_selected := selected_quickselect
  sort_perm cs := List.mergeSort_perm cs ranksBy
  sort_sorted := sorted_mergeSort

theorem eq_mergeSort_of_sorted {cs ds : List Candidate} (hcs : (cs.map slot).Nodup)
    (hperm : ds.Perm cs) (hsorted : Sorted ds) : ds = cs.mergeSort ranksBy := by
  have hp := hperm.trans (List.mergeSort_perm cs ranksBy).symm
  refine List.Perm.eq_of_pairwise ?_ hsorted (sorted_mergeSort cs) hp
  intro a b ha hb hab hba
  rw [rankCompare_eq, compare_le_iff_le] at hab hba
  exact eq_of_standing_eq hcs (hperm.mem_iff.1 ha) (List.mem_mergeSort.1 hb) (le_antisymm hab hba)

namespace Sound

variable {b : Backend} {cs : List Candidate}

theorem sort_eq (hb : b.Sound) (hcs : (cs.map slot).Nodup) : b.sort cs = cs.mergeSort ranksBy :=
  eq_mergeSort_of_sorted hcs (hb.sort_perm cs) (hb.sort_sorted cs)

theorem sort_take_select (hb : b.Sound) (hcs : (cs.map slot).Nodup) (k : Fin cs.length) :
    b.sort ((b.select cs k).take k) = (cs.mergeSort ranksBy).take k := by
  obtain ⟨hperm, c, hc, hlow, hhigh⟩ := hb.select_selected cs k
  generalize b.select cs k = ds at hperm hc hlow hhigh
  have hlen : k < ds.length := by rw [hperm.length_eq]; exact k.isLt
  have hfront := hb.sort_perm (ds.take k)
  have hback := hb.sort_perm (ds.drop k)
  have hall : (b.sort (ds.take k) ++ b.sort (ds.drop k)).Perm cs := by
    refine (hfront.append hback).trans ?_
    rwa [List.take_append_drop]
  have hsorted : Sorted (b.sort (ds.take k) ++ b.sort (ds.drop k)) := by
    refine List.pairwise_append.2 ⟨hb.sort_sorted _, hb.sort_sorted _, ?_⟩
    intro d hd e he
    have hdc := hlow d (hfront.mem_iff.1 hd)
    have hce : c.standing ≤ e.standing := by
      have he := hback.mem_iff.1 he
      rw [List.drop_eq_getElem_cons hlen] at he
      rw [List.getElem?_eq_getElem hlen, Option.some.injEq] at hc
      rcases List.mem_cons.1 he with rfl | he
      · rw [hc]
      · have h := hhigh e he
        rwa [rankCompare_eq, compare_ge_iff_ge] at h
    rw [rankCompare_eq, compare_le_iff_le] at hdc ⊢
    exact hdc.trans hce
  have hfrontlen : (b.sort (ds.take k)).length = k := by
    rw [hfront.length_eq, List.length_take]
    omega
  rw [← eq_mergeSort_of_sorted hcs hall hsorted, List.take_left' hfrontlen]

end Sound

section Rows

variable {α : Type} (metric : Metric α) (query : List α)

theorem map_slot_candidates (rs : List (List α)) :
    (candidates metric query rs).map slot = List.range rs.length := by
  refine List.ext_getElem (by simp [candidates]) fun i hi hj => ?_
  simp [candidates]

/-- Selecting before sorting makes no difference, whatever the two rearrangements do with ties. -/
theorem Sound.rank_eq_rankAll {b : Backend} (hb : b.Sound) (cells : List α) (k : Nat) :
    b.rank metric query cells k = rankAll metric query cells k := by
  unfold rank rankAll
  by_cases hq : query = []
  · rw [dif_pos (.inr (.inl hq)), dif_pos hq]
  · rw [dif_neg hq]
    have hpos : 0 < query.length := List.length_pos_iff.2 hq
    have hnodup : ((candidates metric query (rows query.length hpos cells)).map slot).Nodup := by
      rw [map_slot_candidates]
      exact List.nodup_range
    split
    · next h =>
        rcases h with rfl | h | rfl
        · rfl
        · exact absurd h hq
        · simp [rows_nil, candidates]
    · dsimp only
      split
      · exact hb.sort_take_select hnodup ⟨k, _⟩
      · next hk => rw [hb.sort_eq hnodup, List.take_of_length_le (by simpa using hk)]

end Rows

end Vicinity.Backend
