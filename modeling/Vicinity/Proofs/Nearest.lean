import Vicinity.Proofs.Selection
import Vicinity.Proofs.WellFormed

namespace Vicinity.Index

open Candidate Neighbor

theorem mapM_map_eq_ok {β γ δ ε : Type} {c : β → γ} {f : γ → Except ε δ} {g : β → δ} {xs : List β}
    (h : ∀ x ∈ xs, f (c x) = .ok (g x)) : (xs.map c).mapM f = .ok (xs.map g) := by
  induction xs with
  | nil => rfl
  | cons x xs ih =>
      obtain ⟨hx, hxs⟩ := List.forall_mem_cons.1 h
      rw [List.map_cons, List.mapM_cons, hx, ih hxs]
      rfl

theorem rows_congr {α : Type} {cells : List α} {v w : Nat} (h : v = w) (hv : 0 < v) (hw : 0 < w) :
    rows v hv cells = rows w hw cells := by
  subst h
  rfl

variable {K α : Type}

def candidate (p : Neighbor K × Nat) : Candidate := ⟨p.2, p.1.distance⟩

/-- Sorting stably by distance is sorting by distance and slot. -/
theorem zipIdxLE_noFarther (p q : Neighbor K × Nat) :
    List.zipIdxLE noFarther p q = (candidate p).ranksBy (candidate q) := by
  rw [Bool.eq_iff_iff, ranksBy_iff, standing, standing, Prod.Lex.toLex_le_toLex]
  simp only [List.zipIdxLE, noFarther_iff, candidate]
  rcases lt_trichotomy p.1.distance.place q.1.distance.place with h | h | h
  · simp [h, h.le, h.not_ge]
  · simp [h]
  · simp [h.not_ge, h.not_gt, h.ne']

theorem mergeSort_candidate (ns : List (Neighbor K)) :
    (ns.zipIdx.map candidate).mergeSort ranksBy =
      (ns.zipIdx.mergeSort (List.zipIdxLE noFarther)).map candidate :=
  (List.map_mergeSort fun p _ q _ => zipIdxLE_noFarther p q).symm

variable [DecidableEq K] [Hashable K] {ix : Index K α}

namespace WellFormed

theorem candidates_eq (wf : ix.WellFormed) (query : List α) :
    Backend.candidates ix.metric query (rows ix.dimension ix.dimension_pos ix.cells) =
      (ix.roster.neighbors query).zipIdx.map candidate := by
  rw [← wf.rows_roster]
  refine List.ext_getElem (by simp [Backend.candidates, Roster.neighbors]) fun i hi hj => ?_
  simp [Backend.candidates, Roster.neighbors, candidate]

theorem neighbor_candidate (wf : ix.WellFormed) {query : List α} {p : Neighbor K × Nat}
    (hp : p ∈ (ix.roster.neighbors query).zipIdx) : ix.neighbor (candidate p) = .ok p.1 := by
  have hkey := ix.roster.getElem?_keys_of_mem hp
  rw [wf.keys_roster] at hkey
  rw [neighbor, candidate, hkey]

theorem rankAll_eq (wf : ix.WellFormed) {query : List α} (hq : query.length = ix.dimension)
    (k : Nat) : Backend.rankAll ix.metric query ix.cells k =
      (((ix.roster.neighbors query).zipIdx.mergeSort (List.zipIdxLE noFarther)).take k).map
        candidate := by
  have hne : query ≠ [] := List.length_pos_iff.1 (hq ▸ ix.dimension_pos)
  rw [Backend.rankAll, dif_neg hne, rows_congr hq _ ix.dimension_pos, wf.candidates_eq]
  dsimp only
  rw [mergeSort_candidate, List.map_take]

theorem mapM_neighbor (wf : ix.WellFormed) (query : List α) (k : Nat) :
    ((((ix.roster.neighbors query).zipIdx.mergeSort (List.zipIdxLE noFarther)).take k).map
      candidate).mapM ix.neighbor = .ok ((ix.roster.ranking query).take k) := by
  rw [mapM_map_eq_ok fun p hp =>
      wf.neighbor_candidate (List.mem_mergeSort.1 (List.mem_of_mem_take hp)),
    List.map_take, List.mergeSort_zipIdx]
  rfl

theorem nearestWithDistances_eq (wf : ix.WellFormed) (hb : ix.backend.Sound) (query : List α)
    (k : Nat) : ix.nearestWithDistances query k = ix.roster.nearest query k := by
  rw [nearestWithDistances, checkDimension, Roster.nearest, roster_dimension]
  by_cases hq : query.length = ix.dimension
  · rw [if_pos hq, if_pos hq, hb.rank_eq_rankAll, wf.rankAll_eq hq, wf.mapM_neighbor]
    rfl
  · rw [if_neg hq, if_neg hq]
    rfl

end WellFormed

end Vicinity.Index
