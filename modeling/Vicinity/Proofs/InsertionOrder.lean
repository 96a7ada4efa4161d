import Vicinity.Proofs.Signs
import Vicinity.Proofs.TopK

namespace Vicinity

open Number Candidate

variable {K α : Type}

theorem mem_take_iff_of_not_mem_drop {β : Type} {l : List β} {k : Nat} {b : β}
    (h : b ∉ l.drop k) : b ∈ l.take k ↔ b ∈ l := by
  conv_rhs => rw [← List.take_append_drop k l, List.mem_append, or_iff_left h]

namespace Roster

variable {r s : Roster K α} {query : List α} {k : Nat} {d : Binary64}

theorem ranking_sorted (r : Roster K α) (query : List α) :
    (r.ranking query).Pairwise fun m n => m.distance.place ≤ n.distance.place :=
  (List.pairwise_mergeSort Neighbor.noFarther_trans Neighbor.noFarther_total _).imp
    Neighbor.noFarther_iff.1

theorem nodup_ranking (h : r.keys.Nodup) (query : List α) : (r.ranking query).Nodup :=
  .of_map Neighbor.key ((r.map_key_ranking_perm query).nodup_iff.2 h)

theorem ranking_perm_of_entries_perm (hmetric : r.metric = s.metric)
    (hentries : r.entries.Perm s.entries) (query : List α) :
    (r.ranking query).Perm (s.ranking query) := by
  refine (r.ranking_perm query).trans (.trans ?_ (s.ranking_perm query).symm)
  rw [neighbors, neighbors, hmetric]
  exact hentries.map _

theorem map_distance_ranking_eq (hmetric : r.metric = s.metric)
    (hentries : r.entries.Perm s.entries)
    (hclear : ∀ e ∈ r.entries, (r.metric.distance query e.2).SignClear) :
    (r.ranking query).map Neighbor.distance = (s.ranking query).map Neighbor.distance := by
  have hsorted (t : Roster K α) :
      ((t.ranking query).map Neighbor.distance).Pairwise fun x y => x.place ≤ y.place :=
    List.pairwise_map.2 (t.ranking_sorted query)
  have hperm := ranking_perm_of_entries_perm hmetric hentries query
  refine Value.eq_of_perm_of_sorted ?_ (hperm.map Neighbor.distance) (hsorted r) (hsorted s)
  intro x hx
  obtain ⟨n, hn, rfl⟩ := List.mem_map.1 hx
  obtain ⟨e, he, rfl⟩ := List.mem_map.1 ((r.ranking_perm query).mem_iff.1 hn)
  exact hclear e he

theorem mem_take_ranking_iff (hperm : (r.ranking query).Perm (s.ranking query))
    (hdistances : (r.ranking query).map Neighbor.distance =
      (s.ranking query).map Neighbor.distance)
    (hcut : ∀ n ∈ (r.ranking query).drop k, n.distance ≠ d) (key : K) :
    ⟨key, d⟩ ∈ (r.ranking query).take k ↔ ⟨key, d⟩ ∈ (s.ranking query).take k := by
  have hdrop : ((r.ranking query).drop k).map Neighbor.distance =
      ((s.ranking query).drop k).map Neighbor.distance := by
    rw [List.map_drop, List.map_drop, hdistances]
  have hr : ⟨key, d⟩ ∉ (r.ranking query).drop k := fun hmem => hcut _ hmem rfl
  have hs : ⟨key, d⟩ ∉ (s.ranking query).drop k := by
    intro hmem
    have hd : d ∈ ((r.ranking query).drop k).map Neighbor.distance :=
      hdrop ▸ List.mem_map_of_mem hmem
    obtain ⟨n, hn, hnd⟩ := List.mem_map.1 hd
    exact hcut n hn hnd
  rw [mem_take_iff_of_not_mem_drop hr, mem_take_iff_of_not_mem_drop hs, hperm.mem_iff]

theorem ne_of_lt_last {last n : Neighbor K} (hlast : last ∈ ((r.ranking query).take k).getLast?)
    (hlt : compareDistance d last.distance = .lt) (hn : n ∈ (r.ranking query).drop k) :
    n.distance ≠ d := by
  have hsorted := r.ranking_sorted query
  rw [← List.take_append_drop k (r.ranking query), List.pairwise_append] at hsorted
  have hle := hsorted.2.2 last (List.mem_of_getLast? hlast) n hn
  rw [compareDistance_eq, compare_lt_iff_lt] at hlt
  rintro rfl
  exact absurd hlt hle.not_gt

end Roster

variable [DecidableEq K] [Hashable K]

namespace Index

structure SameContents (ix jx : Index K α) : Prop where
  dimension_eq : ix.dimension = jx.dimension
  metric_eq : ix.metric = jx.metric
  mem_entries_iff : ∀ e, e ∈ ix.entries ↔ e ∈ jx.entries

theorem length_of_mem_entries {ix : Index K α} {e : K × List α} (he : e ∈ ix.entries) :
    e.2.length = ix.dimension :=
  length_of_mem_rows (List.of_mem_zip he).2

theorem WellFormed.nodup_entries {ix : Index K α} (wf : ix.WellFormed) : ix.entries.Nodup :=
  .of_map Prod.fst wf.nodup_keys_roster

end Index

namespace Session

variable [Element α]

/-- Distances do not depend on the order of insertion. Keys do so only among those at the last
distance, and only when not all of these are answered. -/
theorem Reachable.nearest_independent_of_order {s t : Session K α} (hs : s.Reachable)
    (ht : t.Reachable) {ix jx : Index K α} (hix : ix ∈ s.indexes) (hjx : jx ∈ t.indexes)
    (hib : ix.backend.Sound) (hjb : jx.backend.Sound) (same : ix.SameContents jx)
    {kind : Metric.Kind} (hkind : ix.metric = kind.metric) {query : List α}
    (hq : query.length = ix.dimension) (k : Nat) :
    ∃ ms ns : List (Neighbor K),
      ix.nearestWithDistances query k = .ok ms ∧ jx.nearestWithDistances query k = .ok ns ∧
      ms.map Neighbor.distance = ns.map Neighbor.distance ∧
      (∀ last ∈ ms.getLast?, ∀ d, compareDistance d last.distance = .lt →
        ∀ key, ⟨key, d⟩ ∈ ms ↔ ⟨key, d⟩ ∈ ns) ∧
      ∀ d, (∀ e ∈ ix.entries, ix.metric.distance query e.2 = d → ⟨e.1, d⟩ ∈ ms) →
        ∀ key, ⟨key, d⟩ ∈ ms ↔ ⟨key, d⟩ ∈ ns := by
  have wfi := hs.wellFormed ix hix
  have wfj := ht.wellFormed jx hjx
  have hentries : ix.roster.entries.Perm jx.roster.entries :=
    (List.perm_ext_iff_of_nodup wfi.nodup_entries wfj.nodup_entries).2 same.mem_entries_iff
  have hperm := Roster.ranking_perm_of_entries_perm same.metric_eq hentries query
  have hclear : ∀ e ∈ ix.roster.entries, (ix.metric.distance query e.2).SignClear := by
    intro e he
    have hlen : query.length = e.2.length := hq.trans (Index.length_of_mem_entries he).symm
    have hne : query ≠ [] := List.length_pos_iff.1 (hq ▸ ix.dimension_pos)
    rw [hkind]
    exact kind.signClear_distance hlen hne
  have hdistances := Roster.map_distance_ranking_eq same.metric_eq hentries hclear
  refine ⟨_, _, wfi.nearestWithDistances_eq_take hib hq k,
    wfj.nearestWithDistances_eq_take hjb (hq.trans same.dimension_eq) k, ?_, ?_, ?_⟩
  · rw [List.map_take, List.map_take, hdistances]
  · intro last hlast d hlt
    exact Roster.mem_take_ranking_iff hperm hdistances fun n hn =>
      Roster.ne_of_lt_last hlast hlt hn
  · intro d hall
    refine Roster.mem_take_ranking_iff hperm hdistances fun n hn hd => ?_
    -- An entry behind the cut at this distance would be answered as well, and so be there twice.
    obtain ⟨e, he, rfl⟩ := List.mem_map.1
      ((ix.roster.ranking_perm query).mem_iff.1 (List.mem_of_mem_drop hn))
    have hmem := hall e he hd
    subst hd
    exact List.disjoint_take_drop (Roster.nodup_ranking wfi.nodup_keys_roster query) le_rfl hmem hn

theorem nearest_independent_of_order_of_two :
    ∃ ix jx : Index Nat UInt8, Reachable ⟨[ix]⟩ ∧ Reachable ⟨[jx]⟩ ∧
      ix.keys = [7, 9] ∧ jx.keys = [9, 7] ∧ ix.SameContents jx ∧ ∃ ms ns,
        ix.nearestWithDistances [0, 0] 1 = .ok ms ∧ jx.nearestWithDistances [0, 0] 1 = .ok ns ∧
        ms.map Neighbor.distance = ns.map Neighbor.distance := by
  obtain ⟨ix, hs, hib, hir⟩ := exists_reachable (K := Nat) (by decide : 0 < 2)
    (Metric.Kind.manhattan.metric : Metric UInt8) .standard [.set 7 [1, 2], .set 9 [2, 1]]
  obtain ⟨jx, ht, hjb, hjr⟩ := exists_reachable (K := Nat) (by decide : 0 < 2)
    (Metric.Kind.manhattan.metric : Metric UInt8) .standard [.set 9 [2, 1], .set 7 [1, 2]]
  have hi : ix.entries = [(7, [1, 2]), (9, [2, 1])] := congrArg Roster.entries hir
  have hj : jx.entries = [(9, [2, 1]), (7, [1, 2])] := congrArg Roster.entries hjr
  have hd : ix.dimension = 2 := congrArg Roster.dimension hir
  have hm : ix.metric = Metric.Kind.manhattan.metric := congrArg Roster.metric hir
  have same : ix.SameContents jx := by
    refine ⟨hd.trans (congrArg Roster.dimension hjr).symm,
      hm.trans (congrArg Roster.metric hjr).symm, fun e => ?_⟩
    simp [hi, hj, or_comm]
  have hq : ([0, 0] : List UInt8).length = ix.dimension := hd.symm
  obtain ⟨ms, ns, hms, hns, heq, -⟩ := hs.nearest_independent_of_order ht List.mem_cons_self
    List.mem_cons_self (hib ▸ Backend.standard_sound) (hjb ▸ Backend.standard_sound) same
    hm hq 1
  exact ⟨ix, jx, hs, ht, hs.keys_eq hir, ht.keys_eq hjr, same, ms, ns, hms, hns, heq⟩

end Session

end Vicinity
