import Vicinity.Proofs.TopK

namespace Vicinity

variable {K α : Type} [DecidableEq K]

namespace Neighbor

variable {key : K} {n : Neighbor K} {ns : List (Neighbor K)}

def others (key : K) (ns : List (Neighbor K)) : List (Neighbor K) := ns.filter fun n => n.key ≠ key

theorem others_cons_of_eq (h : n.key = key) : others key (n :: ns) = others key ns :=
  List.filter_cons_of_neg (by simpa using h)

theorem others_cons_of_ne (h : n.key ≠ key) : others key (n :: ns) = n :: others key ns :=
  List.filter_cons_of_pos (by simpa using h)

theorem others_eq_self (h : key ∉ ns.map Neighbor.key) : others key ns = ns := by
  apply List.filter_eq_self.2
  intro n hn
  rw [decide_eq_true_eq]
  rintro rfl
  exact h (List.mem_map_of_mem hn)

theorem take_others_take_succ (h : (ns.map Neighbor.key).Nodup) (k : Nat) :
    (others key (ns.take (k + 1))).take k = (others key ns).take k := by
  induction ns generalizing k with
  | nil => rfl
  | cons n ns ih =>
      rw [List.map_cons, List.nodup_cons] at h
      obtain ⟨hn, hns⟩ := h
      rw [List.take_succ_cons]
      by_cases hkey : n.key = key
      · rw [hkey] at hn
        have htake : key ∉ (ns.take k).map Neighbor.key := by
          rw [List.map_take]
          exact fun hmem => hn (List.mem_of_mem_take hmem)
        rw [others_cons_of_eq hkey, others_cons_of_eq hkey, others_eq_self htake,
          others_eq_self hn, List.take_take, Nat.min_self]
      · rw [others_cons_of_ne hkey, others_cons_of_ne hkey]
        cases k with
        | zero => rfl
        | succ k => rw [List.take_succ_cons, List.take_succ_cons, ih hns]

theorem Before.asymm {keys : List K} {m n : Neighbor K} (hmn : m.Before keys n) :
    ¬n.Before keys m := by
  rcases hmn with hlt | ⟨he, hlt⟩
  · rintro (hgt | ⟨he, -⟩)
    · exact hlt.asymm hgt
    · exact hlt.ne' he
  · rintro (hgt | ⟨-, hgt⟩)
    · exact hgt.ne' he
    · exact hlt.asymm hgt

theorem eq_of_perm_of_before {keys : List K} {ms : List (Neighbor K)} (hperm : ms.Perm ns)
    (hms : ms.Pairwise (Before keys)) (hns : ns.Pairwise (Before keys)) : ms = ns :=
  List.Perm.eq_of_pairwise (fun _ _ _ _ hmn hnm => absurd hnm hmn.asymm) hms hns hperm

end Neighbor

open Neighbor

theorem idxOf_lt_of_sublist {xs ys : List K} (hsub : xs.Sublist ys) (h : ys.Nodup) {a b : K}
    (hb : b ∈ xs) (hlt : xs.idxOf a < xs.idxOf b) : ys.idxOf a < ys.idxOf b := by
  have hsorted : ys.Pairwise fun a b => ys.idxOf a < ys.idxOf b := by
    rw [List.pairwise_iff_getElem]
    intro i j hi hj hij
    rwa [h.idxOf_getElem, h.idxOf_getElem]
  exact rel_of_idxOf_lt (R := fun a b => ys.idxOf a < ys.idxOf b) (hsorted.sublist hsub) hb hlt

namespace Roster

variable {r : Roster K α}

theorem neighbors_without (r : Roster K α) (key : K) (query : List α) :
    (r.without key).neighbors query = others key (r.neighbors query) := by
  rw [neighbors, neighbors, others, List.filter_map]
  rfl

/-- Later keys get other slots when a key goes, but the ranking of the rest stays as it was. -/
theorem ranking_without (h : r.keys.Nodup) (key : K) (query : List α) :
    (r.without key).ranking query = others key (r.ranking query) := by
  have hsub : (r.without key).keys.Sublist r.keys := by
    rw [keys_without]
    exact List.filter_sublist
  -- Both sides are sorted by the places of the keys before the removal.
  have hrest : ((r.without key).ranking query).Pairwise (Before r.keys) := by
    refine (ranking_pairwise (hsub.nodup h) query).imp_of_mem fun {m n} _ hn hmn => ?_
    have hmem := ((r.without key).map_key_ranking_perm query).mem_iff.1 (List.mem_map_of_mem hn)
    exact hmn.imp_right fun tie => ⟨tie.1, idxOf_lt_of_sublist hsub h hmem tie.2⟩
  have hperm : ((r.without key).ranking query).Perm (others key (r.ranking query)) := by
    refine ((r.without key).ranking_perm query).trans ?_
    rw [neighbors_without]
    exact ((r.ranking_perm query).filter _).symm
  exact eq_of_perm_of_before hperm hrest ((ranking_pairwise h query).filter _)

theorem without_overwrite (r : Roster K α) (key : K) (vector : List α) :
    (r.overwrite key vector).without key = r.without key := by
  apply congrArg (Roster.mk r.dimension r.metric)
  rw [overwrite]
  induction r.entries with
  | nil => rfl
  | cons e es ih => by_cases he : e.1 = key <;> simp_all

theorem without_append (r : Roster K α) (key : K) (vector : List α) :
    (r.append key vector).without key = r.without key := by
  simp [append, without]

end Roster

variable [Hashable K]

namespace Index.WellFormed

variable {ix next : Index K α} {query : List α}

theorem nearestWithDistances_of_size_le (wf : ix.WellFormed) (hb : ix.backend.Sound)
    (hq : query.length = ix.dimension) {k : Nat} (hk : ix.size ≤ k) :
    ix.nearestWithDistances query k = .ok (ix.roster.ranking query) := by
  have hlen := (ix.roster.map_key_ranking_perm query).length_eq
  rw [List.length_map, wf.keys_roster] at hlen
  rw [wf.nearestWithDistances_eq_take hb hq, List.take_of_length_le (hlen.le.trans hk)]

theorem nearest_removed (wf : ix.WellFormed) (hb : ix.backend.Sound)
    (hq : query.length = ix.dimension) {key : K} (hnext : ix.Becomes next (ix.roster.without key))
    (k : Nat) :
    ∃ ms, ix.nearestWithDistances query (k + 1) = .ok ms ∧
      next.nearestWithDistances query k = .ok ((others key ms).take k) := by
  have hbnext : next.backend.Sound := hnext.backend_eq ▸ hb
  have hqnext : query.length = next.dimension :=
    hq.trans (congrArg Roster.dimension hnext.roster_eq).symm
  have hnodup : ((ix.roster.ranking query).map Neighbor.key).Nodup :=
    (ix.roster.map_key_ranking_perm query).nodup_iff.2 wf.nodup_keys_roster
  refine ⟨_, wf.nearestWithDistances_eq_take hb hq (k + 1), ?_⟩
  rw [hnext.wellFormed.nearestWithDistances_eq_take hbnext hqnext, hnext.roster_eq,
    Roster.ranking_without wf.nodup_keys_roster, take_others_take_succ hnodup]

theorem nearest_others_eq {r : Roster K α} (wf : ix.WellFormed) (hb : ix.backend.Sound)
    (hq : query.length = ix.dimension) (hnext : ix.Becomes next r) {key : K}
    (hr : r.without key = ix.roster.without key) {j k : Nat} (hj : ix.size ≤ j)
    (hk : next.size ≤ k) :
    ∃ ms ns, ix.nearestWithDistances query j = .ok ms ∧
      next.nearestWithDistances query k = .ok ns ∧ others key ms = others key ns := by
  have hbnext : next.backend.Sound := hnext.backend_eq ▸ hb
  have hwithout : next.roster.without key = ix.roster.without key := by
    rw [hnext.roster_eq, hr]
  have hqnext : query.length = next.dimension :=
    hq.trans (congrArg Roster.dimension hwithout).symm
  refine ⟨_, _, wf.nearestWithDistances_of_size_le hb hq hj,
    hnext.wellFormed.nearestWithDistances_of_size_le hbnext hqnext hk, ?_⟩
  rw [← Roster.ranking_without wf.nodup_keys_roster, ← hwithout,
    Roster.ranking_without hnext.wellFormed.nodup_keys_roster]

/-- A vector of the right length leaves the other keys alone, or there is no room for it. -/
theorem set_others (wf : ix.WellFormed) (hb : ix.backend.Sound) (hq : query.length = ix.dimension)
    (key : K) {vector : List α} (hv : vector.length = ix.dimension) :
    (∃ next, ix.set key vector = .ok (ix.contains key, next) ∧
      ∀ j k, ix.size ≤ j → next.size ≤ k → ∃ ms ns,
        ix.nearestWithDistances query j = .ok ms ∧
        next.nearestWithDistances query k = .ok ns ∧ others key ms = others key ns) ∨
    ix.contains key = false ∧ addressLimit ≤ (ix.size + 1) * ix.dimension ∧
      ix.set key vector = .error (.defect .addressOverflow) := by
  rw [wf.contains_eq, wf.keys_roster]
  by_cases hk : key ∈ ix.keys
  · obtain ⟨slot, hslot⟩ := List.mem_iff_getElem?.1 hk
    obtain ⟨next, he, hnext⟩ := wf.set_of_mem hv hslot
    refine .inl ⟨next, by rw [he, decide_eq_true hk], fun j k => ?_⟩
    exact wf.nearest_others_eq hb hq hnext (Roster.without_overwrite _ key vector)
  · by_cases hfull : ix.roster.Full
    · have hlimit := hfull
      rw [Roster.Full, Index.roster_entries, wf.length_entries] at hlimit
      exact .inr ⟨decide_eq_false hk, hlimit, wf.set_of_full hv hk hfull⟩
    · obtain ⟨next, he, hnext⟩ := wf.set_of_not_mem hv hk hfull
      refine .inl ⟨next, by rw [he, decide_eq_false hk], fun j k => ?_⟩
      exact wf.nearest_others_eq hb hq hnext (Roster.without_append _ key vector)

end Index.WellFormed

namespace Session

variable [Element α]

/-- Removing a key or giving it another vector leaves the ranking of the other keys alone. A new key
is refused when there are no addresses left for its row, which `set_leaves_others` rules out. -/
theorem Reachable.updates_local {s : Session K α} (hs : s.Reachable) {ix : Index K α}
    (hix : ix ∈ s.indexes) (hb : ix.backend.Sound) (key : K) {query : List α}
    (hq : query.length = ix.dimension) :
    (∀ (order : KeyOrder K) (k : Nat), ∃ removed next ms,
      ix.removeInOrder order key = .ok (removed, next) ∧
      ix.nearestWithDistances query (k + 1) = .ok ms ∧
      next.nearestWithDistances query k = .ok ((others key ms).take k)) ∧
    ∀ vector : List α, vector.length = ix.dimension →
      (∃ next, ix.set key vector = .ok (ix.contains key, next) ∧
        ∀ j k, ix.size ≤ j → next.size ≤ k → ∃ ms ns,
          ix.nearestWithDistances query j = .ok ms ∧
          next.nearestWithDistances query k = .ok ns ∧ others key ms = others key ns) ∨
      ix.contains key = false ∧ addressLimit ≤ (ix.size + 1) * ix.dimension ∧
        ix.set key vector = .error (.defect .addressOverflow) := by
  have wf := hs.wellFormed ix hix
  refine ⟨fun order k => ?_, fun vector hv => wf.set_others hb hq key hv⟩
  obtain ⟨next, he, hnext⟩ := wf.exists_removeInOrder order key
  obtain ⟨ms, hms, hns⟩ := wf.nearest_removed hb hq hnext k
  exact ⟨_, next, ms, he, hms, hns⟩

theorem updates_local_of_ties :
    ∃ ix : Index Nat UInt8, Reachable ⟨[ix]⟩ ∧ ix.keys = [7, 9, 8] ∧
      (∃ removed next ms, ix.remove 7 = .ok (removed, next) ∧
        ix.nearestWithDistances [0, 0] 3 = .ok ms ∧
        next.nearestWithDistances [0, 0] 2 = .ok ((others 7 ms).take 2)) ∧
      ∃ next ms ns, ix.set 9 [0, 1] = .ok (ix.contains 9, next) ∧
        ix.nearestWithDistances [0, 0] 3 = .ok ms ∧
        next.nearestWithDistances [0, 0] next.size = .ok ns ∧ others 9 ms = others 9 ns := by
  obtain ⟨ix, hs, hb, hr⟩ := exists_reachable (K := Nat) (by decide : 0 < 2)
    (.manhattan : Metric UInt8) .standard [.set 7 [1, 2], .set 9 [2, 1], .set 8 [3, 0]]
  have hkeys := hs.keys_eq hr
  have hd : ix.dimension = 2 := congrArg Roster.dimension hr
  have hsize : ix.size = 3 := congrArg List.length hkeys
  have hq (v : List UInt8) (hv : v.length = 2) : v.length = ix.dimension := hv.trans hd.symm
  have hlocal (key : Nat) := hs.updates_local List.mem_cons_self (hb ▸ Backend.standard_sound) key
    (hq [0, 0] rfl)
  refine ⟨ix, hs, hkeys, (hlocal 7).1 .standard 2, ?_⟩
  rcases (hlocal 9).2 [0, 1] (hq _ rfl) with ⟨next, he, hall⟩ | ⟨-, hfull, -⟩
  · obtain ⟨ms, ns, hms, hns, hothers⟩ := hall 3 next.size hsize.le le_rfl
    exact ⟨next, ms, ns, he, hms, hns, hothers⟩
  · rw [hsize, hd] at hfull
    exact absurd hfull (by decide)

end Session

end Vicinity
