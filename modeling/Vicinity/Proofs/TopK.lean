import Vicinity.Proofs.Nearest
import Vicinity.Proofs.Reachable

namespace Vicinity

open Candidate

section Places

variable {β : Type} [DecidableEq β] {R : β → β → Prop} {l : List β} {a b : β}

theorem rel_of_idxOf_lt (h : l.Pairwise R) (hb : b ∈ l) (hlt : l.idxOf a < l.idxOf b) : R a b := by
  have hlen := List.idxOf_lt_length_of_mem hb
  have hrel := List.pairwise_iff_getElem.1 h _ _ (hlt.trans hlen) hlen hlt
  rwa [List.getElem_idxOf, List.getElem_idxOf] at hrel

theorem idxOf_lt_iff (h : l.Pairwise R) (ha : a ∈ l) (hb : b ∈ l) {m n : Nat}
    (hab : R a b → m < n) (hba : R b a → n < m) (heq : a = b → m = n) :
    l.idxOf a < l.idxOf b ↔ m < n := by
  rcases lt_trichotomy (l.idxOf a) (l.idxOf b) with hlt | he | hgt
  · have hmn := hab (rel_of_idxOf_lt h hb hlt)
    omega
  · have hmn := heq ((List.idxOf_inj ha).1 he)
    omega
  · have hmn := hba (rel_of_idxOf_lt h ha hgt)
    omega

theorem idxOf_take_lt_iff {k : Nat} (h : a ∈ l.take k ∨ b ∈ l.take k) :
    (l.take k).idxOf a < (l.take k).idxOf b ↔ l.idxOf a < l.idxOf b := by
  conv_rhs => rw [← List.take_append_drop k l, List.idxOf_append, List.idxOf_append]
  have ha := List.idxOf_lt_length_iff (l := l.take k) (a := a)
  have hb := List.idxOf_lt_length_iff (l := l.take k) (a := b)
  split_ifs <;> grind

end Places

variable {K α : Type}

theorem Roster.ranking_perm (r : Roster K α) (query : List α) :
    (r.ranking query).Perm (r.neighbors query) :=
  List.mergeSort_perm _ _

theorem Roster.map_key_ranking_perm (r : Roster K α) (query : List α) :
    ((r.ranking query).map Neighbor.key).Perm r.keys := by
  rw [← r.map_key_neighbors query]
  exact (r.ranking_perm query).map Neighbor.key

variable [DecidableEq K]

/-- Closer, or as close and earlier among the keys. A NaN is farther than every number. -/
def Neighbor.Before (keys : List K) (m n : Neighbor K) : Prop :=
  m.distance.place < n.distance.place ∨
    m.distance.place = n.distance.place ∧ keys.idxOf m.key < keys.idxOf n.key

namespace Roster

variable {r : Roster K α}

theorem idxOf_key (h : r.keys.Nodup) {query : List α} {p : Neighbor K × Nat}
    (hp : p ∈ (r.neighbors query).zipIdx) : r.keys.idxOf p.1.key = p.2 := by
  obtain ⟨hlt, hkey⟩ := List.getElem?_eq_some_iff.1 (r.getElem?_keys_of_mem hp)
  rw [← hkey, h.idxOf_getElem]

theorem ranking_pairwise (h : r.keys.Nodup) (query : List α) :
    (r.ranking query).Pairwise (Neighbor.Before r.keys) := by
  have hsorted := Backend.sorted_mergeSort ((r.neighbors query).zipIdx.map Index.candidate)
  rw [Index.mergeSort_candidate, Backend.Sorted, List.pairwise_map] at hsorted
  have hperm := List.mergeSort_perm (r.neighbors query).zipIdx (List.zipIdxLE Neighbor.noFarther)
  have hslots : (((r.neighbors query).zipIdx.mergeSort
      (List.zipIdxLE Neighbor.noFarther)).map Prod.snd).Nodup := by
    rw [(hperm.map Prod.snd).nodup_iff, List.zipIdx_map_snd]
    exact List.nodup_range'
  rw [ranking, ← List.mergeSort_zipIdx, List.pairwise_map]
  refine (hsorted.and (List.pairwise_map.1 hslots)).imp_of_mem fun hp hq hpq => ?_
  rw [Neighbor.Before, idxOf_key h (hperm.mem_iff.1 hp), idxOf_key h (hperm.mem_iff.1 hq)]
  obtain ⟨hle, hne⟩ := hpq
  rw [rankCompare_eq, compare_le_iff_le, standing, standing, Prod.Lex.toLex_le_toLex] at hle
  exact hle.imp_right fun h => ⟨h.1, lt_of_le_of_ne h.2 hne⟩

theorem vector?_of_mem (h : r.keys.Nodup) {key : K} {vector : List α}
    (he : (key, vector) ∈ r.entries) : r.vector? key = some vector := by
  obtain ⟨slot, hslot⟩ := List.mem_iff_getElem?.1 he
  exact lookup_of_getElem? h hslot

theorem exists_of_mem_ranking (h : r.keys.Nodup) {query : List α} {n : Neighbor K}
    (hn : n ∈ r.ranking query) :
    ∃ vector, r.vector? n.key = some vector ∧ n.distance = r.metric.distance query vector := by
  obtain ⟨e, he, rfl⟩ := List.mem_map.1 ((r.ranking_perm query).mem_iff.1 hn)
  exact ⟨e.2, vector?_of_mem h he, rfl⟩

theorem idxOf_ranking_lt_iff (h : r.keys.Nodup) {query : List α} {key₁ key₂ : K} {v₁ v₂ : List α}
    (h₁ : r.vector? key₁ = some v₁) (h₂ : r.vector? key₂ = some v₂)
    (tie : (r.metric.distance query v₁).place = (r.metric.distance query v₂).place) :
    ((r.ranking query).map Neighbor.key).idxOf key₁ <
        ((r.ranking query).map Neighbor.key).idxOf key₂ ↔
      r.keys.idxOf key₁ < r.keys.idxOf key₂ := by
  have hsorted : ((r.ranking query).map Neighbor.key).Pairwise fun a b =>
      ∀ v w, r.vector? a = some v → r.vector? b = some w →
        (r.metric.distance query v).place = (r.metric.distance query w).place →
          r.keys.idxOf a < r.keys.idxOf b := by
    rw [List.pairwise_map]
    apply (ranking_pairwise h query).imp_of_mem
    intro m n hm hn hmn v w hv hw hvw
    obtain ⟨_, hm, hdm⟩ := exists_of_mem_ranking h hm
    obtain ⟨_, hn, hdn⟩ := exists_of_mem_ranking h hn
    obtain rfl := Option.some.inj (hm.symm.trans hv)
    obtain rfl := Option.some.inj (hn.symm.trans hw)
    rw [Neighbor.Before, hdm, hdn, hvw] at hmn
    exact (hmn.resolve_left (lt_irrefl _)).2
  have hmem {key : K} {v : List α} (hv : r.vector? key = some v) :
      key ∈ (r.ranking query).map Neighbor.key := by
    rw [(r.map_key_ranking_perm query).mem_iff]
    exact mem_keys_iff_vector?.2 ⟨v, hv⟩
  exact idxOf_lt_iff hsorted (hmem h₁) (hmem h₂) (fun hlt => hlt _ _ h₁ h₂ tie)
    (fun hlt => hlt _ _ h₂ h₁ tie.symm) (congrArg fun key => r.keys.idxOf key)

end Roster

variable [Hashable K]

namespace Index.WellFormed

variable {ix : Index K α} {query : List α}

theorem nearestWithDistances_eq_take (wf : ix.WellFormed) (hb : ix.backend.Sound)
    (hq : query.length = ix.dimension) (k : Nat) :
    ix.nearestWithDistances query k = .ok ((ix.roster.ranking query).take k) := by
  rw [wf.nearestWithDistances_eq hb, Roster.nearest, roster_dimension, if_pos hq]

theorem nearest_eq_take (wf : ix.WellFormed) (hb : ix.backend.Sound)
    (hq : query.length = ix.dimension) (k : Nat) :
    ix.nearest query k = .ok (((ix.roster.ranking query).take k).map Neighbor.key) := by
  rw [nearest, wf.nearestWithDistances_eq_take hb hq]
  rfl

end Index.WellFormed

namespace Session

variable [Element α]

/-- A query answers the head of the one list of all entries that is sorted by distance and, within
a distance, by slot. -/
theorem Reachable.nearest_exact {s : Session K α} (hs : s.Reachable) {ix : Index K α}
    (hix : ix ∈ s.indexes) (hb : ix.backend.Sound) {query : List α}
    (hq : query.length = ix.dimension) (k : Nat) :
    ∃ all : List (Neighbor K),
      (all.map Neighbor.key).Perm ix.keys ∧
      (∀ n ∈ all, ∃ vector, ix.get n.key = .ok (some vector) ∧
        n.distance = ix.metric.distance query vector) ∧
      all.Pairwise (Neighbor.Before ix.keys) ∧
      ix.nearestWithDistances query k = .ok (all.take k) ∧
      ix.nearest query k = .ok ((all.take k).map Neighbor.key) ∧
      (all.take k).length = min k ix.size ∧
      ((all.take k).map Neighbor.key).Nodup ∧
      (∀ n ∈ all.take k, ix.contains n.key = true) ∧
      ∀ m ∈ all.take k, ∀ n ∈ all.drop k, Neighbor.Before ix.keys m n := by
  have wf := hs.wellFormed ix hix
  have hnodup := wf.nodup_keys_roster
  have hperm := ix.roster.map_key_ranking_perm query
  have hsorted := Roster.ranking_pairwise hnodup query
  rw [wf.keys_roster] at hperm hsorted
  refine ⟨ix.roster.ranking query, hperm, ?_, hsorted, wf.nearestWithDistances_eq_take hb hq k,
    wf.nearest_eq_take hb hq k, ?_, ?_, ?_, ?_⟩
  · intro n hn
    obtain ⟨vector, hv, hd⟩ := Roster.exists_of_mem_ranking hnodup hn
    exact ⟨vector, (wf.get_eq n.key).trans (congrArg _ hv), hd⟩
  · have hlen := hperm.length_eq
    rw [List.length_map] at hlen
    rw [List.length_take, hlen, Index.size]
  · rw [List.map_take]
    exact (List.take_sublist k _).nodup (hperm.nodup_iff.2 wf.inverse.nodup)
  · intro n hn
    rw [wf.contains_eq, decide_eq_true_eq, wf.keys_roster, ← hperm.mem_iff]
    exact List.mem_map_of_mem (List.mem_of_mem_take hn)
  · rw [← List.take_append_drop k (ix.roster.ranking query), List.pairwise_append] at hsorted
    exact hsorted.2.2

theorem nearest_exact_of_two :
    ∃ ix : Index Nat UInt8, Reachable ⟨[ix]⟩ ∧ ix.backend.Sound ∧
      ([0, 0] : List UInt8).length = ix.dimension ∧ ∃ all : List (Neighbor Nat),
        (all.map Neighbor.key).Perm [7, 9] ∧ all.Pairwise (Neighbor.Before [7, 9]) ∧
        ix.nearest [0, 0] 1 = .ok ((all.take 1).map Neighbor.key) := by
  obtain ⟨ix, hs, hb, hr⟩ := exists_reachable (K := Nat) (by decide : 0 < 2)
    (.manhattan : Metric UInt8) .standard [.set 7 [1, 2], .set 9 [0, 1]]
  have hsound : ix.backend.Sound := hb ▸ Backend.standard_sound
  have hq : ([0, 0] : List UInt8).length = ix.dimension := (congrArg Roster.dimension hr).symm
  obtain ⟨all, hperm, -, hsorted, -, hnear, -⟩ := hs.nearest_exact List.mem_cons_self hsound hq 1
  rw [hs.keys_eq hr] at hperm hsorted
  exact ⟨ix, hs, hsound, hq, all, hperm, hsorted, hnear⟩

end Session

end Vicinity
