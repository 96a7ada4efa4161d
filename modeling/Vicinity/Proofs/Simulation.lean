import Mathlib.Data.List.InsertIdx
import Vicinity.Proofs.WellFormed

namespace Vicinity.Index

variable {K α : Type} [DecidableEq K] [Hashable K]
variable {ix : Index K α} {key : K} {slot : Nat} {vector : List α}

theorem set_of_length_ne (hv : vector.length ≠ ix.dimension) :
    ix.set key vector = .error (.dimensionMismatch ix.dimension vector.length) := by
  rw [set, checkDimension, if_neg hv]
  rfl

theorem becomes_clear (ix : Index K α) : ix.Becomes ix.clear ix.roster.clear where
  wellFormed := ⟨Inverse.nil, by simp [clear], Nat.zero_lt_succ _⟩
  roster_eq := rfl
  backend_eq := rfl

namespace WellFormed

theorem set_of_mem (wf : ix.WellFormed) (hv : vector.length = ix.dimension)
    (h : ix.keys[slot]? = some key) :
    ∃ next, ix.set key vector = .ok (true, next) ∧
      ix.Becomes next (ix.roster.overwrite key vector) := by
  obtain ⟨hlt, hkey⟩ := List.getElem?_eq_some_iff.1 h
  have hend := wf.end_le_length h
  have hlen : (ix.cells.take (slot * ix.dimension) ++ vector ++
      ix.cells.drop (slot * ix.dimension + ix.dimension)).length = ix.cells.length := by
    simp only [List.length_append, List.length_take, List.length_drop]
    omega
  refine ⟨{ ix with
    cells := ix.cells.take (slot * ix.dimension) ++ vector ++
      ix.cells.drop (slot * ix.dimension + ix.dimension) }, ?_,
    ⟨wf.inverse, hlen.trans wf.cells_length, hlen.trans_lt wf.addressable⟩, ?_, rfl⟩
  · rw [set, checkDimension, if_pos hv, (wf.inverse key slot).2 h]
    simp only [wf.overwriteRow_eq h hv]
    rfl
  · have hset := Roster.map_overwrite_eq_set wf.nodup_keys_roster (wf.getElem?_entries h) vector
    refine congrArg (Roster.mk ix.dimension ix.metric) ((entries_eq ?_ ?_).trans hset.symm)
    · rw [List.map_set]
      refine (congrArg (List.set · slot key) wf.keys_roster).trans ?_
      rw [← hkey, List.set_getElem_self]
    · rw [List.map_set]
      refine (congrArg (List.set · slot vector) wf.rows_roster).trans ?_
      exact (rows_overwrite wf.cells_length hv hlt).symm

theorem set_of_not_mem (wf : ix.WellFormed) (hv : vector.length = ix.dimension)
    (h : key ∉ ix.keys) (hroom : ¬ix.roster.Full) :
    ∃ next, ix.set key vector = .ok (false, next) ∧
      ix.Becomes next (ix.roster.append key vector) := by
  rw [wf.full_iff, ← hv, ← List.length_append] at hroom
  refine ⟨{ ix with
    keys := ix.keys ++ [key]
    slots := ix.slots.insert key ix.keys.length
    cells := ix.cells ++ vector }, ?_, ⟨wf.inverse.append h, ?_, not_le.1 hroom⟩, ?_, rfl⟩
  · rw [set, checkDimension, if_pos hv, wf.inverse.getElem?_eq_none_iff.2 h, appendRow,
      ← List.length_append, if_neg hroom]
    rfl
  · simp only [List.length_append, List.length_singleton, wf.cells_length, hv, Nat.succ_mul]
  · refine congrArg (Roster.mk ix.dimension ix.metric) (entries_eq ?_ ?_)
    · rw [List.map_append]
      exact congrArg (· ++ [key]) wf.keys_roster
    · rw [List.map_append]
      refine (congrArg (· ++ [vector]) wf.rows_roster).trans ?_
      exact (rows_append_row wf.cells_length hv).symm

theorem set_of_full (wf : ix.WellFormed) (hv : vector.length = ix.dimension)
    (h : key ∉ ix.keys) (hfull : ix.roster.Full) :
    ix.set key vector = .error (.defect .addressOverflow) := by
  rw [wf.full_iff, ← hv] at hfull
  rw [set, checkDimension, if_pos hv, wf.inverse.getElem?_eq_none_iff.2 h, appendRow,
    if_pos hfull]
  rfl

theorem removeInOrder_of_mem (wf : ix.WellFormed) (order : KeyOrder K)
    (h : ix.keys[slot]? = some key) :
    ∃ next, ix.removeInOrder order key = .ok (ix.roster.vector? key, next) ∧
      ix.Becomes next (ix.roster.without key) := by
  obtain ⟨hlt, hkey⟩ := List.getElem?_eq_some_iff.1 h
  have hend := wf.end_le_length h
  have hlen : (ix.cells.take (slot * ix.dimension) ++
      ix.cells.drop (slot * ix.dimension + ix.dimension)).length =
        ix.cells.length - ix.dimension := by
    simp only [List.length_append, List.length_take, List.length_drop]
    omega
  refine ⟨{ ix with
    keys := ix.keys.eraseIdx slot
    slots := renumber slot (order.keys (ix.slots.erase key)) (ix.slots.erase key)
    cells := ix.cells.take (slot * ix.dimension) ++
      ix.cells.drop (slot * ix.dimension + ix.dimension) }, ?_,
    ⟨wf.inverse.erase h order, ?_, ?_⟩, ?_, rfl⟩
  · rw [removeInOrder, (wf.inverse key slot).2 h, wf.vector?_eq h]
    simp only [eraseKey, if_pos hlt, wf.row_eq h, wf.withoutRow_eq h]
    rfl
  · refine hlen.trans ?_
    rw [List.length_eraseIdx_of_lt hlt, wf.cells_length, Nat.sub_mul, Nat.one_mul]
  · exact lt_of_le_of_lt (hlen.le.trans (Nat.sub_le _ _)) wf.addressable
  · have herase := Roster.filter_ne_eq_eraseIdx wf.nodup_keys_roster (wf.getElem?_entries h)
    refine congrArg (Roster.mk ix.dimension ix.metric) ((entries_eq ?_ ?_).trans herase.symm)
    · rw [← List.eraseIdx_map]
      exact congrArg (List.eraseIdx · slot) wf.keys_roster
    · rw [← List.eraseIdx_map]
      refine (congrArg (List.eraseIdx · slot) wf.rows_roster).trans ?_
      exact (rows_erase wf.cells_length).symm

theorem removeInOrder_of_not_mem (wf : ix.WellFormed) (order : KeyOrder K) (h : key ∉ ix.keys) :
    ix.removeInOrder order key = .ok (none, ix) := by
  rw [removeInOrder, wf.inverse.getElem?_eq_none_iff.2 h]
  rfl

theorem exists_removeInOrder (wf : ix.WellFormed) (order : KeyOrder K) (key : K) :
    ∃ next, ix.removeInOrder order key = .ok (ix.roster.vector? key, next) ∧
      ix.Becomes next (ix.roster.without key) := by
  by_cases hk : key ∈ ix.keys
  · obtain ⟨slot, hs⟩ := List.mem_iff_getElem?.1 hk
    exact wf.removeInOrder_of_mem order hs
  · rw [wf.removeInOrder_of_not_mem order hk, wf.vector?_eq_none hk,
      Roster.without_eq_self (wf.keys_roster.symm ▸ hk)]
    exact ⟨ix, rfl, wf.becomes_self⟩

theorem execute_set (wf : ix.WellFormed) (order : KeyOrder K) (key : K) (vector : List α) :
    (ix.executeInOrder order (.set key vector)).1 = (ix.roster.set key vector).1 ∧
      ix.Becomes (ix.executeInOrder order (.set key vector)).2 (ix.roster.set key vector).2 := by
  by_cases hv : vector.length = ix.dimension
  · by_cases hk : key ∈ ix.keys
    · obtain ⟨slot, hs⟩ := List.mem_iff_getElem?.1 hk
      obtain ⟨next, he, hb⟩ := wf.set_of_mem hv hs
      simpa [executeInOrder, Roster.set, he, hv, hk, wf.keys_roster] using hb
    · by_cases hfull : ix.roster.Full
      · have he := wf.set_of_full hv hk hfull
        simpa [executeInOrder, Roster.set, he, hv, hk, wf.keys_roster, hfull] using wf.becomes_self
      · obtain ⟨next, he, hb⟩ := wf.set_of_not_mem hv hk hfull
        simpa [executeInOrder, Roster.set, he, hv, hk, wf.keys_roster, hfull] using hb
  · have he : ix.set key vector = _ := set_of_length_ne hv
    simpa [executeInOrder, Roster.set, he, hv] using wf.becomes_self

theorem execute_remove (wf : ix.WellFormed) (order : KeyOrder K) (key : K) :
    (ix.executeInOrder order (.remove key)).1 = .ok (.vector (ix.roster.vector? key)) ∧
      ix.Becomes (ix.executeInOrder order (.remove key)).2 (ix.roster.without key) := by
  obtain ⟨next, he, hb⟩ := wf.exists_removeInOrder order key
  rw [executeInOrder, he]
  exact ⟨rfl, hb⟩

theorem becomes_executeInOrder (wf : ix.WellFormed) (order : KeyOrder K) (c : Command K α) :
    ix.Becomes (ix.executeInOrder order c).2 (ix.roster.execute c).2 := by
  cases c with
  | set key vector => exact (wf.execute_set order key vector).2
  | remove key => exact (wf.execute_remove order key).2
  | clear => exact ix.becomes_clear
  | get | contains | keys | entries | size | isEmpty | dimension | metric | nearest
    | nearestWithDistances => exact wf.becomes_self

/-- The order of renumbering does not show in what an index stands for. -/
theorem becomes_runInOrders {ix : Index K α} (wf : ix.WellFormed)
    (cs : List (KeyOrder K × Command K α)) :
    ix.Becomes (ix.runInOrders cs).2 (ix.roster.run (cs.map Prod.snd)).2 := by
  induction cs generalizing ix with
  | nil => exact wf.becomes_self
  | cons p cs ih =>
      obtain ⟨order, c⟩ := p
      have hnext := wf.becomes_executeInOrder order c
      have hlast := ih hnext.wellFormed
      rw [hnext.roster_eq] at hlast
      exact ⟨hlast.wellFormed, hlast.roster_eq, hlast.backend_eq.trans hnext.backend_eq⟩

end WellFormed

end Vicinity.Index
