import Vicinity.Proofs.Roster
import Vicinity.Proofs.Rows
import Vicinity.Proofs.SlotTable

namespace Vicinity.Index

variable {K α : Type} [DecidableEq K] [Hashable K]

/-- The keys, the slots and the cells of an index agree. -/
structure WellFormed (ix : Index K α) : Prop where
  inverse : Inverse ix.keys ix.slots
  cells_length : ix.cells.length = ix.keys.length * ix.dimension
  addressable : ix.cells.length < addressLimit

def roster (ix : Index K α) : Roster K α := ⟨ix.dimension, ix.metric, ix.entries⟩

@[simp] theorem roster_dimension (ix : Index K α) : ix.roster.dimension = ix.dimension := rfl

@[simp] theorem roster_metric (ix : Index K α) : ix.roster.metric = ix.metric := rfl

@[simp] theorem roster_entries (ix : Index K α) : ix.roster.entries = ix.entries := rfl

/-- One index turns into another, which stands for the given roster and ranks as before. -/
structure Becomes (ix next : Index K α) (r : Roster K α) : Prop where
  wellFormed : next.WellFormed
  roster_eq : next.roster = r
  backend_eq : next.backend = ix.backend

theorem entries_eq {ix : Index K α} {es : List (K × List α)} (hkeys : es.map Prod.fst = ix.keys)
    (hrows : es.map Prod.snd = rows ix.dimension ix.dimension_pos ix.cells) : ix.entries = es :=
  (List.zip_of_prod hkeys hrows).symm

theorem emptyOn_eq_ok {dimension : Nat} {metric : Metric α} {backend : Backend} {ix : Index K α}
    (h : emptyOn dimension metric backend = .ok ix) :
    ix.WellFormed ∧ ix.roster = ⟨dimension, metric, []⟩ ∧ ix.backend = backend := by
  unfold emptyOn at h
  split at h
  · obtain rfl := Except.ok.inj h
    exact ⟨⟨Inverse.nil, by simp, Nat.zero_lt_succ _⟩, rfl, rfl⟩
  · cases h

namespace WellFormed

variable {ix : Index K α} {key : K} {slot : Nat}

theorem becomes_self (wf : ix.WellFormed) : ix.Becomes ix ix.roster := ⟨wf, rfl, rfl⟩

theorem length_rows (wf : ix.WellFormed) :
    (rows ix.dimension ix.dimension_pos ix.cells).length = ix.keys.length :=
  length_rows_eq wf.cells_length

theorem keys_roster (wf : ix.WellFormed) : ix.roster.keys = ix.keys :=
  List.map_fst_zip wf.length_rows.ge

theorem rows_roster (wf : ix.WellFormed) :
    ix.entries.map Prod.snd = rows ix.dimension ix.dimension_pos ix.cells :=
  List.map_snd_zip wf.length_rows.le

theorem length_entries (wf : ix.WellFormed) : ix.entries.length = ix.keys.length := by
  rw [← wf.keys_roster, Roster.keys, List.length_map]
  rfl

theorem nodup_keys_roster (wf : ix.WellFormed) : ix.roster.keys.Nodup := by
  rw [wf.keys_roster]
  exact wf.inverse.nodup

theorem getElem?_entries (wf : ix.WellFormed) (h : ix.keys[slot]? = some key) :
    ix.entries[slot]? =
      some (key, (ix.cells.drop (slot * ix.dimension)).take ix.dimension) := by
  obtain ⟨hlt, -⟩ := List.getElem?_eq_some_iff.1 h
  exact List.getElem?_zip_eq_some.2 ⟨h, getElem?_rows wf.cells_length hlt⟩

theorem end_le_length (wf : ix.WellFormed) (h : ix.keys[slot]? = some key) :
    slot * ix.dimension + ix.dimension ≤ ix.cells.length := by
  obtain ⟨hlt, -⟩ := List.getElem?_eq_some_iff.1 h
  rw [wf.cells_length, ← Nat.succ_mul]
  exact Nat.mul_le_mul_right ix.dimension hlt

theorem rowStart_eq (wf : ix.WellFormed) (h : ix.keys[slot]? = some key) :
    ix.rowStart slot = .ok (slot * ix.dimension) := by
  have hend := wf.end_le_length h
  have haddr := wf.addressable
  rw [rowStart, if_neg (by omega), if_neg (by omega)]

theorem row_eq (wf : ix.WellFormed) (h : ix.keys[slot]? = some key) :
    ix.row slot = .ok ((ix.cells.drop (slot * ix.dimension)).take ix.dimension) := by
  rw [row, wf.rowStart_eq h]
  rfl

theorem withoutRow_eq (wf : ix.WellFormed) (h : ix.keys[slot]? = some key) :
    ix.withoutRow slot = .ok (ix.cells.take (slot * ix.dimension) ++
      ix.cells.drop (slot * ix.dimension + ix.dimension)) := by
  rw [withoutRow, wf.rowStart_eq h]
  rfl

theorem overwriteRow_eq (wf : ix.WellFormed) (h : ix.keys[slot]? = some key) {vector : List α}
    (hv : vector.length = ix.dimension) :
    ix.overwriteRow slot vector = .ok (ix.cells.take (slot * ix.dimension) ++ vector ++
      ix.cells.drop (slot * ix.dimension + ix.dimension)) := by
  rw [overwriteRow, wf.rowStart_eq h]
  exact if_neg (not_not.2 hv)

theorem vector?_eq (wf : ix.WellFormed) (h : ix.keys[slot]? = some key) :
    ix.roster.vector? key = some ((ix.cells.drop (slot * ix.dimension)).take ix.dimension) :=
  Roster.lookup_of_getElem? wf.nodup_keys_roster (wf.getElem?_entries h)

theorem vector?_eq_none (wf : ix.WellFormed) (h : key ∉ ix.keys) :
    ix.roster.vector? key = none := by
  rwa [Roster.vector?_eq_none_iff, wf.keys_roster]

theorem get_eq (wf : ix.WellFormed) (key : K) : ix.get key = .ok (ix.roster.vector? key) := by
  rw [get]
  cases hs : ix.slots[key]? with
  | none => rw [wf.vector?_eq_none (wf.inverse.getElem?_eq_none_iff.1 hs)]
  | some slot =>
      have hk := (wf.inverse key slot).1 hs
      rw [wf.vector?_eq hk]
      exact congrArg (Except.map some) (wf.row_eq hk)

theorem contains_eq (wf : ix.WellFormed) (key : K) :
    ix.contains key = decide (key ∈ ix.roster.keys) := by
  rw [wf.keys_roster]
  exact wf.inverse.contains_eq

theorem full_iff (wf : ix.WellFormed) :
    ix.roster.Full ↔ addressLimit ≤ ix.cells.length + ix.dimension := by
  rw [Roster.Full, wf.cells_length, ← Nat.succ_mul, ← wf.length_entries]
  rfl

end WellFormed

end Vicinity.Index
