import Vicinity.Index.Command
import Vicinity.Proofs.Standing

namespace Vicinity

def Neighbor.noFarther {K : Type} (m n : Neighbor K) : Bool :=
  Candidate.compareDistance m.distance n.distance != .gt

theorem Neighbor.noFarther_iff {K : Type} {m n : Neighbor K} :
    m.noFarther n = true ↔ m.distance.place ≤ n.distance.place := by
  rw [noFarther, Candidate.compareDistance_eq, bne_iff_ne, compare_le_iff_le]

theorem Neighbor.noFarther_trans {K : Type} (l m n : Neighbor K) (hlm : l.noFarther m)
    (hmn : m.noFarther n) : l.noFarther n :=
  noFarther_iff.2 ((noFarther_iff.1 hlm).trans (noFarther_iff.1 hmn))

theorem Neighbor.noFarther_total {K : Type} (m n : Neighbor K) :
    m.noFarther n || n.noFarther m := by
  rw [Bool.or_eq_true, noFarther_iff, noFarther_iff]
  exact le_total _ _

/-- What an index stands for: vectors under distinct keys, in the order in which the keys came. -/
structure Roster (K α : Type) where
  dimension : Nat
  metric : Metric α
  entries : List (K × List α)

namespace Roster

variable {K α : Type}

def keys (r : Roster K α) : List K := r.entries.map Prod.fst

def Full (r : Roster K α) : Prop := addressLimit ≤ (r.entries.length + 1) * r.dimension

instance (r : Roster K α) : Decidable r.Full := inferInstanceAs (Decidable (_ ≤ _))

def neighbors (r : Roster K α) (query : List α) : List (Neighbor K) :=
  r.entries.map fun e => ⟨e.1, r.metric.distance query e.2⟩

theorem map_key_neighbors (r : Roster K α) (query : List α) :
    (r.neighbors query).map Neighbor.key = r.keys := by
  rw [neighbors, List.map_map]
  rfl

theorem getElem?_keys_of_mem (r : Roster K α) {query : List α} {p : Neighbor K × Nat}
    (hp : p ∈ (r.neighbors query).zipIdx) : r.keys[p.2]? = some p.1.key := by
  have hn := List.mk_mem_zipIdx_iff_getElem?.1 hp
  rw [← r.map_key_neighbors query, List.getElem?_map, hn]
  rfl

/-- All entries, nearest first. Equally near ones stay in the order of the roster. -/
def ranking (r : Roster K α) (query : List α) : List (Neighbor K) :=
  (r.neighbors query).mergeSort Neighbor.noFarther

def nearest (r : Roster K α) (query : List α) (k : Nat) : Except Error (List (Neighbor K)) :=
  if query.length = r.dimension then .ok ((r.ranking query).take k)
  else .error (.dimensionMismatch r.dimension query.length)

def append (r : Roster K α) (key : K) (vector : List α) : Roster K α :=
  { r with entries := r.entries ++ [(key, vector)] }

def clear (r : Roster K α) : Roster K α := { r with entries := [] }

variable [DecidableEq K]

def vector? (r : Roster K α) (key : K) : Option (List α) := r.entries.lookup key

def overwrite (r : Roster K α) (key : K) (vector : List α) : Roster K α :=
  { r with entries := r.entries.map fun e => if e.1 = key then (key, vector) else e }

def without (r : Roster K α) (key : K) : Roster K α :=
  { r with entries := r.entries.filter fun e => e.1 ≠ key }

/-- There is no room for a new key once one more row would outgrow the addresses. A list without
this limit is `setUnlimited`. -/
def set (r : Roster K α) (key : K) (vector : List α) :
    Except Error (Reply K α) × Roster K α :=
  if vector.length ≠ r.dimension then (.error (.dimensionMismatch r.dimension vector.length), r)
  else if key ∈ r.keys then (.ok (.flag true), r.overwrite key vector)
  else if r.Full then (.error (.defect .addressOverflow), r)
  else (.ok (.flag false), r.append key vector)

def execute (r : Roster K α) : Command K α → Except Error (Reply K α) × Roster K α
  | .set key vector => r.set key vector
  | .remove key => (.ok (.vector (r.vector? key)), r.without key)
  | .clear => (.ok .done, r.clear)
  | .get key => (.ok (.vector (r.vector? key)), r)
  | .contains key => (.ok (.flag (decide (key ∈ r.keys))), r)
  | .keys => (.ok (.keys r.keys), r)
  | .entries => (.ok (.entries r.entries), r)
  | .size => (.ok (.count r.entries.length), r)
  | .isEmpty => (.ok (.flag r.entries.isEmpty), r)
  | .dimension => (.ok (.count r.dimension), r)
  | .metric => (.ok (.name r.metric.name), r)
  | .nearest query k => ((r.nearest query k).map fun ns => .keys (ns.map Neighbor.key), r)
  | .nearestWithDistances query k => ((r.nearest query k).map .neighbors, r)

def run (r : Roster K α) : List (Command K α) → List (Except Error (Reply K α)) × Roster K α
  | [] => ([], r)
  | c :: cs =>
    let (reply, r) := r.execute c
    let (replies, r) := r.run cs
    (reply :: replies, r)

section Entries

variable {es : List (K × List α)} {key : K} {slot : Nat} {v : List α}

omit [DecidableEq K] in
theorem exists_split (hes : (es.map Prod.fst).Nodup) (h : es[slot]? = some (key, v)) :
    ∃ before after, es = before ++ (key, v) :: after ∧ before.length = slot ∧
      (∀ e ∈ before, e.1 ≠ key) ∧ ∀ e ∈ after, e.1 ≠ key := by
  obtain ⟨hlt, he⟩ := List.getElem?_eq_some_iff.1 h
  have hsplit : es = es.take slot ++ (key, v) :: es.drop (slot + 1) := by
    rw [← he, ← List.drop_eq_getElem_cons hlt, List.take_append_drop]
  rw [hsplit, List.map_append, List.map_cons, List.nodup_append, List.nodup_cons] at hes
  refine ⟨es.take slot, es.drop (slot + 1), hsplit, List.length_take_of_le hlt.le, ?_, ?_⟩
  · intro e hmem
    exact hes.2.2 e.1 (List.mem_map_of_mem hmem) key List.mem_cons_self
  · intro e hmem hkey
    exact hes.2.1.1 (List.mem_map.2 ⟨e, hmem, hkey⟩)

theorem lookup_of_getElem? (hes : (es.map Prod.fst).Nodup) (h : es[slot]? = some (key, v)) :
    es.lookup key = some v := by
  obtain ⟨before, after, rfl, -, hbefore, -⟩ := exists_split hes h
  refine List.lookup_eq_some_iff.2 ⟨before, after, rfl, fun e he => ?_⟩
  exact bne_iff_ne.2 (hbefore e he).symm

theorem lookup_eq_none_iff : es.lookup key = none ↔ key ∉ es.map Prod.fst := by
  rw [List.lookup_eq_none_iff, List.mem_map]
  constructor
  · rintro h ⟨e, he, rfl⟩
    exact bne_iff_ne.1 (h e he) rfl
  · intro h e he
    exact bne_iff_ne.2 fun hk => h ⟨e, he, hk.symm⟩

theorem lookup_cons_eq (a : K) (w : List α) (es : List (K × List α)) (k : K) :
    ((a, w) :: es).lookup k = if k = a then some w else es.lookup k := by
  rw [List.lookup_cons]
  split <;> simp_all

theorem lookup_overwrite (es : List (K × List α)) (key : K) (v : List α) (k : K) :
    (es.map fun e => if e.1 = key then (key, v) else e).lookup k =
      if k = key then (es.lookup key).map fun _ => v else es.lookup k := by
  induction es with
  | nil => simp
  | cons e es ih =>
      obtain ⟨a, w⟩ := e
      rw [List.map_cons]
      by_cases ha : a = key
      · rw [if_pos ha, lookup_cons_eq, lookup_cons_eq, lookup_cons_eq, ih, ha, if_pos rfl]
        split_ifs <;> rfl
      · rw [if_neg ha, lookup_cons_eq, lookup_cons_eq, lookup_cons_eq, ih, if_neg (Ne.symm ha)]
        split_ifs <;> simp_all

theorem lookup_filter_ne (es : List (K × List α)) (key k : K) :
    (es.filter fun e => e.1 ≠ key).lookup k = if k = key then none else es.lookup k := by
  induction es with
  | nil => simp
  | cons e es ih =>
      obtain ⟨a, w⟩ := e
      by_cases ha : a = key
      · rw [List.filter_cons_of_neg (by simpa using ha), ih, lookup_cons_eq, ha]
        split_ifs <;> rfl
      · rw [List.filter_cons_of_pos (by simpa using ha), lookup_cons_eq, lookup_cons_eq, ih]
        split_ifs <;> simp_all

theorem map_overwrite_eq_set (hes : (es.map Prod.fst).Nodup) (h : es[slot]? = some (key, v))
    (w : List α) :
    es.map (fun e => if e.1 = key then (key, w) else e) = es.set slot (key, w) := by
  obtain ⟨before, after, rfl, rfl, hbefore, hafter⟩ := exists_split hes h
  have hkeep (l : List (K × List α)) (hl : ∀ e ∈ l, e.1 ≠ key) :
      l.map (fun e => if e.1 = key then (key, w) else e) = l :=
    (List.map_congr_left fun e he => if_neg (hl e he)).trans (List.map_id' l)
  simp [hkeep before hbefore, hkeep after hafter]

theorem filter_ne_eq_eraseIdx (hes : (es.map Prod.fst).Nodup) (h : es[slot]? = some (key, v)) :
    es.filter (fun e => e.1 ≠ key) = es.eraseIdx slot := by
  obtain ⟨before, after, rfl, rfl, hbefore, hafter⟩ := exists_split hes h
  have hkeep (l : List (K × List α)) (hl : ∀ e ∈ l, e.1 ≠ key) :
      l.filter (fun e => e.1 ≠ key) = l :=
    List.filter_eq_self.2 fun e he => by simpa using hl e he
  rw [List.filter_append, List.filter_cons_of_neg (by simp), hkeep before hbefore,
    hkeep after hafter, List.eraseIdx_append_of_length_le le_rfl, Nat.sub_self,
    List.eraseIdx_cons_zero]

end Entries

section Lookup

variable {r : Roster K α} {key : K}

@[simp] theorem keys_overwrite (r : Roster K α) (key : K) (v : List α) :
    (r.overwrite key v).keys = r.keys := by
  rw [keys, overwrite, List.map_map]
  apply List.map_congr_left
  intro e _
  by_cases he : e.1 = key <;> simp [he]

omit [DecidableEq K] in
@[simp] theorem keys_append (r : Roster K α) (key : K) (v : List α) :
    (r.append key v).keys = r.keys ++ [key] :=
  List.map_append

@[simp] theorem keys_without (r : Roster K α) (key : K) :
    (r.without key).keys = r.keys.filter fun k => k ≠ key := by
  rw [keys, keys, List.filter_map]
  rfl

theorem vector?_eq_none_iff : r.vector? key = none ↔ key ∉ r.keys := lookup_eq_none_iff

theorem mem_keys_iff_vector? : key ∈ r.keys ↔ ∃ v, r.vector? key = some v := by
  rw [← Option.ne_none_iff_exists', ne_eq, vector?_eq_none_iff, not_not]

theorem vector?_overwrite (h : key ∈ r.keys) (v : List α) (k : K) :
    (r.overwrite key v).vector? k = if k = key then some v else r.vector? k := by
  obtain ⟨w, hw⟩ := mem_keys_iff_vector?.1 h
  rw [vector?] at hw
  rw [vector?, overwrite, lookup_overwrite, hw]
  rfl

theorem vector?_append (h : key ∉ r.keys) (v : List α) (k : K) :
    (r.append key v).vector? k = if k = key then some v else r.vector? k := by
  rw [vector?, append, List.lookup_append, lookup_cons_eq]
  split_ifs with hk
  · rw [hk, lookup_eq_none_iff.2 h]
    rfl
  · exact Option.or_none

theorem vector?_without (r : Roster K α) (key k : K) :
    (r.without key).vector? k = if k = key then none else r.vector? k :=
  lookup_filter_ne r.entries key k

theorem set_cases (r : Roster K α) (key : K) (v : List α) :
    (∃ e, r.set key v = (.error e, r)) ∨
      (key ∈ r.keys ∧ r.set key v = (.ok (.flag true), r.overwrite key v)) ∨
      (key ∉ r.keys ∧ r.set key v = (.ok (.flag false), r.append key v)) := by
  rw [set]
  split_ifs with hlen hkey hfull
  · exact .inl ⟨_, rfl⟩
  · exact .inr (.inl ⟨hkey, rfl⟩)
  · exact .inl ⟨_, rfl⟩
  · exact .inr (.inr ⟨hkey, rfl⟩)

end Lookup

theorem execute_keeps (r : Roster K α) (c : Command K α) :
    (r.execute c).2.dimension = r.dimension ∧ (r.execute c).2.metric = r.metric := by
  cases c with
  | set key vector =>
      rcases r.set_cases key vector with ⟨e, he⟩ | ⟨-, he⟩ | ⟨-, he⟩ <;> rw [execute, he] <;>
        exact ⟨rfl, rfl⟩
  | remove | clear | get | contains | keys | entries | size | isEmpty | dimension | metric | nearest
    | nearestWithDistances => exact ⟨rfl, rfl⟩

theorem without_eq_self {r : Roster K α} {key : K} (h : key ∉ r.keys) : r.without key = r := by
  apply congrArg (Roster.mk r.dimension r.metric)
  apply List.filter_eq_self.2
  intro e he
  rw [decide_eq_true_eq]
  rintro rfl
  exact h (List.mem_map_of_mem he)

end Roster

end Vicinity
