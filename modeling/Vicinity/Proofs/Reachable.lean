import Vicinity.Index.Session
import Vicinity.Proofs.Simulation

namespace Vicinity

variable {K α : Type} [DecidableEq K] [Hashable K] [Element α]

namespace Index

/-- What some constructor answers. -/
inductive Built : Index K α → Prop
  | empty {dimension} {ix} (h : Index.empty dimension = .ok ix) : Built ix
  | emptyWith {dimension metric} {ix} (h : Index.emptyWith dimension metric = .ok ix) : Built ix
  | emptyOn {dimension metric backend} {ix} (h : Index.emptyOn dimension metric backend = .ok ix) :
      Built ix
  | ofConfig {c} {ix} (h : Index.ofConfig c = .ok ix) : Built ix

theorem Built.eq_emptyOn {ix : Index K α} (h : Built ix) :
    ∃ dimension metric backend, Index.emptyOn dimension metric backend = .ok ix := by
  cases h with
  | empty h | emptyWith h | emptyOn h => exact ⟨_, _, _, h⟩
  | @ofConfig c _ h =>
      unfold Index.ofConfig at h
      cases hv : c.validate with
      | error e => simp [hv, bind, Except.bind] at h
      | ok => exact ⟨c.dimension, c.metric.metric, .standard, by
        simpa [hv, bind, Except.bind, Index.emptyWith] using h⟩

theorem Built.wellFormed {ix : Index K α} (h : Built ix) : ix.WellFormed := by
  obtain ⟨_, _, _, hok⟩ := h.eq_emptyOn
  exact (emptyOn_eq_ok hok).1

structure Consistent (ix : Index K α) : Prop where
  one_le_dimension : 1 ≤ ix.dimension
  length_cells : ix.cells.length = ix.keys.length * ix.dimension
  nodup_keys : ix.keys.Nodup
  slots_iff : ∀ (key : K) (slot : Nat),
    ix.slots[key]? = some slot ↔ ∃ h : slot < ix.keys.length, ix.keys[slot] = key
  size_slots : ix.slots.size = ix.keys.length
  slots_perm : (ix.slots.toList.map Prod.snd).Perm (List.range ix.keys.length)

omit [Element α] in
theorem WellFormed.consistent {ix : Index K α} (wf : ix.WellFormed) : ix.Consistent where
  one_le_dimension := ix.dimension_pos
  length_cells := wf.cells_length
  nodup_keys := wf.inverse.nodup
  slots_iff key slot := (wf.inverse key slot).trans List.getElem?_eq_some_iff
  size_slots := wf.inverse.size_eq
  slots_perm := wf.inverse.map_snd_toList_perm

end Index

namespace Session

omit [Element α] in
theorem stepInOrder_cases {s t : Session K α} {order : KeyOrder K} {h : Nat} {a : Action K α}
    {outcome : Except Error (Outcome K α)} (moved : s.stepInOrder order h a = some (outcome, t)) :
    ∃ ix, s.index? h = some ix ∧
      ((∃ c, a = .command c ∧ outcome = (ix.executeInOrder order c).1.map .reply ∧
          t.indexes = s.indexes.set h (ix.executeInOrder order c).2) ∨
        (a = .copy ∧ outcome = .ok (.handle s.indexes.length) ∧
          t.indexes = s.indexes ++ [ix])) := by
  unfold stepInOrder at moved
  cases hi : s.index? h with
  | none => simp [hi] at moved
  | some ix =>
      rw [hi] at moved
      cases a with
      | command c =>
          obtain ⟨rfl, rfl⟩ := Prod.mk.inj (Option.some.inj moved)
          exact ⟨ix, rfl, .inl ⟨c, rfl, rfl, rfl⟩⟩
      | copy =>
          obtain ⟨rfl, rfl⟩ := Prod.mk.inj (Option.some.inj moved)
          exact ⟨ix, rfl, .inr ⟨rfl, rfl, rfl⟩⟩

omit [Element α] in
theorem forall_indexes_stepInOrder {P : Index K α → Prop}
    (hP : ∀ {ix} order c, P ix → P (ix.executeInOrder order c).2) {s t : Session K α}
    {order : KeyOrder K} {h : Nat} {a : Action K α} {outcome : Except Error (Outcome K α)}
    (hs : ∀ ix ∈ s.indexes, P ix) (moved : s.stepInOrder order h a = some (outcome, t)) :
    ∀ ix ∈ t.indexes, P ix := by
  obtain ⟨ix, hi, hcase⟩ := stepInOrder_cases moved
  have hix := hs ix (List.mem_of_getElem? hi)
  rcases hcase with ⟨c, -, -, ht⟩ | ⟨-, -, ht⟩
  · rw [ht]
    intro next hnext
    rcases List.mem_or_eq_of_mem_set hnext with hnext | rfl
    · exact hs next hnext
    · exact hP order c hix
  · rw [ht]
    intro next hnext
    rcases List.mem_append.1 hnext with hnext | hnext
    · exact hs next hnext
    · rwa [List.mem_singleton.1 hnext]

/-- What commands and copies make of a fresh index, whatever order removals renumber in. -/
inductive Reachable : Session K α → Prop
  | start {ix : Index K α} (built : ix.Built) : Reachable (.start ix)
  | step {s t : Session K α} {order h a outcome} (before : Reachable s)
      (moved : s.stepInOrder order h a = some (outcome, t)) : Reachable t

theorem Reachable.wellFormed {s : Session K α} (hs : s.Reachable) :
    ∀ ix ∈ s.indexes, ix.WellFormed := by
  induction hs with
  | start built =>
      intro ix hix
      rw [List.mem_singleton.1 hix]
      exact built.wellFormed
  | step before moved ih =>
      exact forall_indexes_stepInOrder
        (fun order c wf => (wf.becomes_executeInOrder order c).wellFormed) ih moved

theorem Reachable.runInOrders {ix : Index K α} (hs : Reachable ⟨[ix]⟩)
    (cs : List (KeyOrder K × Command K α)) : Reachable ⟨[(ix.runInOrders cs).2]⟩ := by
  induction cs generalizing ix with
  | nil => exact hs
  | cons p cs ih =>
      have moved : (⟨[ix]⟩ : Session K α).stepInOrder p.1 0 (.command p.2) =
        some (_, ⟨[(ix.executeInOrder p.1 p.2).2]⟩) := rfl
      exact ih (hs.step moved)

theorem exists_reachable {dimension : Nat} (hd : 0 < dimension) (metric : Metric α)
    (backend : Backend) (cs : List (Command K α)) :
    ∃ ix : Index K α, Reachable ⟨[ix]⟩ ∧ ix.backend = backend ∧
      ix.roster = ((Roster.mk dimension metric []).run cs).2 := by
  have hok : Index.emptyOn dimension metric backend =
      .ok (⟨dimension, hd, metric, backend, [], ∅, []⟩ : Index K α) := dif_pos hd
  have hnext := (Index.emptyOn_eq_ok hok).1.becomes_runInOrders (cs.map fun c => (.standard, c))
  rw [List.map_map, show (Prod.snd ∘ fun c => (KeyOrder.standard (K := K), c)) = id from rfl,
    List.map_id] at hnext
  exact ⟨_, (Reachable.start (.emptyOn hok)).runInOrders _, hnext.backend_eq, hnext.roster_eq⟩

theorem Reachable.keys_eq {ix : Index K α} (hs : Reachable ⟨[ix]⟩) {r : Roster K α}
    (h : ix.roster = r) : ix.keys = r.keys := by
  rw [← h, (hs.wellFormed ix List.mem_cons_self).keys_roster]

/-- Whatever is set, removed, cleared and copied, from any constructor on, each index keeps a row
for each key and a slot for each row. -/
theorem Reachable.index_consistent {s : Session K α} (hs : s.Reachable) {ix : Index K α}
    (hix : ix ∈ s.indexes) : ix.Consistent :=
  (hs.wellFormed ix hix).consistent

theorem consistent_after_removal :
    ∃ ix : Index Nat UInt8, Reachable ⟨[ix]⟩ ∧ ix.keys = [9] ∧ ix.Consistent := by
  obtain ⟨ix, hs, -, hr⟩ := exists_reachable (K := Nat) (by decide : 0 < 2)
    (.manhattan : Metric UInt8) .standard [.set 7 [1, 2], .set 9 [3, 4], .remove 7]
  exact ⟨ix, hs, hs.keys_eq hr, hs.index_consistent List.mem_cons_self⟩

end Session

end Vicinity
