import Vicinity.Proofs.History
import Vicinity.Proofs.Reachable
import Vicinity.Proofs.TopK

namespace Vicinity

variable {K α : Type} [DecidableEq K]

structure Roster.Recorded (r : Roster K α) (h : History K α) : Prop where
  vector?_iff : ∀ key v, r.vector? key = some v ↔ h.Holds key v
  mem_keys_iff : ∀ key, key ∈ r.keys ↔ ∃ i, h.Lives key i
  ordered : r.keys.Pairwise fun key₁ key₂ =>
    ∀ i₁ i₂, h.Begins key₁ i₁ → h.Begins key₂ i₂ → i₁ < i₂

namespace Roster.Recorded

variable {r next : Roster K α} {h : History K α} {x : Record K α} {key : K} {v : List α}

theorem start (dimension : Nat) (metric : Metric α) :
    (Roster.mk dimension metric []).Recorded ([] : History K α) where
  vector?_iff key v := by simp [vector?, History.Holds, History.Sets]
  mem_keys_iff key := by simp [keys, History.Lives, History.Sets]
  ordered := List.Pairwise.nil

theorem ordered_append (hr : r.Recorded h) {keys : List K} (hsub : keys.Sublist r.keys)
    (hends : ∀ key ∈ keys, ¬x.Ends key) :
    keys.Pairwise fun key₁ key₂ =>
      ∀ i₁ i₂, (h ++ [x]).Begins key₁ i₁ → (h ++ [x]).Begins key₂ i₂ → i₁ < i₂ := by
  apply (hr.ordered.sublist hsub).imp_of_mem
  intro a b ha hb hlt i₁ i₂
  obtain ⟨_, hlive₁⟩ := (hr.mem_keys_iff a).1 (hsub.subset ha)
  obtain ⟨_, hlive₂⟩ := (hr.mem_keys_iff b).1 (hsub.subset hb)
  rw [History.begins_append_iff (hends a ha) hlive₁, History.begins_append_iff (hends b hb) hlive₂]
  exact hlt i₁ i₂

theorem of_not_sets (hr : r.Recorded h) (hsets : ∀ key v, ¬x.Sets key v)
    (hgone : ∀ key, x.Ends key → key ∉ next.keys)
    (hkept : ∀ key, ¬x.Ends key → next.vector? key = r.vector? key)
    (hsub : next.keys.Sublist r.keys) : next.Recorded (h ++ [x]) where
  vector?_iff key v := by
    by_cases hx : x.Ends key
    · simp [vector?_eq_none_iff.2 (hgone key hx), History.not_holds_append_of_ends hx]
    · rw [hkept key hx, hr.vector?_iff, History.holds_append_of_quiet (hsets key) hx]
  mem_keys_iff key := by
    by_cases hx : x.Ends key
    · simp [hgone key hx, History.not_lives_append_of_ends hx]
    · have hmem : key ∈ next.keys ↔ key ∈ r.keys := by
        rw [mem_keys_iff_vector?, mem_keys_iff_vector?, hkept key hx]
      simp [hmem, hr.mem_keys_iff, History.lives_append_iff hx, hsets]
  ordered := hr.ordered_append hsub fun key hk hx => hgone key hx hk

theorem of_sets (hr : r.Recorded h) (hx : x.Sets key v)
    (hkeys : next.keys = if key ∈ r.keys then r.keys else r.keys ++ [key])
    (hvec : ∀ k, next.vector? k = if k = key then some v else r.vector? k) :
    next.Recorded (h ++ [x]) where
  vector?_iff k w := by
    rw [hvec]
    split_ifs with hk
    · rw [hk, History.holds_append_of_sets hx, Option.some.injEq, eq_comm]
    · have hsets (w : List α) : ¬x.Sets k w := fun hw => hk (hw.eq hx).1
      rw [History.holds_append_of_quiet hsets hx.not_ends, hr.vector?_iff]
  mem_keys_iff k := by
    have hmem : k ∈ next.keys ↔ k ∈ r.keys ∨ k = key := by
      rw [hkeys]
      split_ifs with hk
      · exact (or_iff_left_of_imp fun h => h ▸ hk).symm
      · simp
    have hset : (∃ w, x.Sets k w) ↔ k = key := by
      constructor
      · rintro ⟨w, hw⟩
        exact (hw.eq hx).1
      · rintro rfl
        exact ⟨v, hx⟩
    simp only [hmem, hr.mem_keys_iff, History.lives_append_iff hx.not_ends, hset, exists_or,
      exists_eq_left]
  ordered := by
    have hold := hr.ordered_append (.refl _) fun key _ => hx.not_ends
    rw [hkeys]
    split_ifs with hk
    · exact hold
    · refine List.pairwise_append.2 ⟨hold, List.pairwise_singleton _ _, ?_⟩
      intro a ha b hb i₁ i₂ h₁ h₂
      obtain ⟨_, hlive⟩ := (hr.mem_keys_iff a).1 ha
      rw [List.mem_singleton.1 hb] at h₂
      rw [h₂.eq_length hx.not_ends (by simpa [hr.mem_keys_iff] using hk)]
      exact ((History.begins_append_iff hx.not_ends hlive).1 h₁).1.lt_length

theorem of_quiet (hr : r.Recorded h) (hsets : ∀ key v, ¬x.Sets key v) (hends : ∀ key, ¬x.Ends key) :
    r.Recorded (h ++ [x]) :=
  hr.of_not_sets hsets (fun key hx => absurd hx (hends key)) (fun _ _ => rfl) (.refl _)

theorem execute (hr : r.Recorded h) (c : Command K α) {reply : Except Error (Reply K α)}
    (hreply : ∀ key v, c = .set key v → reply = (r.set key v).1) :
    (r.execute c).2.Recorded (h ++ [(c, reply)]) := by
  cases c with
  | set key v =>
      obtain rfl := hreply key v rfl
      rcases r.set_cases key v with ⟨e, he⟩ | ⟨hk, he⟩ | ⟨hk, he⟩
      · rw [Roster.execute, he]
        exact hr.of_quiet (by simp [Record.Sets]) (by simp [Record.Ends])
      · rw [Roster.execute, he]
        exact hr.of_sets ⟨_, rfl⟩ (by simp [hk]) (vector?_overwrite hk v)
      · rw [Roster.execute, he]
        exact hr.of_sets ⟨_, rfl⟩ (by simp [hk]) (vector?_append hk v)
  | remove key =>
      apply hr.of_not_sets (by simp [Record.Sets])
      · simp [Record.Ends, Roster.execute]
      · intro k hk
        rw [Roster.execute, vector?_without, if_neg]
        rintro rfl
        exact hk (.inl rfl)
      · rw [Roster.execute, keys_without]
        exact List.filter_sublist
  | clear =>
      apply hr.of_not_sets (by simp [Record.Sets])
      · simp [Roster.execute, clear, keys]
      · exact fun k hk => absurd (.inr rfl) hk
      · exact List.nil_sublist _
  | get | contains | keys | entries | size | isEmpty | dimension | metric | nearest
    | nearestWithDistances =>
      exact hr.of_quiet (by simp [Record.Sets]) (by simp [Record.Ends])

theorem before_iff (hr : r.Recorded h) {key₁ key₂ : K} {i₁ i₂ : Nat} (h₁ : h.Begins key₁ i₁)
    (h₂ : h.Begins key₂ i₂) : r.keys.idxOf key₁ < r.keys.idxOf key₂ ↔ i₁ < i₂ := by
  apply idxOf_lt_iff hr.ordered
  · exact (hr.mem_keys_iff key₁).2 ⟨i₁, h₁.1⟩
  · exact (hr.mem_keys_iff key₂).2 ⟨i₂, h₂.1⟩
  · exact fun hlt => hlt i₁ i₂ h₁ h₂
  · exact fun hlt => hlt i₂ i₁ h₂ h₁
  · rintro rfl
    exact IsLeast.unique h₁ h₂

end Roster.Recorded

namespace Index

variable [Hashable K]

def history (ix : Index K α) (cs : List (KeyOrder K × Command K α)) : History K α :=
  (cs.map Prod.snd).zip (ix.runInOrders cs).1

theorem WellFormed.recorded_runInOrders {ix : Index K α} (wf : ix.WellFormed) {h : History K α}
    (hr : ix.roster.Recorded h) (cs : List (KeyOrder K × Command K α)) :
    (ix.runInOrders cs).2.roster.Recorded (h ++ ix.history cs) := by
  -- The history behind the run grows by one record with each command.
  induction cs generalizing ix h with
  | nil =>
      rw [history, List.map_nil, List.zip_nil_left, List.append_nil]
      exact hr
  | cons p cs ih =>
      obtain ⟨order, c⟩ := p
      have hnext := wf.becomes_executeInOrder order c
      have hstep :
          (ix.roster.execute c).2.Recorded (h ++ [(c, (ix.executeInOrder order c).1)]) := by
        apply hr.execute
        rintro key v rfl
        exact (wf.execute_set order key v).1
      rw [← hnext.roster_eq] at hstep
      have hlast := ih hnext.wellFormed hstep
      rw [List.append_assoc] at hlast
      exact hlast

/-- The contents of an index and the order of its keys are what a history makes them. -/
structure Follows (ix : Index K α) (h : History K α) : Prop where
  get_iff : ∀ key v, ix.get key = .ok (some v) ↔ h.Holds key v
  mem_keys_iff : ∀ key, key ∈ ix.keys ↔ ∃ i, h.Begins key i
  before_iff : ∀ key₁ key₂ i₁ i₂, h.Begins key₁ i₁ → h.Begins key₂ i₂ →
    (ix.keys.idxOf key₁ < ix.keys.idxOf key₂ ↔ i₁ < i₂)
  tie_iff : ix.backend.Sound → ∀ query k, query.length = ix.dimension →
    ∃ ns, ix.nearestWithDistances query k = .ok ns ∧
      ix.nearest query k = .ok (ns.map Neighbor.key) ∧
      ∀ key₁ key₂ v₁ v₂ i₁ i₂, h.Holds key₁ v₁ → h.Holds key₂ v₂ →
        h.Begins key₁ i₁ → h.Begins key₂ i₂ →
        (ix.metric.distance query v₁).place = (ix.metric.distance query v₂).place →
        key₁ ∈ ns.map Neighbor.key ∨ key₂ ∈ ns.map Neighbor.key →
        ((ns.map Neighbor.key).idxOf key₁ < (ns.map Neighbor.key).idxOf key₂ ↔ i₁ < i₂)
  keys_of_replaced : ∀ order key v, key ∈ ix.keys →
    (ix.executeInOrder order (.set key v)).2.keys = ix.keys
  keys_of_added : ∀ order key v reply, key ∉ ix.keys →
    (ix.executeInOrder order (.set key v)).1 = .ok reply →
    (ix.executeInOrder order (.set key v)).2.keys = ix.keys ++ [key]
  keys_of_removed : ∀ order key,
    (ix.executeInOrder order (.remove key)).2.keys = ix.keys.filter fun k => k ≠ key

theorem Becomes.keys_eq {ix next : Index K α} {r : Roster K α} (hb : ix.Becomes next r) :
    next.keys = r.keys := by
  rw [← hb.roster_eq, hb.wellFormed.keys_roster]

theorem WellFormed.follows {ix : Index K α} (wf : ix.WellFormed) {h : History K α}
    (hr : ix.roster.Recorded h) : ix.Follows h where
  get_iff key v := by rw [wf.get_eq, Except.ok.injEq, hr.vector?_iff]
  mem_keys_iff key := by
    rw [← wf.keys_roster, hr.mem_keys_iff]
    constructor
    · rintro ⟨i, hi⟩
      exact History.exists_begins hi
    · rintro ⟨i, hi⟩
      exact ⟨i, hi.1⟩
  before_iff key₁ key₂ i₁ i₂ h₁ h₂ := by
    rw [← wf.keys_roster, hr.before_iff h₁ h₂]
  tie_iff hb query k hq := by
    refine ⟨_, wf.nearestWithDistances_eq_take hb hq k, wf.nearest_eq_take hb hq k, ?_⟩
    intro key₁ key₂ v₁ v₂ i₁ i₂ hv₁ hv₂ h₁ h₂ tie hmem
    have hranked := Roster.idxOf_ranking_lt_iff wf.nodup_keys_roster
      ((hr.vector?_iff key₁ v₁).2 hv₁) ((hr.vector?_iff key₂ v₂).2 hv₂) tie
    rw [List.map_take] at hmem ⊢
    rw [idxOf_take_lt_iff hmem, hranked, hr.before_iff h₁ h₂]
  keys_of_replaced order key v hk := by
    have hnext := (wf.execute_set order key v).2.keys_eq
    rw [← wf.keys_roster] at hk ⊢
    rw [hnext]
    rcases ix.roster.set_cases key v with ⟨e, he⟩ | ⟨-, he⟩ | ⟨hno, -⟩
    · rw [he]
    · rw [he, Roster.keys_overwrite]
    · exact absurd hk hno
  keys_of_added order key v reply hk hreply := by
    obtain ⟨hset, hnext⟩ := wf.execute_set order key v
    rw [hset] at hreply
    rw [← wf.keys_roster] at hk ⊢
    rw [hnext.keys_eq]
    rcases ix.roster.set_cases key v with ⟨e, he⟩ | ⟨hyes, -⟩ | ⟨-, he⟩
    · rw [he] at hreply
      cases hreply
    · exact absurd hyes hk
    · rw [he, Roster.keys_append]
  keys_of_removed order key := by
    rw [(wf.execute_remove order key).2.keys_eq, Roster.keys_without, wf.keys_roster]

variable [Element α]

/-- On a fresh index each run leaves the last accepted vectors, under keys in the order in which
their lifetimes began. -/
theorem Built.follows_history {ix : Index K α} (built : ix.Built)
    (cs : List (KeyOrder K × Command K α)) : (ix.runInOrders cs).2.Follows (ix.history cs) := by
  obtain ⟨dimension, metric, backend, hok⟩ := built.eq_emptyOn
  obtain ⟨wf, hr, -⟩ := emptyOn_eq_ok hok
  have hstart : ix.roster.Recorded [] := hr ▸ Roster.Recorded.start dimension metric
  exact (wf.becomes_runInOrders cs).wellFormed.follows (wf.recorded_runInOrders hstart cs)

theorem follows_history_after_return :
    ∃ (ix : Index Nat UInt8) (cs : List (KeyOrder Nat × Command Nat UInt8)),
      cs.map Prod.snd = [.set 7 [1, 2], .set 9 [3, 4], .remove 7, .set 7 [5, 6], .set 9 [0]] ∧
        ix.Built ∧ (ix.runInOrders cs).2.Follows (ix.history cs) ∧
        (ix.runInOrders cs).2.keys = [9, 7] ∧ (ix.history cs).Holds 7 [5, 6] ∧
        (ix.history cs).Holds 9 [3, 4] := by
  have hok : emptyOn 2 .manhattan .standard =
      .ok (⟨2, by decide, .manhattan, .standard, [], ∅, []⟩ : Index Nat UInt8) := rfl
  have built := Built.emptyOn hok
  have hlast := built.wellFormed.becomes_runInOrders
    ([.set 7 [1, 2], .set 9 [3, 4], .remove 7, .set 7 [5, 6], .set 9 [0]].map fun c =>
      (.standard, c))
  have follows := built.follows_history
    ([.set 7 [1, 2], .set 9 [3, 4], .remove 7, .set 7 [5, 6], .set 9 [0]].map fun c =>
      (.standard, c))
  have hget (key : Nat) := hlast.wellFormed.get_eq key
  rw [hlast.roster_eq] at hget
  exact ⟨_, _, rfl, built, follows, hlast.keys_eq, (follows.get_iff 7 _).1 (hget 7),
    (follows.get_iff 9 _).1 (hget 9)⟩

end Index

end Vicinity
