import Vicinity.Shared.Pool

namespace Vicinity

namespace Shared.Request

variable {K α : Type}

def lockName : Request K α → String
  | .set .. => "write set"
  | .remove .. => "write remove"
  | .clear => "write clear"
  | .get .. => "read get"
  | .size | .isEmpty => "read len"
  | .dimension => "read dimension"
  | .nearest .. => "read approx_nearest"
  | .nearestWithDistances .. => "read approx_nearest_with_distances"

theorem name_access_append_operation (r : Request K α) :
    r.access.name ++ " " ++ r.operation = r.lockName := by
  cases r <;> rfl

def poisons (dimension : Nat) : Request K α → Bool
  | .set .aborting vector => vector.length == dimension
  | _ => false

theorem poisons_of_command {r : Request K α} {c : Command K α} {dimension : Nat}
    (h : r.command? = some c) : r.poisons dimension = false := by
  cases r with
  | set key =>
      cases key with
      | sound => rfl
      | aborting => cases h
  | remove | clear | get | size | isEmpty | dimension | nearest | nearestWithDistances => rfl

theorem poisons_of_read {r : Request K α} {dimension : Nat} (h : r.access = .read) :
    r.poisons dimension = false := by
  cases r with
  | set => cases h
  | remove | clear | get | size | isEmpty | dimension | nearest | nearestWithDistances => rfl

end Shared.Request

open Shared (Request Response)

namespace Index

variable {K α : Type} [DecidableEq K] [Hashable K]

def comply (ix : Index K α) (c : Command K α) : Except Error (Response K α) × Index K α :=
  ((ix.execute c).1.map .reply, (ix.execute c).2)

/-- What a request comes to on an index that no lock guards. A vector is measured before the key
beside it is hashed, a look-up hashes its key only when there are others, and a hash that aborts
changes nothing. -/
def answer (ix : Index K α) : Request K α → Except Error (Response K α) × Index K α
  | .set (.sound key) vector => ix.comply (.set key vector)
  | .set .aborting vector =>
    if vector.length = ix.dimension then (.ok .aborted, ix)
    else (.error (.dimensionMismatch ix.dimension vector.length), ix)
  | .remove key => ix.comply (.remove key)
  | .clear => ix.comply .clear
  | .get (.sound key) => ix.comply (.get key)
  | .get .aborting => (.ok (if ix.slots.isEmpty then .reply (.vector none) else .aborted), ix)
  | .size => ix.comply .size
  | .isEmpty => ix.comply .isEmpty
  | .dimension => ix.comply .dimension
  | .nearest query k => ix.comply (.nearest query k)
  | .nearestWithDistances query k => ix.comply (.nearestWithDistances query k)

def answers (ix : Index K α) : List (Request K α) →
    List (Except Error (Response K α)) × Index K α
  | [] => ([], ix)
  | r :: rs =>
    let (answer, ix) := ix.answer r
    let (answers, ix) := ix.answers rs
    (answer :: answers, ix)

theorem answers_append (ix : Index K α) (rs ss : List (Request K α)) :
    ix.answers (rs ++ ss) = ((ix.answers rs).1 ++ ((ix.answers rs).2.answers ss).1,
      ((ix.answers rs).2.answers ss).2) := by
  induction rs generalizing ix with
  | nil => rfl
  | cons r rs ih => simp only [List.cons_append, answers, ih]

theorem set_cases (ix : Index K α) (key : K) (vector : List α) :
    (∃ e, ix.set key vector = .error e ∧ e.isClientError = true) ∨
      ∃ replaced next, ix.set key vector = .ok (replaced, next) ∧
        next.dimension = ix.dimension := by
  unfold set checkDimension
  by_cases hv : vector.length = ix.dimension
  · rw [if_pos hv]
    cases ix.slots[key]? with
    | none =>
        cases ix.appendRow vector with
        | error d => exact .inl ⟨_, rfl, rfl⟩
        | ok cells => exact .inr ⟨_, _, rfl, rfl⟩
    | some slot =>
        cases ho : ix.overwriteRow slot vector with
        | error d =>
            simp only [ho]
            exact .inl ⟨_, rfl, rfl⟩
        | ok cells =>
            simp only [ho]
            exact .inr ⟨_, _, rfl, rfl⟩
  · rw [if_neg hv]
    exact .inl ⟨_, rfl, rfl⟩

theorem removeInOrder_cases (order : KeyOrder K) (ix : Index K α) (key : K) :
    (∃ d, ix.removeInOrder order key = .error d) ∨
      ∃ vector next, ix.removeInOrder order key = .ok (vector, next) ∧
        next.dimension = ix.dimension := by
  unfold removeInOrder
  cases ix.slots[key]? with
  | none => exact .inr ⟨_, _, rfl, rfl⟩
  | some slot =>
      cases hk : ix.eraseKey slot with
      | error d => exact .inl ⟨d, by simp only [hk]; rfl⟩
      | ok keys =>
          cases hr : ix.row slot with
          | error d => exact .inl ⟨d, by simp only [hk, hr]; rfl⟩
          | ok vector =>
              cases hw : ix.withoutRow slot with
              | error d => exact .inl ⟨d, by simp only [hk, hr, hw]; rfl⟩
              | ok cells =>
                  simp only [hk, hr, hw]
                  exact .inr ⟨_, _, rfl, rfl⟩

theorem nearestWithDistances_cases (ix : Index K α) (query : List α) (k : Nat) :
    (∃ e, ix.nearestWithDistances query k = .error e ∧ e.isClientError = true) ∨
      ∃ ns, ix.nearestWithDistances query k = .ok ns := by
  unfold nearestWithDistances checkDimension
  by_cases hq : query.length = ix.dimension
  · rw [if_pos hq]
    cases (ix.backend.rank ix.metric query ix.cells k).mapM ix.neighbor with
    | error d => exact .inl ⟨_, rfl, rfl⟩
    | ok ns => exact .inr ⟨ns, rfl⟩
  · rw [if_neg hq]
    exact .inl ⟨_, rfl, rfl⟩

theorem executeInOrder_cases (order : KeyOrder K) (ix : Index K α) (c : Command K α) :
    (∃ e, ix.executeInOrder order c = (.error e, ix) ∧ e.isClientError = true) ∨
      ∃ reply next, ix.executeInOrder order c = (.ok reply, next) ∧
        next.dimension = ix.dimension := by
  cases c with
  | set key vector =>
      rcases ix.set_cases key vector with ⟨e, he, hc⟩ | ⟨replaced, next, he, hd⟩
      · exact .inl ⟨e, by rw [executeInOrder, he], hc⟩
      · exact .inr ⟨_, next, by rw [executeInOrder, he], hd⟩
  | remove key =>
      rcases removeInOrder_cases order ix key with ⟨d, he⟩ | ⟨vector, next, he, hd⟩
      · exact .inl ⟨.defect d, by rw [executeInOrder, he], rfl⟩
      · exact .inr ⟨_, next, by rw [executeInOrder, he], hd⟩
  | get key =>
      rw [executeInOrder]
      cases ix.get key with
      | error d => exact .inl ⟨.defect d, rfl, rfl⟩
      | ok vector => exact .inr ⟨_, ix, rfl, rfl⟩
  | nearest query k =>
      rw [executeInOrder, nearest]
      rcases ix.nearestWithDistances_cases query k with ⟨e, he, hc⟩ | ⟨ns, he⟩
      · exact .inl ⟨e, by rw [he]; rfl, hc⟩
      · exact .inr ⟨_, ix, by rw [he]; rfl, rfl⟩
  | nearestWithDistances query k =>
      rw [executeInOrder]
      rcases ix.nearestWithDistances_cases query k with ⟨e, he, hc⟩ | ⟨ns, he⟩
      · exact .inl ⟨e, by rw [he]; rfl, hc⟩
      · exact .inr ⟨_, ix, by rw [he]; rfl, rfl⟩
  | clear | contains | keys | entries | size | isEmpty | dimension | metric =>
      exact .inr ⟨_, _, rfl, rfl⟩

theorem answer_of_command {r : Request K α} {c : Command K α} (ix : Index K α)
    (h : r.command? = some c) : ix.answer r = ix.comply c := by
  cases r with
  | set key | get key =>
      cases key with
      | sound key =>
          cases h
          rfl
      | aborting => cases h
  | remove | clear | size | isEmpty | dimension | nearest | nearestWithDistances =>
      cases h
      rfl

theorem answer_of_no_command {r : Request K α} (ix : Index K α) (h : r.command? = none) :
    (r.poisons ix.dimension = true ∧ ix.answer r = (.ok .aborted, ix)) ∨
      (r = .get .aborting ∧ ix.answer r =
        (.ok (if ix.slots.isEmpty then .reply (.vector none) else .aborted), ix)) ∨
      ∃ vector, r = .set .aborting vector ∧ vector.length ≠ ix.dimension ∧
        ix.answer r = (.error (.dimensionMismatch ix.dimension vector.length), ix) := by
  cases r with
  | set key vector =>
      cases key with
      | sound key => cases h
      | aborting =>
          by_cases hv : vector.length = ix.dimension
          · exact .inl ⟨beq_iff_eq.2 hv, if_pos hv⟩
          · exact .inr (.inr ⟨vector, rfl, hv, if_neg hv⟩)
  | get key =>
      cases key with
      | sound key => cases h
      | aborting => exact .inr (.inl ⟨rfl, rfl⟩)
  | remove | clear | size | isEmpty | dimension | nearest | nearestWithDistances => cases h

theorem unchanged_of_no_command {r : Request K α} (ix : Index K α) (h : r.command? = none) :
    (ix.answer r).2 = ix := by
  rcases ix.answer_of_no_command h with ⟨-, he⟩ | ⟨-, he⟩ | ⟨vector, -, -, he⟩ <;> rw [he]

theorem answer_cases (ix : Index K α) (r : Request K α) :
    (∃ e, ix.answer r = (.error e, ix) ∧ e.isClientError = true) ∨
      ∃ response next, ix.answer r = (.ok response, next) ∧ next.dimension = ix.dimension := by
  cases h : r.command? with
  | some c =>
      rw [ix.answer_of_command h, comply, execute]
      rcases executeInOrder_cases .standard ix c with ⟨e, he, hc⟩ | ⟨reply, next, he, hd⟩
      · exact .inl ⟨e, by rw [he]; rfl, hc⟩
      · exact .inr ⟨_, next, by rw [he]; rfl, hd⟩
  | none =>
      rcases ix.answer_of_no_command h with ⟨-, he⟩ | ⟨-, he⟩ | ⟨vector, -, -, he⟩
      · exact .inr ⟨_, ix, he, rfl⟩
      · exact .inr ⟨_, ix, he, rfl⟩
      · exact .inl ⟨_, he, rfl⟩

/-- No error of the index itself is one of a lock. -/
theorem isClientError_of_answer {ix : Index K α} {r : Request K α} {e : Error}
    (h : (ix.answer r).1 = .error e) : e.isClientError = true := by
  rcases ix.answer_cases r with ⟨e, he, hc⟩ | ⟨response, next, he, -⟩
  · rw [he] at h
    cases h
    exact hc
  · rw [he] at h
    cases h

theorem answer_of_error {ix : Index K α} {r : Request K α} {e : Error}
    (h : (ix.answer r).1 = .error e) : (ix.answer r).2 = ix := by
  rcases ix.answer_cases r with ⟨e, he, -⟩ | ⟨response, next, he, -⟩
  · rw [he]
  · rw [he] at h
    cases h

theorem answer_of_read {r : Request K α} (ix : Index K α) (h : r.access = .read) :
    (ix.answer r).2 = ix := by
  cases r with
  | set | remove | clear => cases h
  | get key => cases key <;> rfl
  | size | isEmpty | dimension | nearest | nearestWithDistances => rfl

theorem answer_aborted_iff {ix : Index K α} {r : Request K α} :
    (ix.answer r).1 = .ok .aborted ↔
      r.poisons ix.dimension = true ∨ r = .get .aborting ∧ ix.slots.isEmpty = false := by
  cases h : r.command? with
  | some c =>
      rw [ix.answer_of_command h, comply]
      refine iff_of_false ?_ ?_
      · cases (ix.execute c).1 <;> exact nofun
      · rintro (hp | ⟨rfl, -⟩)
        · exact Bool.false_ne_true ((Request.poisons_of_command h).symm.trans hp)
        · cases h
  | none =>
      rcases ix.answer_of_no_command h with ⟨hp, he⟩ | ⟨rfl, he⟩ | ⟨vector, rfl, hv, he⟩
      · exact iff_of_true (by rw [he]) (.inl hp)
      · rw [he]
        cases ix.slots.isEmpty <;> simp [Request.poisons]
      · rw [he]
        simp [Request.poisons, hv]

@[simp] theorem dimension_answer (ix : Index K α) (r : Request K α) :
    (ix.answer r).2.dimension = ix.dimension := by
  rcases ix.answer_cases r with ⟨e, he, -⟩ | ⟨response, next, he, hd⟩
  · rw [he]
  · rw [he]
    exact hd

@[simp] theorem dimension_answers (ix : Index K α) (rs : List (Request K α)) :
    (ix.answers rs).2.dimension = ix.dimension := by
  induction rs generalizing ix with
  | nil => rfl
  | cons r rs ih => exact (ih _).trans (ix.dimension_answer r)

end Index

namespace Shared

variable {K α : Type} [DecidableEq K] [Hashable K] {s : Shared K α}

theorem execute_of_poisoned (h : s.poisoned = true) (r : Request K α) :
    s.execute r = (.error (.lock r.lockName), s) := by
  rw [execute, Guarded.acquire, if_pos h, r.name_access_append_operation]

theorem abortOn_set_of_length_eq (s : Shared K α) {vector : List α}
    (hv : vector.length = s.content.dimension) :
    s.abortOn (.set .aborting vector) = (.ok .aborted, ⟨s.content, true⟩) := by
  have hc : s.content.checkDimension vector.length = .ok () := if_pos hv
  rw [abortOn, Request.checkedLength?, Option.mapM_some, hc]
  rfl

theorem abortOn_get (s : Shared K α) :
    s.abortOn (.get .aborting) =
      (.ok (if s.content.slots.isEmpty then .reply (.vector none) else .aborted), s) := by
  have hc : (Request.get .aborting : Request K α).checkedLength?.mapM s.content.checkDimension =
    .ok none := rfl
  rw [abortOn, hc]
  cases s.content.slots.isEmpty <;> simp [Request.access, Guarded.abort]

theorem abortOn_set_of_length_ne (s : Shared K α) {vector : List α}
    (hv : vector.length ≠ s.content.dimension) :
    s.abortOn (.set .aborting vector) =
      (.error (.dimensionMismatch s.content.dimension vector.length), s) := by
  have hc : s.content.checkDimension vector.length =
    .error (.dimensionMismatch s.content.dimension vector.length) := if_neg hv
  rw [abortOn, Request.checkedLength?, Option.mapM_some, hc]
  rfl

theorem execute_of_healthy (h : s.poisoned = false) (r : Request K α) :
    s.execute r = ((s.content.answer r).1,
      ⟨(s.content.answer r).2, r.poisons s.content.dimension⟩) := by
  have hs : s = ⟨s.content, false⟩ := by rw [← h]
  rw [execute, Guarded.acquire, if_neg (by rw [h]; exact Bool.false_ne_true)]
  cases r with
  | set key vector =>
      cases key with
      | sound key =>
        rw [hs]
        rfl
      | aborting =>
          by_cases hv : vector.length = s.content.dimension
          · simp only [Index.answer, Request.poisons, if_pos hv, beq_iff_eq.2 hv]
            exact s.abortOn_set_of_length_eq hv
          · simp only [Index.answer, Request.poisons, if_neg hv, beq_eq_false_iff_ne.2 hv, ← h]
            exact s.abortOn_set_of_length_ne hv
  | get key =>
      cases key with
      | sound key =>
          rw [hs]
          rfl
      | aborting =>
          rw [hs]
          exact abortOn_get _
  | remove | clear | size | isEmpty | dimension | nearest | nearestWithDistances =>
      rw [hs]
      rfl

end Shared

end Vicinity
