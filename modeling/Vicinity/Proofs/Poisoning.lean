import Vicinity.Proofs.Answers

namespace Vicinity.Shared.Pool

variable {K α : Type}

namespace Call

def request? (c : Call K α) : Option (Request K α) :=
  match c.action with
  | .request r => some r
  | .copy => none

def Poisons (dimension : Nat) (c : Call K α) : Prop :=
  ∃ r, c.request? = some r ∧ r.poisons dimension = true

end Call

def requests (calls : List (Call K α)) : List (Request K α) := calls.filterMap Call.request?

theorem requests_concat_request (calls : List (Call K α)) (h : Nat) (r : Request K α)
    (outcome : Except Error (Outcome K α)) :
    requests (calls ++ [⟨h, .request r, outcome⟩]) = requests calls ++ [r] :=
  List.filterMap_append

theorem requests_concat_copy (calls : List (Call K α)) (h : Nat)
    (outcome : Except Error (Outcome K α)) :
    requests (calls ++ [⟨h, .copy, outcome⟩]) = requests calls :=
  List.filterMap_append.trans (List.append_nil _)

theorem Call.poisons_request {dimension h : Nat} {r : Request K α}
    {outcome : Except Error (Outcome K α)} :
    (Call.mk h (.request r) outcome).Poisons dimension ↔ r.poisons dimension = true := by
  simp [Call.Poisons, Call.request?]

theorem Call.not_poisons_copy {dimension h : Nat} {outcome : Except Error (Outcome K α)} :
    ¬(Call.mk h .copy outcome : Call K α).Poisons dimension := by
  simp [Call.Poisons, Call.request?]

theorem map_response_eq_error_iff {x : Except Error (Response K α)} {e : Error} :
    x.map Outcome.response = .error e ↔ x = .error e := by
  cases x <;> simp [Except.map]

theorem map_response_eq_ok_iff {x : Except Error (Response K α)} {y : Response K α} :
    x.map Outcome.response = .ok (.response y) ↔ x = .ok y := by
  cases x <;> simp [Except.map]

def Poisoned (dimension : Nat) (calls : List (Call K α)) : Prop :=
  ∃ c ∈ calls, c.Poisons dimension

theorem poisoned_concat_iff {calls : List (Call K α)} {c : Call K α} {dimension : Nat} :
    Poisoned dimension (calls ++ [c]) ↔ Poisoned dimension calls ∨ c.Poisons dimension := by
  simp only [Poisoned, List.mem_append, List.mem_singleton, or_and_right, exists_or, exists_eq_left]

variable [DecidableEq K] [Hashable K] {ix : Index K α} {p q : Pool K α} {h : Nat}
  {a : Action K α} {outcome : Except Error (Outcome K α)} {calls : List (Call K α)}

theorem step_cases (moved : p.step h a = some (outcome, q)) :
    (∃ r, a = .request r ∧ p.shared.poisoned = true ∧ outcome = .error (.lock r.lockName) ∧
        q.shared = p.shared) ∨
      (∃ r, a = .request r ∧ p.shared.poisoned = false ∧
        outcome = (p.shared.content.answer r).1.map .response ∧
        q.shared = ⟨(p.shared.content.answer r).2, r.poisons p.shared.content.dimension⟩) ∨
      (a = .copy ∧ outcome = .ok (.handle p.handles) ∧ q.shared = p.shared) := by
  unfold step at moved
  split at moved
  · cases a with
    | request r =>
        cases hs : p.shared.poisoned with
        | true =>
            simp only [execute_of_poisoned hs] at moved
            cases moved
            exact .inl ⟨r, rfl, rfl, rfl, rfl⟩
        | false =>
            simp only [execute_of_healthy hs] at moved
            cases moved
            exact .inr (.inl ⟨r, rfl, rfl, rfl, rfl⟩)
    | copy =>
        cases moved
        exact .inr (.inr ⟨rfl, rfl, rfl⟩)
  · cases moved

/-- What holds at the start and is kept by each call holds after a run, and each call of the run
gives what a call gives where it holds. -/
theorem run_induction {P : List (Call K α) → Pool K α → Prop}
    {V : List (Call K α) → Call K α → Prop}
    (hstep : ∀ {calls p h a outcome q}, P calls p → p.step h a = some (outcome, q) →
      V calls ⟨h, a, outcome⟩ ∧ P (calls ++ [⟨h, a, outcome⟩]) q)
    {past : List (Call K α)} {p : Pool K α} (hp : P past p) (actions : List (Nat × Action K α)) :
    (∀ i c, (p.run actions).1[i]? = some c → V (past ++ (p.run actions).1.take i) c) ∧
      P (past ++ (p.run actions).1) (p.run actions).2 := by
  induction actions generalizing past p with
  | nil => simpa [run] using hp
  | cons action actions ih =>
      obtain ⟨h, a⟩ := action
      cases hs : p.step h a with
      | none => simpa only [run, hs] using ih hp
      | some moved =>
          obtain ⟨outcome, q⟩ := moved
          obtain ⟨hv, hq⟩ := hstep hp hs
          obtain ⟨hcalls, hlast⟩ := ih hq
          simp only [run, hs]
          refine ⟨fun i c hi => ?_, by simpa using hlast⟩
          cases i with
          | zero =>
              obtain rfl := Option.some.inj hi
              simpa using hv
          | succ i => simpa using hcalls i c hi

structure Tracks (ix : Index K α) (calls : List (Call K α)) (p : Pool K α) : Prop where
  poisoned_iff : p.shared.poisoned = true ↔ Poisoned ix.dimension calls
  content_eq : p.shared.poisoned = false → p.shared.content = (ix.answers (requests calls)).2

theorem Tracks.start (ix : Index K α) (handles : Nat) : Tracks ix [] ⟨.ofIndex ix, handles⟩ where
  poisoned_iff := by simp [ofIndex, Poisoned]
  content_eq _ := rfl

structure Fits (ix : Index K α) (past : List (Call K α)) (r : Request K α)
    (outcome : Except Error (Outcome K α)) : Prop where
  of_healthy : ¬Poisoned ix.dimension past →
    outcome = ((ix.answers (requests past)).2.answer r).1.map .response
  of_poisoned : Poisoned ix.dimension past → outcome = .error (.lock r.lockName)
  mismatch : ¬Poisoned ix.dimension past → ∀ vector, r = .set .aborting vector →
    vector.length ≠ ix.dimension → outcome = .error (.dimensionMismatch ix.dimension vector.length)
  aborted_iff : outcome = .ok (.response .aborted) ↔
    ¬Poisoned ix.dimension past ∧ (r.poisons ix.dimension = true ∨
      r = .get .aborting ∧ (ix.answers (requests past)).2.slots.isEmpty = false)
  isClientError_eq_false_iff : ∀ e, outcome = .error e →
    (e.isClientError = false ↔ Poisoned ix.dimension past)

namespace Fits

variable {past : List (Call K α)} {r : Request K α}

theorem lock (hp : Poisoned ix.dimension past) : Fits ix past r (.error (.lock r.lockName)) where
  of_healthy hn := absurd hp hn
  of_poisoned _ := rfl
  mismatch hn := absurd hp hn
  aborted_iff := iff_of_false nofun fun h => h.1 hp
  isClientError_eq_false_iff := by
    rintro _ ⟨⟩
    exact iff_of_true rfl hp

theorem answer (hn : ¬Poisoned ix.dimension past) :
    Fits ix past r (((ix.answers (requests past)).2.answer r).1.map .response) where
  of_healthy _ := rfl
  of_poisoned hp := absurd hp hn
  mismatch _ vector hr hv := by
    rw [hr, Index.answer, Index.dimension_answers, if_neg hv]
    rfl
  aborted_iff := by
    rw [map_response_eq_ok_iff, Index.answer_aborted_iff, Index.dimension_answers]
    exact (and_iff_right hn).symm
  isClientError_eq_false_iff e he := by
    rw [Index.isClientError_of_answer (map_response_eq_error_iff.1 he)]
    exact iff_of_false Bool.false_ne_true.symm hn

end Fits

namespace Tracks

variable {r : Request K α}

theorem dimension_content (tracks : Tracks ix calls p) (hs : p.shared.poisoned = false) :
    p.shared.content.dimension = ix.dimension := by
  rw [tracks.content_eq hs, Index.dimension_answers]

theorem not_poisoned (tracks : Tracks ix calls p) (hs : p.shared.poisoned = false) :
    ¬Poisoned ix.dimension calls := by
  rw [← tracks.poisoned_iff, hs]
  exact Bool.false_ne_true

theorem fits (tracks : Tracks ix calls p) (moved : p.step h (.request r) = some (outcome, q)) :
    Fits ix calls r outcome := by
  rcases step_cases moved with ⟨_, hr, hs, rfl, -⟩ | ⟨_, hr, hs, rfl, -⟩ | ⟨hr, -⟩
  · cases hr
    exact .lock (tracks.poisoned_iff.1 hs)
  · cases hr
    rw [tracks.content_eq hs]
    exact .answer (tracks.not_poisoned hs)
  · cases hr

theorem step (tracks : Tracks ix calls p) (moved : p.step h a = some (outcome, q)) :
    Tracks ix (calls ++ [⟨h, a, outcome⟩]) q := by
  rcases step_cases moved with ⟨r, rfl, hs, -, hq⟩ | ⟨r, rfl, hs, -, hq⟩ | ⟨rfl, -, hq⟩
  · have hp := tracks.poisoned_iff.1 hs
    constructor
    · rw [poisoned_concat_iff, hq]
      exact iff_of_true hs (.inl hp)
    · rw [hq, hs]
      intro hf
      cases hf
  · have hn := tracks.not_poisoned hs
    have hd := tracks.dimension_content hs
    constructor
    · rw [poisoned_concat_iff, Call.poisons_request, hq, hd]
      exact (or_iff_right hn).symm
    · intro _
      rw [hq, requests_concat_request, Index.answers_append, tracks.content_eq hs]
      rfl
  · constructor
    · rw [poisoned_concat_iff, hq, tracks.poisoned_iff]
      exact (or_iff_left Call.not_poisons_copy).symm
    · rw [hq, requests_concat_copy]
      exact tracks.content_eq

end Tracks

/-- The first vector of the right length that is stored under a key whose hash aborts poisons the
lock. Before it each request is answered as by the index alone; after it no request is. -/
theorem calls_fit_poisoning (ix : Index K α) (actions : List (Nat × Action K α)) :
    let calls := ((start (.ofIndex ix)).run actions).1
    let last := ((start (.ofIndex ix)).run actions).2
    (last.shared.poisoned = true ↔ Poisoned ix.dimension calls) ∧
      ∀ (i : Nat) (c : Call K α) (r : Request K α), calls[i]? = some c → c.action = .request r →
        Fits ix (calls.take i) r c.outcome := by
  obtain ⟨hfits, hlast⟩ := run_induction
    (V := fun past (c : Call K α) => ∀ r, c.action = .request r → Fits ix past r c.outcome)
    (fun tracks moved => ⟨by rintro r rfl; exact tracks.fits moved, tracks.step moved⟩)
    (Tracks.start ix 1) actions
  exact ⟨hlast.poisoned_iff, fun i c r hi => hfits i c hi r⟩

example (ix : Index K α) (hd : ix.dimension = 2) (hs : ix.slots.isEmpty = false) (x : α) :
    ((start (.ofIndex ix)).run [(0, .request (.set .aborting [x])), (0, .request (.get .aborting)),
      (0, .copy), (1, .request (.set .aborting [x, x])), (0, .request .isEmpty)]).1.map
        Call.outcome = [.error (.dimensionMismatch 2 1), .ok (.response .aborted), .ok (.handle 1),
      .ok (.response .aborted), .error (.lock "read len")] := by
  simp [run, step, start, execute_of_healthy, execute_of_poisoned, ofIndex, Index.answer, hd, hs,
    Request.poisons, Request.lockName, Except.map]

end Vicinity.Shared.Pool
