import Vicinity.Proofs.Interleaving
import Vicinity.Proofs.Refusals

namespace Vicinity

section Traces

variable {σ ι γ : Type}

/-- What inputs one after another give, and the last state. An input that is not taken is passed
over. -/
def trace (step : σ → ι → Option (γ × σ)) (s : σ) : List ι → List γ × σ
  | [] => ([], s)
  | i :: is =>
    match step s i with
    | none => trace step s is
    | some (c, s) =>
      let (cs, s) := trace step s is
      (c :: cs, s)

variable {step : σ → ι → Option (γ × σ)}

theorem trace_invariant {P : σ → Prop} (hstep : ∀ {s i c t}, P s → step s i = some (c, t) → P t)
    {s : σ} (hs : P s) (is : List ι) : P (trace step s is).2 := by
  induction is generalizing s with
  | nil => exact hs
  | cons i is ih =>
      cases hm : step s i with
      | none => simpa only [trace, hm] using ih hs
      | some moved =>
          obtain ⟨c, t⟩ := moved
          simpa only [trace, hm] using ih (hstep hs hm)

/-- Inputs that leave the state as it is can be left out. -/
theorem trace_filter {keep : γ → Bool} {again : γ → ι}
    (hagain : ∀ {s i c t}, step s i = some (c, t) → again c = i)
    (hdrop : ∀ {s i c t}, step s i = some (c, t) → keep c = false → t = s) (s : σ)
    (is : List ι) :
    trace step s (((trace step s is).1.filter keep).map again) =
      ((trace step s is).1.filter keep, (trace step s is).2) := by
  induction is generalizing s with
  | nil => rfl
  | cons i is ih =>
      cases hm : step s i with
      | none => simpa only [trace, hm] using ih s
      | some moved =>
          obtain ⟨c, t⟩ := moved
          simp only [trace, hm]
          cases hk : keep c with
          | false =>
              rw [List.filter_cons_of_neg (by rw [hk]; exact Bool.false_ne_true)]
              cases hdrop hm hk
              exact ih s
          | true =>
              simp only [List.filter_cons_of_pos hk, List.map_cons, hagain hm, trace, hm, ih t]

end Traces

variable {K α : Type}

def Command.writes : Command K α → Bool
  | .set .. | .remove _ | .clear => true
  | _ => false

namespace Shared.Request

def length? : Request K α → Option Nat
  | .set _ vector => some vector.length
  | .nearest query _ | .nearestWithDistances query _ => some query.length
  | _ => none

theorem length?_of_command {r : Request K α} {c : Command K α} (h : r.command? = some c) :
    r.length? = c.length? := by
  cases r with
  | set key | get key =>
      cases key with
      | sound =>
          cases h
          rfl
      | aborting => cases h
  | remove | clear | size | isEmpty | dimension | nearest | nearestWithDistances =>
      cases h
      rfl

end Shared.Request

variable [DecidableEq K] [Hashable K]

namespace Index

/-- What stays from the building of an index on. -/
structure Descends (ix now : Index K α) : Prop where
  wellFormed : now.WellFormed
  dimension_eq : now.dimension = ix.dimension
  metric_eq : now.metric = ix.metric
  backend_eq : now.backend = ix.backend

namespace Descends

variable {ix now : Index K α}

theorem refl (wf : ix.WellFormed) : ix.Descends ix := ⟨wf, rfl, rfl, rfl⟩

theorem executeInOrder (h : ix.Descends now) (order : KeyOrder K) (c : Command K α) :
    ix.Descends (now.executeInOrder order c).2 := by
  have hnext := h.wellFormed.becomes_executeInOrder order c
  obtain ⟨hdimension, hmetric⟩ := now.roster.execute_keeps c
  refine ⟨hnext.wellFormed, ?_, ?_, hnext.backend_eq.trans h.backend_eq⟩
  · rw [← h.dimension_eq, ← roster_dimension, hnext.roster_eq, hdimension, roster_dimension]
  · rw [← h.metric_eq, ← roster_metric, hnext.roster_eq, hmetric, roster_metric]

theorem answer (h : ix.Descends now) (r : Shared.Request K α) : ix.Descends (now.answer r).2 := by
  cases hr : r.command? with
  | some c =>
      rw [now.answer_of_command hr]
      exact h.executeInOrder .standard c
  | none =>
      rwa [now.unchanged_of_no_command hr]

end Descends

theorem executeInOrder_of_not_writes (order : KeyOrder K) (ix : Index K α) {c : Command K α}
    (h : c.writes = false) : (ix.executeInOrder order c).2 = ix := by
  cases c with
  | set | remove | clear => cases h
  | get | contains | keys | entries | size | isEmpty | dimension | metric | nearest
    | nearestWithDistances => rfl

theorem executeInOrder_of_error {order : KeyOrder K} {ix : Index K α} {c : Command K α} {e : Error}
    (h : (ix.executeInOrder order c).1 = .error e) : (ix.executeInOrder order c).2 = ix := by
  rcases executeInOrder_cases order ix c with ⟨e, he, -⟩ | ⟨reply, next, he, -⟩
  · rw [he]
  · rw [he] at h
    cases h

theorem WellFormed.answer_eq_error_iff {ix : Index K α} (wf : ix.WellFormed)
    (hb : ix.backend.Sound) {r : Shared.Request K α} {e : Error} :
    (ix.answer r).1 = .error e ↔
      (∃ n, r.length? = some n ∧ n ≠ ix.dimension ∧ e = .dimensionMismatch ix.dimension n) ∨
        (∃ c, r.command? = some c ∧ ix.Overflows c) ∧ e = .defect .addressOverflow := by
  cases h : r.command? with
  | some c =>
      rw [ix.answer_of_command h, comply, Except.map_eq_error_iff, execute,
        wf.executeInOrder_eq_error_iff .standard fun _ => hb, Shared.Request.length?_of_command h]
      simp
  | none =>
      cases r with
      | set key vector =>
          cases key with
          | sound => cases h
          | aborting =>
              by_cases hv : vector.length = ix.dimension <;>
                simp [Index.answer, Shared.Request.length?, hv, eq_comm]
      | get key =>
          cases key with
          | sound => cases h
          | aborting => simp [Index.answer, Shared.Request.length?]
      | remove | clear | size | isEmpty | dimension | nearest | nearestWithDistances => cases h

end Index

namespace Session

structure Call (K α : Type) [DecidableEq K] [Hashable K] where
  order : KeyOrder K
  handle : Nat
  action : Action K α
  outcome : Except Error (Outcome K α)

namespace Call

def entry (c : Call K α) : KeyOrder K × Nat × Action K α := (c.order, c.handle, c.action)

def counts (c : Call K α) : Bool :=
  match c.action with
  | .command command => command.writes && c.outcome.isOk
  | .copy => true

end Call

def call (s : Session K α) :
    KeyOrder K × Nat × Action K α → Option (Call K α × Session K α)
  | (order, h, a) => (s.stepInOrder order h a).map fun (outcome, t) => (⟨order, h, a, outcome⟩, t)

def run (s : Session K α) (entries : List (KeyOrder K × Nat × Action K α)) :
    List (Call K α) × Session K α :=
  trace call s entries

variable {s t : Session K α} {entry : KeyOrder K × Nat × Action K α} {c : Call K α}

theorem call_eq_some (h : s.call entry = some (c, t)) :
    c.entry = entry ∧ s.stepInOrder c.order c.handle c.action = some (c.outcome, t) := by
  obtain ⟨order, handle, a⟩ := entry
  obtain ⟨⟨outcome, t⟩, hs, he⟩ := Option.map_eq_some_iff.1 h
  cases he
  exact ⟨rfl, hs⟩

theorem eq_of_not_counts (h : s.call entry = some (c, t)) (hc : c.counts = false) : t = s := by
  obtain ⟨-, moved⟩ := call_eq_some h
  obtain ⟨ix, hi, hcase⟩ := stepInOrder_cases moved
  rcases hcase with ⟨command, ha, ho, ht⟩ | ⟨ha, -, -⟩
  · have hkeep : (ix.executeInOrder c.order command).2 = ix := by
      rw [Call.counts, ha, ho] at hc
      cases hw : command.writes with
      | false => exact ix.executeInOrder_of_not_writes c.order hw
      | true =>
          cases hr : (ix.executeInOrder c.order command).1 with
          | error e => exact Index.executeInOrder_of_error hr
          | ok reply =>
              simp only [hw, hr] at hc
              cases hc
    have hset : s.indexes.set c.handle ix = s.indexes := by
      obtain ⟨hlt, rfl⟩ := List.getElem?_eq_some_iff.1 hi
      exact List.set_getElem_self hlt
    cases t
    cases s
    exact congrArg _ (ht.trans (hkeep.symm ▸ hset))
  · rw [Call.counts, ha] at hc
    cases hc

theorem run_filter (s : Session K α) (entries : List (KeyOrder K × Nat × Action K α)) :
    s.run (((s.run entries).1.filter Call.counts).map Call.entry) =
      ((s.run entries).1.filter Call.counts, (s.run entries).2) :=
  trace_filter (fun h => (call_eq_some h).1) eq_of_not_counts s entries

theorem descends_call {ix : Index K α} (hs : ∀ now ∈ s.indexes, ix.Descends now)
    (h : s.call entry = some (c, t)) : ∀ now ∈ t.indexes, ix.Descends now := by
  obtain ⟨-, moved⟩ := call_eq_some h
  exact forall_indexes_stepInOrder (fun order c hd => hd.executeInOrder order c) hs moved

theorem descends_run {ix : Index K α} (wf : ix.WellFormed)
    (entries : List (KeyOrder K × Nat × Action K α)) :
    ∀ now ∈ ((start ix).run entries).2.indexes, ix.Descends now := by
  refine trace_invariant (P := fun s : Session K α => ∀ now ∈ s.indexes, ix.Descends now)
    descends_call ?_ entries
  intro now hnow
  rw [List.mem_singleton.1 hnow]
  exact .refl wf

end Session

namespace Shared.Pool

namespace Call

def entry (c : Call K α) : Nat × Action K α := (c.handle, c.action)

def counts (c : Call K α) : Bool :=
  match c.action with
  | .request r => r.access == .write && c.outcome.isOk
  | .copy => true

end Call

def call (p : Pool K α) : Nat × Action K α → Option (Call K α × Pool K α)
  | (h, a) => (p.step h a).map fun (outcome, q) => (⟨h, a, outcome⟩, q)

theorem run_eq_trace (p : Pool K α) (actions : List (Nat × Action K α)) :
    p.run actions = trace call p actions := by
  induction actions generalizing p with
  | nil => rfl
  | cons action actions ih =>
      obtain ⟨h, a⟩ := action
      cases hs : p.step h a with
      | none => simpa only [run, trace, call, hs, Option.map_none] using ih p
      | some moved => simp only [run, trace, call, hs, Option.map_some, ih]

variable {p q : Pool K α} {action : Nat × Action K α} {c : Call K α}

theorem call_eq_some (h : p.call action = some (c, q)) :
    c.entry = action ∧ p.step c.handle c.action = some (c.outcome, q) := by
  obtain ⟨handle, a⟩ := action
  obtain ⟨⟨outcome, q⟩, hs, he⟩ := Option.map_eq_some_iff.1 h
  cases he
  exact ⟨rfl, hs⟩

theorem handles_of_request {h : Nat} {r : Request K α} {outcome : Except Error (Outcome K α)}
    (moved : p.step h (.request r) = some (outcome, q)) : q.handles = p.handles := by
  unfold step at moved
  split at moved
  · cases moved
    rfl
  · cases moved

theorem eq_of_not_counts (h : p.call action = some (c, q)) (hc : c.counts = false) : q = p := by
  obtain ⟨-, moved⟩ := call_eq_some h
  obtain ⟨handle, a, outcome⟩ := c
  cases a with
  | request r =>
      have hshared : q.shared = p.shared := by
        cases hr : r.access with
        | read => exact shared_eq_of_read hr moved
        | write =>
            cases outcome with
            | error e => exact shared_eq_of_error moved
            | ok outcome =>
                simp only [Call.counts, hr] at hc
                cases hc
      cases p
      cases q
      exact congrArg₂ _ hshared (handles_of_request moved)
  | copy => cases hc

theorem run_filter (p : Pool K α) (actions : List (Nat × Action K α)) :
    p.run (((p.run actions).1.filter Call.counts).map Call.entry) =
      ((p.run actions).1.filter Call.counts, (p.run actions).2) := by
  simp only [run_eq_trace]
  exact trace_filter (fun h => (call_eq_some h).1) eq_of_not_counts p actions

theorem descends_run {ix : Index K α} (wf : ix.WellFormed) (actions : List (Nat × Action K α)) :
    ix.Descends ((start (.ofIndex ix)).run actions).2.shared.content := by
  rw [run_eq_trace]
  refine trace_invariant (P := fun p : Pool K α => ix.Descends p.shared.content) ?_ (.refl wf)
    actions
  intro p action c q hp h
  obtain ⟨-, moved⟩ := call_eq_some h
  rcases step_cases moved with ⟨_, -, -, -, hq⟩ | ⟨r, -, -, -, hq⟩ | ⟨-, -, hq⟩
  · rwa [hq]
  · rw [hq]
    exact hp.answer r
  · rwa [hq]

end Shared.Pool

namespace Index

variable [Element α]

open Shared (Pool)

/-- After any run an index and every copy of it, alone or shared behind a healthy lock, refuse a
vector of another length than the index was built for, and nothing else but a row beyond the last
address; and the refused calls and the questions of the run can be left out, which the other calls
and the end do not show. -/
theorem Built.refusals_exact {ix : Index K α} (built : ix.Built) (hb : ix.backend.Sound)
    (entries : List (KeyOrder K × Nat × Session.Action K α)) :
    let calls := ((Session.start ix).run entries).1
    let last := ((Session.start ix).run entries).2
    (Session.start ix).run ((calls.filter Session.Call.counts).map Session.Call.entry) =
        (calls.filter Session.Call.counts, last) ∧
      ∀ now ∈ last.indexes, now.dimension = ix.dimension ∧ now.metric = ix.metric ∧
        (∀ order c e, (now.executeInOrder order c).1 = .error e ↔
          (∃ n, c.length? = some n ∧ n ≠ ix.dimension ∧ e = .dimensionMismatch ix.dimension n) ∨
            now.Overflows c ∧ e = .defect .addressOverflow) ∧
        ∀ actions : List (Nat × Pool.Action K α),
          let calls := ((Pool.start (.ofIndex now)).run actions).1
          let pool := ((Pool.start (.ofIndex now)).run actions).2
          (Pool.start (.ofIndex now)).run ((calls.filter Pool.Call.counts).map Pool.Call.entry) =
              (calls.filter Pool.Call.counts, pool) ∧
            pool.shared.content.dimension = ix.dimension ∧
            pool.shared.content.metric = ix.metric ∧
            (pool.shared.poisoned = false → ∀ r e, (pool.shared.execute r).1 = .error e ↔
              (∃ n, r.length? = some n ∧ n ≠ ix.dimension ∧
                e = .dimensionMismatch ix.dimension n) ∨
              (∃ c, r.command? = some c ∧ pool.shared.content.Overflows c) ∧
                e = .defect .addressOverflow) := by
  refine ⟨Session.run_filter _ entries, fun now hnow => ?_⟩
  have hd := Session.descends_run built.wellFormed entries now hnow
  refine ⟨hd.dimension_eq, hd.metric_eq, fun order c e => ?_, fun actions => ?_⟩
  · rw [← hd.dimension_eq]
    exact hd.wellFormed.executeInOrder_eq_error_iff order fun _ => hd.backend_eq ▸ hb
  · have hp := Pool.descends_run hd.wellFormed actions
    refine ⟨Pool.run_filter _ actions, hp.dimension_eq.trans hd.dimension_eq,
      hp.metric_eq.trans hd.metric_eq, fun healthy r e => ?_⟩
    have hsound : ((Pool.start (.ofIndex now)).run actions).2.shared.content.backend.Sound :=
      hp.backend_eq ▸ hd.backend_eq ▸ hb
    rw [Shared.execute_of_healthy healthy, ← hd.dimension_eq, ← hp.dimension_eq]
    exact hp.wellFormed.answer_eq_error_iff hsound

theorem refusals_exact_of_copy :
    ∃ ix : Index Nat UInt8, emptyOn 2 .manhattan .standard = .ok ix ∧ ix.backend.Sound ∧
      let entries := [(.standard, 0, .command (.set 7 [1, 2])), (.standard, 0, .copy),
        (.standard, 1, .command (.set 7 [3])), (.standard, 0, .command (.get 7))]
      let calls := ((Session.start ix).run entries).1
      let last := ((Session.start ix).run entries).2
      (Session.start ix).run ((calls.filter Session.Call.counts).map Session.Call.entry) =
          (calls.filter Session.Call.counts, last) ∧
        ∀ now ∈ last.indexes,
          (now.execute (.set 7 [3])).1 = .error (.dimensionMismatch 2 1) ∧
          (now.execute (.nearest [] 0)).1 = .error (.dimensionMismatch 2 0) := by
  have hok : emptyOn 2 .manhattan .standard =
      .ok (⟨2, by decide, .manhattan, .standard, [], ∅, []⟩ : Index Nat UInt8) :=
    dif_pos (by decide)
  obtain ⟨hrun, hlast⟩ := (Built.emptyOn hok).refusals_exact Backend.standard_sound
    [(.standard, 0, .command (.set 7 [1, 2])), (.standard, 0, .copy),
      (.standard, 1, .command (.set 7 [3])), (.standard, 0, .command (.get 7))]
  refine ⟨_, hok, Backend.standard_sound, hrun, fun now hnow => ?_⟩
  obtain ⟨-, -, hrefused, -⟩ := hlast now hnow
  exact ⟨(hrefused .standard (.set 7 [3]) _).2 (.inl ⟨1, rfl, by decide, rfl⟩),
    (hrefused .standard (.nearest [] 0) _).2 (.inl ⟨0, rfl, by decide, rfl⟩)⟩

end Index

end Vicinity
