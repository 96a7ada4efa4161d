import Vicinity.Proofs.Poisoning
import Vicinity.Proofs.Reachable
import Vicinity.Shared.Clients

namespace Vicinity

variable {K α : Type} [DecidableEq K]

theorem Roster.vector?_execute {r : Roster K α} {c : Command K α} {key : K} {v : List α}
    (h : (r.execute c).2.vector? key = some v) :
    r.vector? key = some v ∨ c = .set key v ∧ ∃ replaced, (r.execute c).1 = .ok (.flag replaced) := by
  cases c with
  | set k w =>
      rcases r.set_cases k w with ⟨e, he⟩ | ⟨hk, he⟩ | ⟨hk, he⟩
      · rw [execute, he] at h
        exact .inl h
      · rw [execute, he] at h ⊢
        rw [vector?_overwrite hk] at h
        split_ifs at h with hkey
        · subst hkey
          cases h
          exact .inr ⟨rfl, true, rfl⟩
        · exact .inl h
      · rw [execute, he] at h ⊢
        rw [vector?_append hk] at h
        split_ifs at h with hkey
        · subst hkey
          cases h
          exact .inr ⟨rfl, false, rfl⟩
        · exact .inl h
  | remove k =>
      rw [execute, vector?_without] at h
      split_ifs at h
      exact .inl h
  | clear => cases h
  | get | contains | keys | entries | size | isEmpty | dimension | metric | nearest
    | nearestWithDistances => exact .inl h

omit [DecidableEq K] in
theorem Shared.Request.eq_set_of_command {r : Request K α} {key : K} {v : List α}
    (h : r.command? = some (.set key v)) : r = .set (.sound key) v := by
  cases r with
  | set key =>
      cases key with
      | sound =>
          cases h
          rfl
      | aborting => cases h
  | get key => cases key <;> cases h
  | remove | clear | size | isEmpty | dimension | nearest | nearestWithDistances => cases h

variable [Hashable K]

namespace Index.WellFormed

variable {ix : Index K α} {r : Shared.Request K α} {key : K} {v : List α}

theorem answer (wf : ix.WellFormed) (r : Shared.Request K α) : (ix.answer r).2.WellFormed := by
  cases h : r.command? with
  | some c =>
      rw [ix.answer_of_command h]
      exact (wf.becomes_executeInOrder .standard c).wellFormed
  | none =>
      rwa [ix.unchanged_of_no_command h]

theorem vector?_answer (wf : ix.WellFormed) (h : (ix.answer r).2.roster.vector? key = some v) :
    ix.roster.vector? key = some v ∨
      r = .set (.sound key) v ∧ ∃ replaced, (ix.answer r).1 = .ok (.reply (.flag replaced)) := by
  cases hr : r.command? with
  | some c =>
      rw [ix.answer_of_command hr, comply, execute,
        (wf.becomes_executeInOrder .standard c).roster_eq] at h
      rcases Roster.vector?_execute h with h | ⟨rfl, replaced, hreply⟩
      · exact .inl h
      · refine .inr ⟨Shared.Request.eq_set_of_command hr, replaced, ?_⟩
        have hset := (wf.execute_set .standard key v).1
        rw [ix.answer_of_command hr, comply, execute, hset.trans hreply]
        rfl
  | none =>
      rw [ix.unchanged_of_no_command hr] at h
      exact .inl h

theorem answer_get (wf : ix.WellFormed) (key : K) :
    (ix.answer (.get (.sound key))).1 = .ok (.reply (.vector (ix.roster.vector? key))) := by
  rw [Index.answer, comply, execute, executeInOrder, wf.get_eq]
  rfl

theorem answer_remove (wf : ix.WellFormed) (key : K) :
    (ix.answer (.remove key)).1 = .ok (.reply (.vector (ix.roster.vector? key))) := by
  rw [Index.answer, comply, execute, (wf.execute_remove .standard key).1]
  rfl

end Index.WellFormed

namespace Shared.Pool

def Call.Stores (key : K) (v : List α) (c : Call K α) : Prop :=
  c.action = .request (.set (.sound key) v) ∧
    ∃ replaced, c.outcome = .ok (.response (.reply (.flag replaced)))

def Call.Yields (key : K) (v : List α) (c : Call K α) : Prop :=
  (c.action = .request (.get (.sound key)) ∨ c.action = .request (.remove key)) ∧
    c.outcome = .ok (.response (.reply (.vector (some v))))

variable {ix : Index K α} {p q : Pool K α} {h : Nat} {a : Action K α}
  {outcome : Except Error (Outcome K α)} {calls : List (Call K α)}

theorem shared_eq_of_read {r : Request K α} (hr : r.access = .read)
    (moved : p.step h (.request r) = some (outcome, q)) : q.shared = p.shared := by
  rcases step_cases moved with ⟨_, -, -, -, hq⟩ | ⟨_, hreq, hs, -, hq⟩ | ⟨-, -, hq⟩
  · exact hq
  · cases hreq
    rw [hq, Index.answer_of_read _ hr, Request.poisons_of_read hr, ← hs]
  · exact hq

theorem shared_eq_of_error {e : Error} (moved : p.step h a = some (.error e, q)) :
    q.shared = p.shared := by
  rcases step_cases moved with ⟨_, -, -, -, hq⟩ | ⟨r, -, hs, houtcome, hq⟩ | ⟨-, -, hq⟩
  · exact hq
  · have he := map_response_eq_error_iff.1 houtcome.symm
    -- A request that poisons the lock aborts, and so it is not refused.
    have hn : r.poisons p.shared.content.dimension = false := by
      rw [← Bool.not_eq_true]
      intro hp
      rw [Index.answer_aborted_iff.2 (.inl hp)] at he
      cases he
    rw [hq, Index.answer_of_error he, hn, ← hs]
  · exact hq

/-- Nothing that the action looks up aborts when hashed. -/
def Action.sound : Action K α → Bool
  | .request r => r.command?.isSome
  | .copy => true

theorem ne_aborted_of_sound (ha : a.sound = true) (moved : p.step h a = some (outcome, q)) :
    outcome ≠ .ok (.response .aborted) := by
  rcases step_cases moved with ⟨r, -, -, rfl, -⟩ | ⟨r, rfl, -, rfl, -⟩ | ⟨-, rfl, -⟩
  · exact nofun
  · obtain ⟨c, hc⟩ := Option.isSome_iff_exists.1 ha
    rw [ne_eq, map_response_eq_ok_iff, Index.answer_aborted_iff, Request.poisons_of_command hc]
    rintro (hp | ⟨rfl, -⟩)
    · cases hp
    · cases hc
  · exact nofun

structure Sourced (ix : Index K α) (calls : List (Call K α)) (p : Pool K α) : Prop where
  wellFormed : p.shared.content.WellFormed
  source : ∀ key v, p.shared.content.roster.vector? key = some v →
    ix.roster.vector? key = some v ∨ ∃ c ∈ calls, c.Stores key v

namespace Sourced

theorem start (wf : ix.WellFormed) (handles : Nat) : Sourced ix [] ⟨.ofIndex ix, handles⟩ :=
  ⟨wf, fun _ _ => .inl⟩

theorem source_of_yields (sourced : Sourced ix calls p)
    (moved : p.step h a = some (outcome, q)) {key : K} {v : List α}
    (hy : (Call.mk h a outcome).Yields key v) :
    ix.roster.vector? key = some v ∨ ∃ c ∈ calls, c.Stores key v := by
  apply sourced.source
  obtain ⟨ha, hv⟩ := hy
  rcases step_cases moved with ⟨_, -, -, houtcome, -⟩ | ⟨r, hr, -, houtcome, -⟩ | ⟨rfl, -, -⟩
  · cases houtcome.symm.trans hv
  · have hanswer := map_response_eq_ok_iff.1 (houtcome.symm.trans hv)
    rcases ha with ha | ha
    · cases hr.symm.trans ha
      simpa [sourced.wellFormed.answer_get] using hanswer
    · cases hr.symm.trans ha
      simpa [sourced.wellFormed.answer_remove] using hanswer
  · rcases ha with ha | ha <;> cases ha

theorem source_concat (sourced : Sourced ix calls p) (c : Call K α) {key : K} {v : List α}
    (hv : p.shared.content.roster.vector? key = some v) :
    ix.roster.vector? key = some v ∨ ∃ d ∈ calls ++ [c], d.Stores key v :=
  (sourced.source key v hv).imp_right fun ⟨d, hd, hstores⟩ =>
    ⟨d, List.mem_append_left _ hd, hstores⟩

theorem concat (sourced : Sourced ix calls p) (hq : q.shared = p.shared) (c : Call K α) :
    Sourced ix (calls ++ [c]) q where
  wellFormed := hq ▸ sourced.wellFormed
  source key v hv := by
    rw [hq] at hv
    exact sourced.source_concat c hv

theorem step (sourced : Sourced ix calls p) (moved : p.step h a = some (outcome, q)) :
    Sourced ix (calls ++ [⟨h, a, outcome⟩]) q := by
  rcases step_cases moved with ⟨_, -, -, -, hq⟩ | ⟨r, rfl, -, rfl, hq⟩ | ⟨-, -, hq⟩
  · exact sourced.concat hq _
  · constructor
    · rw [hq]
      exact sourced.wellFormed.answer r
    · intro key v hv
      rw [hq] at hv
      rcases sourced.wellFormed.vector?_answer hv with hv | ⟨rfl, replaced, hreply⟩
      · exact sourced.source_concat _ hv
      · exact .inr ⟨_, List.mem_append_right _ List.mem_cons_self, rfl, replaced,
          map_response_eq_ok_iff.2 hreply⟩
  · exact sourced.concat hq _

end Sourced

/-- The index has answered the requests of the calls one after another, and nothing else. -/
structure Serves (ix : Index K α) (calls : List (Call K α)) (p : Pool K α) : Prop where
  shared_eq : p.shared = .ofIndex (ix.answers (requests calls)).2
  outcomes_eq : (calls.filter (·.request?.isSome)).map Call.outcome =
    (ix.answers (requests calls)).1.map (Except.map .response)

namespace Serves

theorem start (ix : Index K α) (handles : Nat) : Serves ix [] ⟨.ofIndex ix, handles⟩ := ⟨rfl, rfl⟩

theorem step (serves : Serves ix calls p) (moved : p.step h a = some (outcome, q))
    (calm : outcome ≠ .ok (.response .aborted)) : Serves ix (calls ++ [⟨h, a, outcome⟩]) q := by
  rcases step_cases moved with ⟨_, -, hs, -⟩ | ⟨r, rfl, -, rfl, hq⟩ | ⟨rfl, -, hq⟩
  · rw [serves.shared_eq] at hs
    cases hs
  · rw [serves.shared_eq] at calm hq ⊢
    have hn : r.poisons (ix.answers (requests calls)).2.dimension = false := by
      rw [← Bool.not_eq_true]
      exact fun hp => calm (map_response_eq_ok_iff.2 (Index.answer_aborted_iff.2 (.inl hp)))
    constructor
    · rw [hq, requests_concat_request, Index.answers_append]
      exact congrArg (Guarded.mk _) hn
    · rw [requests_concat_request, Index.answers_append, List.filter_append, List.map_append,
        serves.outcomes_eq, List.map_append]
      rfl
  · constructor
    · rw [hq, requests_concat_copy, serves.shared_eq]
    · rw [requests_concat_copy, List.filter_append, ← serves.outcomes_eq]
      exact congrArg (List.map Call.outcome) (List.append_nil _)

end Serves

theorem serves_of_run (wf : ix.WellFormed) (handles : Nat) (actions : List (Nat × Action K α)) :
    let calls := ((Pool.mk (.ofIndex ix) handles).run actions).1
    let last := ((Pool.mk (.ofIndex ix) handles).run actions).2
    ((∀ c ∈ calls, c.outcome ≠ .ok (.response .aborted)) → Serves ix calls last) ∧
      Sourced ix calls last :=
  (run_induction
    (P := fun calls p => ((∀ c ∈ calls, c.outcome ≠ .ok (.response .aborted)) → Serves ix calls p) ∧
      Sourced ix calls p)
    (V := fun _ _ => True)
    (fun ⟨serves, sourced⟩ moved => ⟨trivial, fun calm =>
      (serves fun c hc => calm c (List.mem_append_left _ hc)).step moved
        (calm _ (List.mem_append_right _ List.mem_cons_self)), sourced.step moved⟩)
    ⟨fun _ => .start ix handles, .start wf handles⟩ actions).2

end Pool

namespace Clients

variable {ix : Index K α} {s next : Clients K α} {i : Nat} {t : Turn K α}

theorem turn_cases (moved : s.turn i = some (t, next)) :
    ∃ c, s.members[i]? = some c ∧ t.client = i ∧ c.program.head? = some t.entry ∧
      s.pool.step t.call.handle t.call.action = some (t.call.outcome, next.pool) ∧
      next.members = s.members.set i (c.after t.call.outcome) := by
  simp only [turn, bind, Option.bind_eq_some_iff] at moved
  obtain ⟨c, hc, ⟨place, a⟩, hentry, h, -, ⟨outcome, pool⟩, hstep, he⟩ := moved
  cases he
  exact ⟨c, hc, rfl, hentry, hstep, rfl⟩

theorem exists_run_pool (s : Clients K α) (schedule : List Nat) :
    ∃ actions, s.pool.run actions =
      ((s.run schedule).1.map Turn.call, (s.run schedule).2.pool) := by
  induction schedule generalizing s with
  | nil => exact ⟨[], rfl⟩
  | cons i schedule ih =>
      cases ht : s.turn i with
      | none => simpa only [run, ht] using ih s
      | some moved =>
          obtain ⟨t, next⟩ := moved
          obtain ⟨-, -, -, -, hstep, -⟩ := turn_cases ht
          obtain ⟨actions, hactions⟩ := ih next
          refine ⟨(t.call.handle, t.call.action) :: actions, ?_⟩
          simp only [Pool.run, hstep, hactions, run, ht]
          rfl

theorem program_eq_append (s : Clients K α) (schedule : List Nat) {c : Client K α}
    (hc : s.members[i]? = some c) :
    ∃ d, (s.run schedule).2.members[i]? = some d ∧ c.program =
      ((s.run schedule).1.filter (·.client = i)).map Turn.entry ++ d.program := by
  induction schedule generalizing s c with
  | nil => exact ⟨c, hc, rfl⟩
  | cons j schedule ih =>
      cases ht : s.turn j with
      | none => simpa only [run, ht] using ih s hc
      | some moved =>
          obtain ⟨t, next⟩ := moved
          obtain ⟨cj, hcj, hclient, hhead, -, hmembers⟩ := turn_cases ht
          simp only [run, ht]
          by_cases hij : j = i
          · subst hij
            cases hcj.symm.trans hc
            obtain ⟨d, hd, hprogram⟩ := ih next (c := c.after t.call.outcome) (by
              rw [hmembers, List.getElem?_set_self (List.getElem?_eq_some_iff.1 hc).1])
            refine ⟨d, hd, ?_⟩
            rw [List.filter_cons_of_pos (by simpa using hclient), List.map_cons, List.cons_append,
              ← hprogram]
            exact List.eq_cons_of_mem_head? hhead
          · obtain ⟨d, hd, hprogram⟩ := ih next (c := c) (by
              rw [hmembers, List.getElem?_set_ne hij, hc])
            refine ⟨d, hd, ?_⟩
            rwa [List.filter_cons_of_neg (by simpa [hclient] using hij)]

theorem ne_aborted_of_sound (s : Clients K α) (schedule : List Nat)
    (hsound : ∀ c ∈ s.members, ∀ entry ∈ c.program, entry.2.sound = true) :
    ∀ t ∈ (s.run schedule).1, t.call.outcome ≠ .ok (.response .aborted) := by
  induction schedule generalizing s with
  | nil => exact List.forall_mem_nil _
  | cons i schedule ih =>
      cases ht : s.turn i with
      | none => simpa only [run, ht] using ih s hsound
      | some moved =>
          obtain ⟨t, next⟩ := moved
          obtain ⟨c, hc, -, hhead, hstep, hmembers⟩ := turn_cases ht
          have hcmem := List.mem_of_getElem? hc
          simp only [run, ht]
          refine List.forall_mem_cons.2 ⟨?_, ih next ?_⟩
          · exact Pool.ne_aborted_of_sound (hsound c hcmem _ (List.mem_of_mem_head? hhead)) hstep
          · rw [hmembers]
            intro d hd entry hentry
            rcases List.mem_or_eq_of_mem_set hd with hd | rfl
            · exact hsound d hd entry hentry
            · exact hsound c hcmem entry (List.mem_of_mem_tail hentry)

variable [Element α]

/-- However the clients' turns fall, as long as none aborts, the shared index gives the answers that
it alone would give to the same requests in that order. -/
theorem linearizable {session : Session K α} (hs : session.Reachable) {ix : Index K α}
    (hix : ix ∈ session.indexes) (programs : List (List (Nat × Pool.Action K α)))
    (schedule : List Nat) (calm : ∀ t ∈ ((start ix programs).run schedule).1,
      t.call.outcome ≠ .ok (.response .aborted)) :
    let trace := ((start ix programs).run schedule).1
    let last := ((start ix programs).run schedule).2
    let calls := trace.map Turn.call
    (∀ (i : Nat) (program : List (Nat × Pool.Action K α)), programs[i]? = some program →
        (trace.filter (·.client = i)).map Turn.entry <+: program) ∧
      (calls.filter (·.request?.isSome)).map Pool.Call.outcome =
        (ix.answers (Pool.requests calls)).1.map (Except.map .response) ∧
      last.pool.shared = .ofIndex (ix.answers (Pool.requests calls)).2 ∧
      ∀ i t next, last.turn i = some (t, next) →
        (∀ r, t.call.action = .request r → r.access = .read →
          next.pool.shared = last.pool.shared) ∧
        (∀ e, t.call.outcome = .error e → next.pool.shared = last.pool.shared) ∧
        ∀ key v, t.call.Yields key v →
          ix.get key = .ok (some v) ∨ ∃ c ∈ calls, c.Stores key v := by
  have wf := hs.wellFormed ix hix
  obtain ⟨actions, hactions⟩ := exists_run_pool (start ix programs) schedule
  obtain ⟨hserves, sourced⟩ := Pool.serves_of_run wf programs.length actions
  rw [show Pool.mk (.ofIndex ix) programs.length = (start ix programs).pool from rfl,
    hactions] at hserves sourced
  have serves := hserves (List.forall_mem_map.2 calm)
  refine ⟨fun i program hprogram => ?_, serves.outcomes_eq, serves.shared_eq, ?_⟩
  · obtain ⟨d, -, he⟩ := program_eq_append (start ix programs) schedule (i := i)
      (c := ⟨[i], program⟩) (by simp [start, hprogram])
    exact ⟨d.program, he.symm⟩
  · intro i t next moved
    obtain ⟨-, -, -, -, hstep, -⟩ := turn_cases moved
    refine ⟨fun r hr hread => ?_, fun e he => ?_, fun key v hy => ?_⟩
    · rw [hr] at hstep
      exact Pool.shared_eq_of_read hread hstep
    · rw [he] at hstep
      exact Pool.shared_eq_of_error hstep
    · rw [wf.get_eq, Except.ok.injEq]
      exact sourced.source_of_yields hstep hy

/-- One client looks up through its second handle what the other tries to replace by a shorter
vector. -/
theorem linearizable_of_two_clients :
    ∃ (ix : Index Nat UInt8) (programs : List (List (Nat × Pool.Action Nat UInt8))),
      programs = [[(0, .request (.set (.sound 9) [3, 4])), (0, .copy),
          (1, .request (.get (.sound 7)))],
        [(0, .request (.set (.sound 7) [5])), (0, .request (.remove 9))]] ∧
      Session.Reachable ⟨[ix]⟩ ∧ ix.keys = [7] ∧
      let trace := ((start ix programs).run [0, 1, 0, 1, 0]).1
      let last := ((start ix programs).run [0, 1, 0, 1, 0]).2
      let calls := trace.map Turn.call
      (∀ t ∈ trace, t.call.outcome ≠ .ok (.response .aborted)) ∧
        (calls.filter (·.request?.isSome)).map Pool.Call.outcome =
          (ix.answers (Pool.requests calls)).1.map (Except.map .response) ∧
        last.pool.shared = .ofIndex (ix.answers (Pool.requests calls)).2 := by
  obtain ⟨ix, hs, -, hr⟩ := Session.exists_reachable (K := Nat) (by decide : 0 < 2)
    (.manhattan : Metric UInt8) .standard [.set 7 [1, 2]]
  have calm := ne_aborted_of_sound (start ix [[(0, .request (.set (.sound 9) [3, 4])), (0, .copy),
    (1, .request (.get (.sound 7)))], [(0, .request (.set (.sound 7) [5])),
      (0, .request (.remove 9))]]) [0, 1, 0, 1, 0] (by
    simp [start, List.forall_mem_cons, Pool.Action.sound, Request.command?, -List.mem_cons,
      -Prod.forall])
  obtain ⟨-, houtcomes, hlast, -⟩ := linearizable hs List.mem_cons_self _ _ calm
  exact ⟨ix, _, rfl, hs, hs.keys_eq hr, calm, houtcomes, hlast⟩

end Clients

end Shared

end Vicinity
