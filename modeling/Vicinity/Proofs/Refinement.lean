import Vicinity.Proofs.Nearest
import Vicinity.Proofs.Simulation

namespace Vicinity

variable {K α : Type}

def Command.IsQuery : Command K α → Prop
  | .nearest .. | .nearestWithDistances .. => True
  | _ => False

namespace Index

variable [DecidableEq K] [Hashable K]

namespace WellFormed

theorem reply_executeInOrder {ix : Index K α} (wf : ix.WellFormed) (order : KeyOrder K)
    (c : Command K α) (hb : c.IsQuery → ix.backend.Sound) :
    (ix.executeInOrder order c).1 = (ix.roster.execute c).1 := by
  cases c with
  | set key vector => exact (wf.execute_set order key vector).1
  | remove key => exact (wf.execute_remove order key).1
  | get key =>
      simp only [executeInOrder, Roster.execute, wf.get_eq]
      rfl
  | contains key => simp only [executeInOrder, Roster.execute, wf.contains_eq]
  | keys => simp only [executeInOrder, Roster.execute, wf.keys_roster]
  | size => simp only [executeInOrder, Roster.execute, roster_entries, wf.length_entries, size]
  | isEmpty =>
      simp only [executeInOrder, Roster.execute, isEmpty, ← wf.keys_roster, Roster.keys,
        List.isEmpty_map]
  | nearest query k =>
      simp only [executeInOrder, Roster.execute, nearest, wf.nearestWithDistances_eq (hb trivial)]
      cases ix.roster.nearest query k <;> rfl
  | nearestWithDistances query k =>
      simp only [executeInOrder, Roster.execute, wf.nearestWithDistances_eq (hb trivial)]
  | clear | entries | dimension | metric => rfl

theorem replies_runInOrders {ix : Index K α} (wf : ix.WellFormed)
    (cs : List (KeyOrder K × Command K α)) (hb : ∀ p ∈ cs, p.2.IsQuery → ix.backend.Sound) :
    (ix.runInOrders cs).1 = (ix.roster.run (cs.map Prod.snd)).1 := by
  induction cs generalizing ix with
  | nil => rfl
  | cons p cs ih =>
      obtain ⟨order, c⟩ := p
      have hreply := wf.reply_executeInOrder order c (hb (order, c) List.mem_cons_self)
      have hnext := wf.becomes_executeInOrder order c
      have hreplies := ih hnext.wellFormed fun p hp hq => by
        rw [hnext.backend_eq]
        exact hb p (List.mem_cons_of_mem _ hp) hq
      rw [hnext.roster_eq] at hreplies
      exact congrArg₂ List.cons hreply hreplies

end WellFormed

/-- To its user an index is a roster: a run on a fresh index gives the replies of the same run on an
empty list of keys and vectors, in whatever order removals renumber the slots. The list refuses new
keys when the addresses are used up, and is a plain one below that (`run_eq_runUnlimited`). -/
theorem replies_eq_roster_replies {dimension : Nat} (hd : 0 < dimension) (metric : Metric α)
    (backend : Backend) :
    ∃ ix : Index K α, emptyOn dimension metric backend = .ok ix ∧
      ∀ cs : List (KeyOrder K × Command K α),
        ((∀ p ∈ cs, p.2.IsQuery → backend.Sound) →
          (ix.runInOrders cs).1 = ((Roster.mk dimension metric []).run (cs.map Prod.snd)).1) ∧
        (ix.runInOrders cs).2.roster =
          ((Roster.mk dimension metric []).run (cs.map Prod.snd)).2 ∧
        ((Roster.mk dimension metric []).run (cs.map Prod.snd)).2.keys.Nodup := by
  have hok : emptyOn dimension metric backend =
      .ok (⟨dimension, hd, metric, backend, [], ∅, []⟩ : Index K α) := dif_pos hd
  obtain ⟨wf, hr, -⟩ := emptyOn_eq_ok hok
  refine ⟨_, hok, fun cs => ?_⟩
  have hreplies := wf.replies_runInOrders cs
  have hlast := wf.becomes_runInOrders cs
  rw [hr] at hreplies hlast
  exact ⟨hreplies, hlast.roster_eq, hlast.roster_eq ▸ hlast.wellFormed.nodup_keys_roster⟩

/-- The first of two keys is replaced in place, taken out, and comes back behind the second. -/
theorem replies_after_return :
    0 < 2 ∧ ∃ ix : Index Nat UInt8, emptyOn 2 .manhattan .standard = .ok ix ∧
        (ix.run [.set 7 [1, 2], .set 9 [3, 4], .set 7 [5, 6], .keys, .remove 7, .set 9 [0],
          .set 7 [1, 1], .entries]).1 =
          [.ok (.flag false), .ok (.flag false), .ok (.flag true), .ok (.keys [7, 9]),
            .ok (.vector (some [5, 6])), .error (.dimensionMismatch 2 1), .ok (.flag false),
            .ok (.entries [(9, [3, 4]), (7, [1, 1])])] := by
  refine ⟨by decide, ?_⟩
  obtain ⟨ix, hok, h⟩ := replies_eq_roster_replies (K := Nat) (by decide : 0 < 2)
    (.manhattan : Metric UInt8) .standard
  obtain ⟨hreplies, -⟩ := h (List.map (fun c => (.standard, c)) _)
  exact ⟨ix, hok, (hreplies fun _ _ _ => Backend.standard_sound).trans rfl⟩

end Index

end Vicinity
