import Vicinity.Proofs.Except
import Vicinity.Proofs.Refinement

namespace Vicinity

variable {K α : Type}

namespace Command

def length? : Command K α → Option Nat
  | .set _ vector => some vector.length
  | .nearest query _ | .nearestWithDistances query _ => some query.length
  | _ => none

end Command

theorem Roster.nearest_eq_error_iff {r : Roster K α} {query : List α} {k : Nat} {e : Error} :
    r.nearest query k = .error e ↔
      query.length ≠ r.dimension ∧ e = .dimensionMismatch r.dimension query.length := by
  rw [Roster.nearest]
  split_ifs with hq <;> simp [hq, eq_comm]

variable [DecidableEq K]

namespace Roster

def Overflows (r : Roster K α) : Command K α → Prop
  | .set key vector => vector.length = r.dimension ∧ key ∉ r.keys ∧ r.Full
  | _ => False

theorem set_eq_error_iff {r : Roster K α} {key : K} {vector : List α} {e : Error} :
    (r.set key vector).1 = .error e ↔
      (vector.length ≠ r.dimension ∧ e = .dimensionMismatch r.dimension vector.length) ∨
        r.Overflows (.set key vector) ∧ e = .defect .addressOverflow := by
  rw [Roster.set, Overflows]
  split_ifs with hlen hkey hfull <;> simp_all [eq_comm]

theorem execute_eq_error_iff {r : Roster K α} {c : Command K α} {e : Error} :
    (r.execute c).1 = .error e ↔
      (∃ n, c.length? = some n ∧ n ≠ r.dimension ∧ e = .dimensionMismatch r.dimension n) ∨
        r.Overflows c ∧ e = .defect .addressOverflow := by
  cases c with
  | set key vector => simp [execute, set_eq_error_iff, Command.length?]
  | nearest query k | nearestWithDistances query k =>
      simp [execute, Except.map_eq_error_iff, nearest_eq_error_iff, Command.length?, Overflows]
  | remove | clear | get | contains | keys | entries | size | isEmpty | dimension | metric =>
      simp [execute, Command.length?, Overflows]

end Roster

namespace Index

variable [Hashable K]

def Overflows (ix : Index K α) : Command K α → Prop
  | .set key vector => vector.length = ix.dimension ∧ ix.contains key = false ∧
      addressLimit ≤ ix.cells.length + vector.length
  | _ => False

namespace WellFormed

variable {ix : Index K α}

theorem overflows_iff (wf : ix.WellFormed) (c : Command K α) :
    ix.Overflows c ↔ ix.roster.Overflows c := by
  cases c with
  | set key vector =>
      simp only [Overflows, Roster.Overflows, roster_dimension, wf.contains_eq, wf.full_iff,
        decide_eq_false_iff_not]
      constructor
      · rintro ⟨hv, hk, h⟩
        exact ⟨hv, hk, hv ▸ h⟩
      · rintro ⟨hv, hk, h⟩
        exact ⟨hv, hk, hv.symm ▸ h⟩
  | remove | clear | get | contains | keys | entries | size | isEmpty | dimension | metric | nearest
    | nearestWithDistances => exact Iff.rfl

/-- A command is refused for the length of its vector or for want of room, and for nothing else. -/
theorem executeInOrder_eq_error_iff (wf : ix.WellFormed) (order : KeyOrder K) {c : Command K α}
    (hb : c.IsQuery → ix.backend.Sound) {e : Error} :
    (ix.executeInOrder order c).1 = .error e ↔
      (∃ n, c.length? = some n ∧ n ≠ ix.dimension ∧ e = .dimensionMismatch ix.dimension n) ∨
        ix.Overflows c ∧ e = .defect .addressOverflow := by
  rw [wf.reply_executeInOrder order c hb, Roster.execute_eq_error_iff, wf.overflows_iff]
  rfl

end WellFormed

end Index

end Vicinity
