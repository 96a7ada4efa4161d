import Vicinity.Proofs.Locality
import Vicinity.Proofs.Refusals

namespace Vicinity

variable {K α : Type} [DecidableEq K]

namespace Roster

def setUnlimited (r : Roster K α) (key : K) (vector : List α) :
    Except Error (Reply K α) × Roster K α :=
  if vector.length ≠ r.dimension then (.error (.dimensionMismatch r.dimension vector.length), r)
  else if key ∈ r.keys then (.ok (.flag true), r.overwrite key vector)
  else (.ok (.flag false), r.append key vector)

def executeUnlimited (r : Roster K α) : Command K α → Except Error (Reply K α) × Roster K α
  | .set key vector => r.setUnlimited key vector
  | c => r.execute c

def runUnlimited (r : Roster K α) :
    List (Command K α) → List (Except Error (Reply K α)) × Roster K α
  | [] => ([], r)
  | c :: cs =>
    let (reply, r) := r.executeUnlimited c
    let (replies, r) := r.runUnlimited cs
    (reply :: replies, r)

/-- At no point of the run are there as many components as addresses. -/
def StaysBelow (r : Roster K α) (cs : List (Command K α)) : Prop :=
  ∀ n, (r.runUnlimited (cs.take n)).2.entries.length * r.dimension < addressLimit

variable {r : Roster K α} {c : Command K α} {cs : List (Command K α)}

theorem executeUnlimited_eq (h : ¬r.Overflows c) : r.executeUnlimited c = r.execute c := by
  cases c with
  | set key vector =>
      rw [executeUnlimited, execute, setUnlimited, set]
      split_ifs with hv hkey hfull
      · rfl
      · rfl
      · exact absurd ⟨not_not.1 hv, hkey, hfull⟩ h
      · rfl
  | remove | clear | get | contains | keys | entries | size | isEmpty | dimension | metric | nearest
    | nearestWithDistances => rfl

theorem setUnlimited_of_not_mem {key : K} {vector : List α} (hv : vector.length = r.dimension)
    (h : key ∉ r.keys) : r.setUnlimited key vector = (.ok (.flag false), r.append key vector) := by
  rw [setUnlimited, if_neg (not_not.2 hv), if_neg h]

namespace StaysBelow

theorem not_overflows (h : r.StaysBelow (c :: cs)) : ¬r.Overflows c := by
  cases c with
  | set key vector =>
      rintro ⟨hv, hkey, hfull⟩
      have hlt : (r.setUnlimited key vector).2.entries.length * r.dimension < addressLimit := h 1
      rw [setUnlimited_of_not_mem hv hkey, append, List.length_append] at hlt
      exact hlt.not_ge hfull
  | remove | clear | get | contains | keys | entries | size | isEmpty | dimension | metric | nearest
    | nearestWithDistances => exact not_false

theorem tail (h : r.StaysBelow (c :: cs)) : (r.execute c).2.StaysBelow cs := by
  intro n
  have hlt := h (n + 1)
  rw [List.take_succ_cons, runUnlimited, executeUnlimited_eq h.not_overflows] at hlt
  rwa [(r.execute_keeps c).1]

end StaysBelow

theorem run_eq_runUnlimited (h : r.StaysBelow cs) : r.run cs = r.runUnlimited cs := by
  induction cs generalizing r with
  | nil => rfl
  | cons c cs ih =>
      simp only [run, runUnlimited, executeUnlimited_eq h.not_overflows, ih h.tail]

theorem length_entries_executeUnlimited_le (r : Roster K α) (c : Command K α) :
    (r.executeUnlimited c).2.entries.length ≤ r.entries.length + 1 := by
  cases c with
  | set key vector =>
      rw [executeUnlimited, setUnlimited]
      split_ifs
      · exact Nat.le_succ _
      · exact (List.length_map _).le.trans (Nat.le_succ _)
      · exact List.length_append.le
  | remove key => exact (List.length_filter_le _ _).trans (Nat.le_succ _)
  | clear => exact Nat.zero_le _
  | get | contains | keys | entries | size | isEmpty | dimension | metric | nearest
    | nearestWithDistances => exact Nat.le_succ _

theorem length_entries_runUnlimited_le (r : Roster K α) (cs : List (Command K α)) :
    (r.runUnlimited cs).2.entries.length ≤ r.entries.length + cs.length := by
  induction cs generalizing r with
  | nil => exact le_rfl
  | cons c cs ih =>
      have hstep := r.length_entries_executeUnlimited_le c
      have hrest := ih (r.executeUnlimited c).2
      simp only [runUnlimited, List.length_cons]
      omega

/-- Few enough commands stay below the limit whatever they do. -/
theorem staysBelow_of_length (h : (r.entries.length + cs.length) * r.dimension < addressLimit) :
    r.StaysBelow cs := by
  intro n
  refine lt_of_le_of_lt (Nat.mul_le_mul_right _ ?_) h
  have hle := r.length_entries_runUnlimited_le (cs.take n)
  have htake := List.length_take_le' n cs
  omega

end Roster

variable [Hashable K]

namespace Index

variable {ix : Index K α}

theorem WellFormed.run_eq_runUnlimited (wf : ix.WellFormed)
    {cs : List (KeyOrder K × Command K α)} (hb : ∀ p ∈ cs, p.2.IsQuery → ix.backend.Sound)
    (h : ix.roster.StaysBelow (cs.map Prod.snd)) :
    (ix.runInOrders cs).1 = (ix.roster.runUnlimited (cs.map Prod.snd)).1 ∧
      (ix.runInOrders cs).2.roster = (ix.roster.runUnlimited (cs.map Prod.snd)).2 := by
  rw [← Roster.run_eq_runUnlimited h]
  exact ⟨wf.replies_runInOrders cs hb, (wf.becomes_runInOrders cs).roster_eq⟩

/-- Below the limit a fresh index replies as a plain list of keys and vectors does. -/
theorem replies_eq_unlimited_replies {dimension : Nat} {metric : Metric α} {backend : Backend}
    (hok : emptyOn dimension metric backend = .ok ix) {cs : List (KeyOrder K × Command K α)}
    (hb : ∀ p ∈ cs, p.2.IsQuery → backend.Sound)
    (h : (Roster.mk dimension metric []).StaysBelow (cs.map Prod.snd)) :
    (ix.runInOrders cs).1 =
        ((Roster.mk dimension metric []).runUnlimited (cs.map Prod.snd)).1 ∧
      (ix.runInOrders cs).2.roster =
        ((Roster.mk dimension metric []).runUnlimited (cs.map Prod.snd)).2 := by
  obtain ⟨wf, hr, rfl⟩ := emptyOn_eq_ok hok
  rw [← hr] at h ⊢
  exact wf.run_eq_runUnlimited hb h

theorem WellFormed.not_overflows (wf : ix.WellFormed)
    (hroom : (ix.size + 1) * ix.dimension < addressLimit) (c : Command K α) :
    ¬ix.Overflows c := by
  cases c with
  | set key vector =>
      rintro ⟨hv, -, hlimit⟩
      rw [wf.cells_length, hv, ← Nat.succ_mul] at hlimit
      exact hroom.not_ge hlimit
  | remove | clear | get | contains | keys | entries | size | isEmpty | dimension | metric | nearest
    | nearestWithDistances => exact not_false

end Index

namespace Session

variable [Element α] {s : Session K α} {ix : Index K α}

theorem Reachable.set_leaves_others (hs : s.Reachable) (hix : ix ∈ s.indexes)
    (hb : ix.backend.Sound) (key : K) {query vector : List α} (hq : query.length = ix.dimension)
    (hv : vector.length = ix.dimension) (hroom : (ix.size + 1) * ix.dimension < addressLimit) :
    ∃ next, ix.set key vector = .ok (ix.contains key, next) ∧
      ∀ j k, ix.size ≤ j → next.size ≤ k → ∃ ms ns,
        ix.nearestWithDistances query j = .ok ms ∧
        next.nearestWithDistances query k = .ok ns ∧
        Neighbor.others key ms = Neighbor.others key ns := by
  rcases (hs.wellFormed ix hix).set_others hb hq key hv with h | ⟨-, hlimit, -⟩
  · exact h
  · exact absurd hlimit hroom.not_ge

/-- With room for one more row a command is refused for the length of its vector only. -/
theorem Reachable.refused_iff_length_ne (hs : s.Reachable) (hix : ix ∈ s.indexes)
    (order : KeyOrder K) {c : Command K α} (hb : c.IsQuery → ix.backend.Sound)
    (hroom : (ix.size + 1) * ix.dimension < addressLimit) {e : Error} :
    (ix.executeInOrder order c).1 = .error e ↔
      ∃ n, c.length? = some n ∧ n ≠ ix.dimension ∧ e = .dimensionMismatch ix.dimension n := by
  have wf := hs.wellFormed ix hix
  rw [wf.executeInOrder_eq_error_iff order hb]
  exact or_iff_left fun h => wf.not_overflows hroom c h.1

end Session

end Vicinity
