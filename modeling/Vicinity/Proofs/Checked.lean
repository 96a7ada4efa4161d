import Vicinity.Proofs.Reachable
import Vicinity.Proofs.Refusals

namespace Vicinity

namespace Checked

def add (a b : Nat) : Except Defect Nat :=
  if a + b < addressLimit then .ok (a + b) else .error .addressOverflow

def mul (a b : Nat) : Except Defect Nat :=
  if a * b < addressLimit then .ok (a * b) else .error .addressOverflow

def pred : Nat → Except Defect Nat
  | 0 => .error .addressOverflow
  | n + 1 => .ok n

section Buffers

variable {β : Type}

def at? (xs : List β) (place : Nat) : Except Defect β :=
  match xs[place]? with
  | some x => .ok x
  | none => .error .outOfRange

def eraseAt (xs : List β) (place : Nat) : Except Defect (List β) :=
  if place < xs.length then .ok (xs.eraseIdx place) else .error .outOfRange

def slice (xs : List β) (start stop : Nat) : Except Defect (List β) :=
  if start ≤ stop ∧ stop ≤ xs.length then .ok ((xs.drop start).take (stop - start))
  else .error .outOfRange

def overwrite (xs : List β) (start stop : Nat) (ys : List β) : Except Defect (List β) := do
  let old ← slice xs start stop
  if old.length ≠ ys.length then .error .unequalLengths
  return xs.take start ++ ys ++ xs.drop stop

def drain (xs : List β) (start stop : Nat) : Except Defect (List β × List β) := do
  let old ← slice xs start stop
  return (old, xs.take start ++ xs.drop stop)

def chunks (xs : List β) (width : Nat) : Except Defect (List (List β)) :=
  if positive : 0 < width then .ok (rows width positive xs) else .error .outOfRange

def extend (xs ys : List β) : Except Defect (List β) := do
  let _ ← add xs.length ys.length
  return xs ++ ys

theorem add_eq_ok {a b : Nat} (h : a + b < addressLimit) : add a b = .ok (a + b) := if_pos h

theorem mul_eq_ok {a b : Nat} (h : a * b < addressLimit) : mul a b = .ok (a * b) := if_pos h

theorem eraseAt_eq_ok {xs : List β} {place : Nat} (h : place < xs.length) :
    eraseAt xs place = .ok (xs.eraseIdx place) :=
  if_pos h

theorem chunks_eq_ok {width : Nat} (positive : 0 < width) (xs : List β) :
    chunks xs width = .ok (rows width positive xs) :=
  dif_pos positive

section Slices

variable {xs ys : List β} {start width : Nat}

theorem slice_eq_ok (h : start + width ≤ xs.length) :
    slice xs start (start + width) = .ok ((xs.drop start).take width) := by
  rw [slice, if_pos ⟨Nat.le_add_right _ _, h⟩, Nat.add_sub_cancel_left]

theorem overwrite_eq_ok (h : start + width ≤ xs.length) (hy : ys.length = width) :
    overwrite xs start (start + width) ys =
      .ok (xs.take start ++ ys ++ xs.drop (start + width)) := by
  have hold : ((xs.drop start).take width).length = ys.length := by
    rw [List.length_take, List.length_drop]
    omega
  rw [overwrite, slice_eq_ok h]
  exact if_neg (not_not.2 hold)

theorem drain_eq_ok (h : start + width ≤ xs.length) :
    drain xs start (start + width) =
      .ok ((xs.drop start).take width, xs.take start ++ xs.drop (start + width)) := by
  rw [drain, slice_eq_ok h]
  rfl

end Slices

end Buffers

section Commands

variable {K α : Type} [DecidableEq K] [Hashable K]

def selectAt (b : Backend) (cs : List Candidate) (place : Nat) : Except Defect (List Candidate) :=
  if h : place < cs.length then .ok (b.select cs ⟨place, h⟩) else .error .outOfRange

def rank (b : Backend) (metric : Metric α) (query cells : List α) (k : Nat) :
    Except Defect (List Candidate) :=
  if k = 0 ∨ query = [] ∨ cells = [] then .ok []
  else do
    let cs := Backend.candidates metric query (← chunks cells query.length)
    if k < cs.length then
      let ds ← selectAt b cs k
      return b.sort (ds.take k)
    else return b.sort cs

def bounds (ix : Index K α) (slot : Nat) : Except Defect (Nat × Nat) := do
  let start ← mul slot ix.dimension
  let stop ← add start ix.dimension
  return (start, stop)

def set (ix : Index K α) (key : K) (vector : List α) : Except Defect (Bool × Index K α) := do
  match ix.slots[key]? with
  | some slot =>
    let (start, stop) ← bounds ix slot
    let cells ← overwrite ix.cells start stop vector
    return (true, { ix with cells })
  | none =>
    let cells ← extend ix.cells vector
    return (false, { ix with
      keys := ix.keys ++ [key]
      slots := ix.slots.insert key ix.keys.length
      cells })

def get (ix : Index K α) (key : K) : Except Defect (Option (List α)) := do
  match ix.slots[key]? with
  | some slot =>
    let (start, stop) ← bounds ix slot
    let vector ← slice ix.cells start stop
    return some vector
  | none => return none

def lower (freed : Nat) (slots : Std.HashMap K Nat) (key : K) :
    Except Defect (Std.HashMap K Nat) := do
  let _ ← slots[key]?.mapM fun slot => if freed < slot then pred slot else .ok slot
  return slots.modify key (Index.closeGap freed)

def remove (order : KeyOrder K) (ix : Index K α) (key : K) :
    Except Defect (Option (List α) × Index K α) := do
  match ix.slots[key]? with
  | none => return (none, ix)
  | some slot =>
    let others := ix.slots.erase key
    let keys ← eraseAt ix.keys slot
    let (start, stop) ← bounds ix slot
    let (vector, cells) ← drain ix.cells start stop
    let slots ← (order.keys others).foldlM (lower slot) others
    return (some vector, { ix with keys, slots, cells })

def nearest (ix : Index K α) (query : List α) (k : Nat) : Except Defect (List (Neighbor K)) := do
  let cs ← rank ix.backend ix.metric query ix.cells k
  cs.mapM fun c => do
    let key ← at? ix.keys c.slot
    return ⟨key, c.distance⟩

def entries (ix : Index K α) : Except Defect (List (K × List α)) := do
  let rs ← chunks ix.cells ix.dimension
  return ix.keys.zip rs

/-- A command with a check before every access and after every sum, product and difference. Lengths
are compared first. The commands that are not listed compute no place. -/
def execute (order : KeyOrder K) (ix : Index K α) :
    Command K α → Except Defect (Except Error (Reply K α) × Index K α)
  | .set key vector =>
    match ix.checkDimension vector.length with
    | .error e => .ok (.error e, ix)
    | .ok _ => do
      let (replaced, ix) ← set ix key vector
      return (.ok (.flag replaced), ix)
  | .remove key => do
    let (vector, ix) ← remove order ix key
    return (.ok (.vector vector), ix)
  | .get key => do
    let vector ← get ix key
    return (.ok (.vector vector), ix)
  | .entries => do
    let es ← entries ix
    return (.ok (.entries es), ix)
  | .nearest query k =>
    match ix.checkDimension query.length with
    | .error e => .ok (.error e, ix)
    | .ok _ => do
      let ns ← nearest ix query k
      return (.ok (.keys (ns.map Neighbor.key)), ix)
  | .nearestWithDistances query k =>
    match ix.checkDimension query.length with
    | .error e => .ok (.error e, ix)
    | .ok _ => do
      let ns ← nearest ix query k
      return (.ok (.neighbors ns), ix)
  | c => .ok (ix.executeInOrder order c)

variable {ix : Index K α} {key : K} {slot : Nat} {vector : List α}

theorem rank_eq_ok (b : Backend) (metric : Metric α) (query cells : List α) (k : Nat) :
    rank b metric query cells k = .ok (b.rank metric query cells k) := by
  unfold rank Backend.rank
  by_cases h : k = 0 ∨ query = [] ∨ cells = []
  · rw [if_pos h, dif_pos h]
  · have hq : query ≠ [] := fun hq => h (.inr (.inl hq))
    rw [if_neg h, dif_neg h, chunks_eq_ok (List.length_pos_iff.2 hq)]
    dsimp only [bind, Except.bind, pure, Except.pure]
    split_ifs with hk
    · rw [selectAt, dif_pos hk]
    · rfl

theorem bounds_eq_ok (wf : ix.WellFormed) (h : ix.keys[slot]? = some key) :
    bounds ix slot = .ok (slot * ix.dimension, slot * ix.dimension + ix.dimension) := by
  have hstop := (wf.end_le_length h).trans_lt wf.addressable
  rw [bounds, mul_eq_ok ((Nat.le_add_right _ _).trans_lt hstop)]
  exact congrArg (· >>= fun stop => .ok (slot * ix.dimension, stop)) (add_eq_ok hstop)

theorem set_eq_ok (wf : ix.WellFormed) (hv : vector.length = ix.dimension)
    (hroom : ¬ix.Overflows (.set key vector)) :
    ∃ replaced next, set ix key vector = .ok (replaced, next) ∧
      ix.set key vector = .ok (replaced, next) := by
  rw [set, Index.set, Index.checkDimension, if_pos hv]
  cases hs : ix.slots[key]? with
  | none =>
      have hlt : ix.cells.length + vector.length < addressLimit := by
        rw [← not_le]
        intro hle
        refine hroom ⟨hv, ?_, hle⟩
        rw [Index.contains, Std.HashMap.contains_eq_isSome_getElem?, hs, Option.isSome_none]
      refine ⟨false, { ix with
        keys := ix.keys ++ [key]
        slots := ix.slots.insert key ix.keys.length
        cells := ix.cells ++ vector }, ?_, ?_⟩
      · simp only [extend, add_eq_ok hlt]
        rfl
      · simp only [Index.appendRow, if_neg (not_le.2 hlt)]
        rfl
  | some slot =>
      have hk := (wf.inverse key slot).1 hs
      refine ⟨true, { ix with
        cells := ix.cells.take (slot * ix.dimension) ++ vector ++
          ix.cells.drop (slot * ix.dimension + ix.dimension) }, ?_, ?_⟩
      · simp only [bounds_eq_ok wf hk, Except.ok_bind, overwrite_eq_ok (wf.end_le_length hk) hv]
        rfl
      · simp only [wf.overwriteRow_eq hk hv]
        rfl

theorem get_eq_ok (wf : ix.WellFormed) (key : K) :
    ∃ found, get ix key = .ok found ∧ ix.get key = .ok found := by
  rw [get, Index.get]
  cases hs : ix.slots[key]? with
  | none => exact ⟨none, rfl, rfl⟩
  | some slot =>
      have hk := (wf.inverse key slot).1 hs
      refine ⟨some ((ix.cells.drop (slot * ix.dimension)).take ix.dimension), ?_, ?_⟩
      · simp only [bounds_eq_ok wf hk, Except.ok_bind, slice_eq_ok (wf.end_le_length hk)]
        rfl
      · simp only [wf.row_eq hk]
        rfl

theorem foldlM_lower_eq_ok (freed : Nat) (order : List K) (slots : Std.HashMap K Nat) :
    order.foldlM (lower freed) slots = .ok (Index.renumber freed order slots) := by
  induction order generalizing slots with
  | nil => rfl
  | cons key order ih =>
      have hlower : lower freed slots key = .ok (slots.modify key (Index.closeGap freed)) := by
        rw [lower]
        cases slots[key]? with
        | none => rfl
        | some slot =>
            -- A slot that moves lies behind another one, so it is not the first.
            cases slot with
            | zero => rfl
            | succ slot => by_cases h : freed < slot + 1 <;> simp [h, pred]
      rw [List.foldlM_cons, hlower]
      exact ih _

theorem remove_eq_ok (wf : ix.WellFormed) (order : KeyOrder K) (key : K) :
    ∃ removed next, remove order ix key = .ok (removed, next) ∧
      ix.removeInOrder order key = .ok (removed, next) := by
  rw [remove, Index.removeInOrder]
  cases hs : ix.slots[key]? with
  | none => exact ⟨_, _, rfl, rfl⟩
  | some slot =>
      have hk := (wf.inverse key slot).1 hs
      have hlt := (List.getElem?_eq_some_iff.1 hk).1
      refine ⟨some ((ix.cells.drop (slot * ix.dimension)).take ix.dimension), { ix with
        keys := ix.keys.eraseIdx slot
        slots := Index.renumber slot (order.keys (ix.slots.erase key)) (ix.slots.erase key)
        cells := ix.cells.take (slot * ix.dimension) ++
          ix.cells.drop (slot * ix.dimension + ix.dimension) }, ?_, ?_⟩
      · simp only [eraseAt_eq_ok hlt, bounds_eq_ok wf hk, Except.ok_bind,
          drain_eq_ok (wf.end_le_length hk), foldlM_lower_eq_ok]
        rfl
      · simp only [Index.eraseKey, if_pos hlt, wf.row_eq hk, wf.withoutRow_eq hk]
        rfl

theorem nearest_eq_ok (wf : ix.WellFormed) (hb : ix.backend.Sound) {query : List α}
    (hq : query.length = ix.dimension) (k : Nat) :
    ∃ ns, nearest ix query k = .ok ns ∧ ix.nearestWithDistances query k = .ok ns := by
  have hroster := wf.nearestWithDistances_eq hb query k
  rw [Roster.nearest, Index.roster_dimension, if_pos hq] at hroster
  refine ⟨_, ?_, hroster⟩
  have hmap : (ix.backend.rank ix.metric query ix.cells k).mapM ix.neighbor =
      .ok ((ix.roster.ranking query).take k) := by
    rw [hb.rank_eq_rankAll, wf.rankAll_eq hq, wf.mapM_neighbor]
  rw [nearest, rank_eq_ok, ← hmap]
  refine congrArg (List.mapM · _) (funext fun c => ?_)
  rw [at?, Index.neighbor]
  cases ix.keys[c.slot]? <;> rfl

theorem execute_eq_ok (wf : ix.WellFormed) (order : KeyOrder K) {c : Command K α}
    (hb : c.IsQuery → ix.backend.Sound) (hroom : ¬ix.Overflows c) :
    execute order ix c = .ok (ix.executeInOrder order c) := by
  cases c with
  | set key vector =>
      by_cases hv : vector.length = ix.dimension
      · obtain ⟨replaced, next, hc, he⟩ := set_eq_ok wf hv hroom
        simp only [execute, Index.executeInOrder, Index.checkDimension, if_pos hv, hc, he]
        rfl
      · simp only [execute, Index.executeInOrder, Index.checkDimension, if_neg hv,
          Index.set_of_length_ne hv]
  | remove key =>
      obtain ⟨removed, next, hc, he⟩ := remove_eq_ok wf order key
      simp only [execute, Index.executeInOrder, hc, he]
      rfl
  | get key =>
      obtain ⟨found, hc, he⟩ := get_eq_ok wf key
      simp only [execute, Index.executeInOrder, hc, he]
      rfl
  | entries =>
      simp only [execute, entries, chunks_eq_ok ix.dimension_pos]
      rfl
  | nearest query k =>
      by_cases hq : query.length = ix.dimension
      · obtain ⟨ns, hc, he⟩ := nearest_eq_ok wf (hb trivial) hq k
        simp only [execute, Index.executeInOrder, Index.nearest, Index.checkDimension, if_pos hq,
          hc, he]
        rfl
      · simp only [execute, Index.executeInOrder, Index.nearest, Index.nearestWithDistances,
          Index.checkDimension, if_neg hq]
        rfl
  | nearestWithDistances query k =>
      by_cases hq : query.length = ix.dimension
      · obtain ⟨ns, hc, he⟩ := nearest_eq_ok wf (hb trivial) hq k
        simp only [execute, Index.executeInOrder, Index.checkDimension, if_pos hq, hc, he]
        rfl
      · simp only [execute, Index.executeInOrder, Index.nearestWithDistances,
          Index.checkDimension, if_neg hq]
        rfl
  | clear | contains | keys | size | isEmpty | dimension | metric => rfl

end Commands

end Checked

namespace Session

variable {K α : Type} [DecidableEq K] [Hashable K] [Element α]

/-- On an index of any history the checks change nothing: every sum and product is an address, every
access lies within its store, every width is positive, and no slot falls below the first. Only the
length of a vector can be refused. -/
theorem Reachable.execute_checked {s : Session K α} (hs : s.Reachable) {ix : Index K α}
    (hix : ix ∈ s.indexes) (hb : ix.backend.Sound) (order : KeyOrder K) (c : Command K α)
    (hroom : ¬ix.Overflows c) :
    Checked.execute order ix c = .ok (ix.executeInOrder order c) ∧
      (∀ e, (ix.executeInOrder order c).1 = .error e →
        ∃ n, c.length? = some n ∧ n ≠ ix.dimension ∧ e = .dimensionMismatch ix.dimension n) ∧
      (ix.executeInOrder order c).2.cells.length < addressLimit := by
  have wf := hs.wellFormed ix hix
  refine ⟨Checked.execute_eq_ok wf order (fun _ => hb) hroom, fun e he => ?_,
    (wf.becomes_executeInOrder order c).wellFormed.addressable⟩
  rcases (wf.executeInOrder_eq_error_iff order fun _ => hb).1 he with h | ⟨h, -⟩
  · exact h
  · exact absurd h hroom

theorem execute_checked_of_moved :
    ∃ ix : Index Nat UInt8, Reachable ⟨[ix]⟩ ∧ ix.keys = [9, 8] ∧ ix.backend.Sound ∧
      ¬ix.Overflows (.set 8 [5, 6]) ∧
      Checked.execute .standard ix (.set 8 [5, 6]) = .ok (ix.execute (.set 8 [5, 6])) := by
  obtain ⟨ix, hs, hb, hr⟩ := exists_reachable (K := Nat) (by decide : 0 < 2)
    (.manhattan : Metric UInt8) .standard [.set 7 [1, 2], .set 9 [3, 4], .set 8 [0, 1], .remove 7]
  have hkeys : ix.keys = [9, 8] := hs.keys_eq hr
  have hsound : ix.backend.Sound := hb ▸ Backend.standard_sound
  have hroom : ¬ix.Overflows (.set 8 [5, 6]) := by
    have wf := hs.wellFormed ix List.mem_cons_self
    rintro ⟨-, hnew, -⟩
    rw [wf.contains_eq, wf.keys_roster, hkeys] at hnew
    exact absurd hnew (by decide)
  exact ⟨ix, hs, hkeys, hsound, hroom,
    (hs.execute_checked List.mem_cons_self hsound .standard _ hroom).1⟩

end Session

end Vicinity
