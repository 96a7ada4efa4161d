import Vicinity.Guarded
import Vicinity.Index.Command

namespace Vicinity

/-- A key to look up; hashing one kind aborts the operation that tries it. -/
inductive Probe (K : Type)
  | sound (key : K)
  | aborting

namespace Shared

inductive Request (K α : Type)
  | set (key : Probe K) (vector : List α)
  | remove (key : K)
  | clear
  | get (key : Probe K)
  | size
  | isEmpty
  | dimension
  | nearest (query : List α) (k : Nat)
  | nearestWithDistances (query : List α) (k : Nat)

namespace Request

variable {K α : Type}

def access : Request K α → Access
  | .set .. | .remove .. | .clear => .write
  | _ => .read

def operation : Request K α → String
  | .set .. => "set"
  | .remove .. => "remove"
  | .clear => "clear"
  | .get .. => "get"
  -- Emptiness is asked for by the length.
  | .size | .isEmpty => "len"
  | .dimension => "dimension"
  | .nearest .. => "approx_nearest"
  | .nearestWithDistances .. => "approx_nearest_with_distances"

def command? : Request K α → Option (Command K α)
  | .set (.sound key) vector => some (.set key vector)
  | .set .aborting _ => none
  | .remove key => some (.remove key)
  | .clear => some .clear
  | .get (.sound key) => some (.get key)
  | .get .aborting => none
  | .size => some .size
  | .isEmpty => some .isEmpty
  | .dimension => some .dimension
  | .nearest query k => some (.nearest query k)
  | .nearestWithDistances query k => some (.nearestWithDistances query k)

def checkedLength? : Request K α → Option Nat
  | .set _ vector => some vector.length
  | _ => none

end Request

inductive Response (K α : Type)
  | reply (r : Reply K α)
  | aborted

end Shared

abbrev Shared (K α : Type) [DecidableEq K] [Hashable K] := Guarded (Index K α)

namespace Shared

variable {K α : Type} [DecidableEq K] [Hashable K]

def ofIndex (ix : Index K α) : Shared K α := { content := ix }

/-- A key is hashed only after the vector beside it has passed. A look-up in a map without keys does
not hash it at all and finds nothing. -/
def abortOn (s : Shared K α) (r : Request K α) : Except Error (Response K α) × Shared K α :=
  match r.checkedLength?.mapM s.content.checkDimension with
  | .error e => (.error e, s)
  | .ok _ =>
    if r.access = .read ∧ s.content.slots.isEmpty then (.ok (.reply (.vector none)), s)
    else (.ok .aborted, s.abort r.access)

def execute (s : Shared K α) (r : Request K α) : Except Error (Response K α) × Shared K α :=
  match s.acquire r.access r.operation with
  | .error e => (.error e, s)
  | .ok ix =>
    match r.command? with
    | some c =>
      let (reply, ix) := ix.execute c
      (reply.map .reply, { s with content := ix })
    | none => s.abortOn r

end Shared

end Vicinity
