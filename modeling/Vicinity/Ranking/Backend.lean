import Vicinity.Ranking.Candidate

namespace Vicinity

open Candidate

/-- The two rearrangements that ranking is built from. -/
structure Backend where
  select : (cs : List Candidate) → Fin cs.length → List Candidate
  sort : List Candidate → List Candidate

namespace Backend

/-- The list `ds` rearranges `cs` so that nothing before place `i` ranks after the candidate there,
and nothing behind it ranks before. -/
def Selected (cs : List Candidate) (i : Nat) (ds : List Candidate) : Prop :=
  ds.Perm cs ∧ ∃ c, ds[i]? = some c ∧
    (∀ d ∈ ds.take i, d.rankCompare c ≠ .gt) ∧ ∀ d ∈ ds.drop (i + 1), d.rankCompare c ≠ .lt

def Sorted (ds : List Candidate) : Prop := ds.Pairwise fun c d => c.rankCompare d ≠ .gt

/-- All that ranking relies on; neither rearrangement has to keep ties in order. -/
structure Sound (b : Backend) : Prop where
  select_selected : ∀ cs (i : Fin cs.length), Selected cs i (b.select cs i)
  sort_perm : ∀ cs, (b.sort cs).Perm cs
  sort_sorted : ∀ cs, Sorted (b.sort cs)

def ahead (pivot : Candidate) (cs : List Candidate) : List Candidate := cs.filter (·.precedes pivot)
def behind (pivot : Candidate) (cs : List Candidate) : List Candidate := cs.filter (!·.precedes pivot)

def quickselect (cs : List Candidate) (i : Nat) : List Candidate :=
  match cs with
  | [] => []
  | pivot :: rest =>
    let before := ahead pivot rest
    let after := behind pivot rest
    if i < before.length then quickselect before i ++ pivot :: after
    else if i = before.length then before ++ pivot :: after
    else before ++ pivot :: quickselect after (i - before.length - 1)
termination_by cs.length
decreasing_by all_goals exact Nat.lt_succ_of_le (List.length_filter_le _ _)

def standard : Backend where
  select cs i := quickselect cs i
  sort cs := cs.mergeSort ranksBy

end Backend

end Vicinity
