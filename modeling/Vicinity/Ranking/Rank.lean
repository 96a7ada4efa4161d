import Vicinity.Metric.Basic
import Vicinity.Ranking.Backend

namespace Vicinity

/-- The complete rows of the given width, end to end from the start of a buffer. -/
def rows {α : Type} (width : Nat) (positive : 0 < width) (cells : List α) : List (List α) :=
  if _ : width ≤ cells.length then
    cells.take width :: rows width positive (cells.drop width)
  else []
termination_by cells.length
decreasing_by rw [List.length_drop]; omega

namespace Backend

variable {α : Type}

def candidates (metric : Metric α) (query : List α) (rs : List (List α)) : List Candidate :=
  rs.mapIdx fun slot row => ⟨slot, metric.distance query row⟩

def rank (b : Backend) (metric : Metric α) (query cells : List α) (k : Nat) : List Candidate :=
  if h : k = 0 ∨ query = [] ∨ cells = [] then []
  else
    let cs := candidates metric query (rows query.length (List.length_pos_iff.2 (by grind)) cells)
    if hk : k < cs.length then b.sort ((b.select cs ⟨k, hk⟩).take k) else b.sort cs

def rankAll (metric : Metric α) (query cells : List α) (k : Nat) : List Candidate :=
  if h : query = [] then []
  else
    let cs := candidates metric query (rows query.length (List.length_pos_iff.2 h) cells)
    (cs.mergeSort Candidate.ranksBy).take k

end Backend

end Vicinity
