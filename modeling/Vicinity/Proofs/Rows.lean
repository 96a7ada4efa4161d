import Vicinity.Ranking.Rank

namespace Vicinity

variable {α : Type} {width : Nat} {positive : 0 < width}

theorem rows_nil : rows width positive ([] : List α) = [] := by
  rw [rows, dif_neg (by rw [List.length_nil]; omega)]

theorem length_of_mem_rows {cells row : List α} (h : row ∈ rows width positive cells) :
    row.length = width := by
  fun_induction rows width positive cells with
  | case1 cells hw ih =>
      rcases List.mem_cons.1 h with rfl | hr
      · rw [List.length_take]; omega
      · exact ih hr
  | case2 => cases h

/-- The rows by their slots. Cells behind the last complete row are in none of them. -/
theorem rows_eq_map (cells : List α) :
    rows width positive cells = (List.range (cells.length / width)).map fun slot =>
      (cells.drop (slot * width)).take width := by
  fun_induction rows width positive cells with
  | case1 cells hw ih =>
      rw [ih, Nat.div_eq_sub_div positive hw, List.range_succ_eq_map, List.map_cons, List.map_map,
        List.length_drop, Nat.zero_mul, List.drop_zero]
      refine congrArg _ (List.map_congr_left fun slot _ => ?_)
      rw [List.drop_drop, Function.comp_apply, Nat.succ_mul, Nat.add_comm]
  | case2 cells hw =>
      rw [Nat.div_eq_of_lt (by omega)]
      rfl

theorem subset_of_mem_rows {cells row : List α} (h : row ∈ rows width positive cells) :
    row ⊆ cells := by
  rw [rows_eq_map] at h
  obtain ⟨slot, -, rfl⟩ := List.mem_map.1 h
  exact fun x hx => List.mem_of_mem_drop (List.mem_of_mem_take hx)

theorem rows_length (cells : List α) :
    (rows width positive cells).length = cells.length / width := by
  rw [rows_eq_map, List.length_map, List.length_range]

theorem flatten_rows {cells : List α} {n : Nat} (h : cells.length = n * width) :
    (rows width positive cells).flatten = cells := by
  induction n generalizing cells with
  | zero =>
      obtain rfl : cells = [] := List.eq_nil_of_length_eq_zero (by omega)
      rw [rows_nil, List.flatten_nil]
  | succ n ih =>
      rw [Nat.succ_mul] at h
      have hrest : (cells.drop width).length = n * width := by rw [List.length_drop]; omega
      rw [rows, dif_pos (by omega), List.flatten_cons, ih hrest, List.take_append_drop]

theorem rows_flatten {rs : List (List α)} (h : ∀ row ∈ rs, row.length = width) :
    rows width positive rs.flatten = rs := by
  induction rs with
  | nil => exact rows_nil
  | cons row rs ih =>
      obtain ⟨hrow, hrs⟩ := List.forall_mem_cons.1 h
      rw [List.flatten_cons, rows, dif_pos (by rw [List.length_append]; omega),
        List.take_left' hrow, List.drop_left' hrow, ih hrs]

theorem take_mul_flatten {rs : List (List α)} (h : ∀ row ∈ rs, row.length = width) (i : Nat) :
    rs.flatten.take (i * width) = (rs.take i).flatten := by
  induction rs generalizing i with
  | nil => simp
  | cons row rs ih =>
      obtain ⟨hrow, hrs⟩ := List.forall_mem_cons.1 h
      cases i with
      | zero => simp
      | succ i =>
          rw [Nat.succ_mul, Nat.add_comm, List.flatten_cons, ← hrow, List.take_length_add_append,
            hrow, ih hrs, List.take_succ_cons, List.flatten_cons]

theorem drop_mul_flatten {rs : List (List α)} (h : ∀ row ∈ rs, row.length = width) (i : Nat) :
    rs.flatten.drop (i * width) = (rs.drop i).flatten := by
  induction rs generalizing i with
  | nil => simp
  | cons row rs ih =>
      obtain ⟨hrow, hrs⟩ := List.forall_mem_cons.1 h
      cases i with
      | zero => simp
      | succ i =>
          rw [Nat.succ_mul, Nat.add_comm, List.flatten_cons, ← hrow, List.drop_length_add_append,
            hrow, ih hrs, List.drop_succ_cons]

section Buffer

variable {cells row : List α} {n slot : Nat}

theorem length_rows_eq (hcells : cells.length = n * width) :
    (rows width positive cells).length = n := by
  rw [rows_length, hcells, Nat.mul_div_cancel n positive]

variable (positive) in
theorem take_eq_flatten_rows (hcells : cells.length = n * width) (slot : Nat) :
    cells.take (slot * width) = ((rows width positive cells).take slot).flatten := by
  have h : ∀ r ∈ rows width positive cells, r.length = width := fun r => length_of_mem_rows
  rw [← take_mul_flatten h, flatten_rows hcells]

variable (positive) in
theorem drop_eq_flatten_rows (hcells : cells.length = n * width) (slot : Nat) :
    cells.drop (slot * width) = ((rows width positive cells).drop slot).flatten := by
  have h : ∀ r ∈ rows width positive cells, r.length = width := fun r => length_of_mem_rows
  rw [← drop_mul_flatten h, flatten_rows hcells]

theorem getElem?_rows (hcells : cells.length = n * width) (hslot : slot < n) :
    (rows width positive cells)[slot]? = some ((cells.drop (slot * width)).take width) := by
  rw [rows_eq_map, hcells, Nat.mul_div_cancel n positive, List.getElem?_map,
    List.getElem?_range hslot]
  rfl

theorem rows_append_of_lt (hcells : width ∣ cells.length) (hrow : row.length < width) :
    rows width positive (cells ++ row) = rows width positive cells := by
  obtain ⟨n, hn⟩ := hcells
  have hlen : (cells ++ row).length / width = n := by
    rw [List.length_append, hn, Nat.mul_add_div positive, Nat.div_eq_of_lt hrow, Nat.add_zero]
  rw [rows_eq_map, rows_eq_map, hlen, hn, Nat.mul_div_cancel_left n positive]
  refine List.map_congr_left fun slot hslot => ?_
  have hend : (slot + 1) * width ≤ cells.length := by
    rw [hn, Nat.mul_comm]
    exact Nat.mul_le_mul_left width (List.mem_range.1 hslot)
  rw [Nat.succ_mul] at hend
  rw [List.drop_append_of_le_length (by omega), List.take_append_of_le_length]
  rw [List.length_drop]
  omega

theorem rows_append_row (hcells : cells.length = n * width) (hrow : row.length = width) :
    rows width positive (cells ++ row) = rows width positive cells ++ [row] := by
  have h : cells ++ row = (rows width positive cells ++ [row]).flatten := by
    rw [List.flatten_append, flatten_rows hcells, List.flatten_singleton]
  rw [h]
  apply rows_flatten
  intro r hr
  rcases List.mem_append.1 hr with hr | hr
  · exact length_of_mem_rows hr
  · rw [List.mem_singleton.1 hr, hrow]

theorem rows_overwrite (hcells : cells.length = n * width) (hrow : row.length = width)
    (hslot : slot < n) :
    rows width positive (cells.take (slot * width) ++ row ++ cells.drop (slot * width + width)) =
      (rows width positive cells).set slot row := by
  have hlen : slot < (rows width positive cells).length := by rwa [length_rows_eq hcells]
  rw [← Nat.succ_mul, take_eq_flatten_rows positive hcells,
    drop_eq_flatten_rows positive hcells, List.set_eq_take_append_cons_drop,
    if_pos hlen, List.append_assoc, ← List.flatten_cons, ← List.flatten_append]
  apply rows_flatten
  intro r hr
  rcases List.mem_append.1 hr with hr | hr
  · exact length_of_mem_rows (List.mem_of_mem_take hr)
  · rcases List.mem_cons.1 hr with rfl | hr
    · exact hrow
    · exact length_of_mem_rows (List.mem_of_mem_drop hr)

theorem rows_erase (hcells : cells.length = n * width) :
    rows width positive (cells.take (slot * width) ++ cells.drop (slot * width + width)) =
      (rows width positive cells).eraseIdx slot := by
  rw [← Nat.succ_mul, take_eq_flatten_rows positive hcells,
    drop_eq_flatten_rows positive hcells, ← List.flatten_append,
    List.eraseIdx_eq_take_drop_succ]
  apply rows_flatten
  intro r hr
  rcases List.mem_append.1 hr with hr | hr
  · exact length_of_mem_rows (List.mem_of_mem_take hr)
  · exact length_of_mem_rows (List.mem_of_mem_drop hr)

end Buffer

end Vicinity
