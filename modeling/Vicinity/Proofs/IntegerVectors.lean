import Mathlib.Algebra.GroupWithZero.Nat
import Mathlib.Algebra.Order.BigOperators.Group.List
import Vicinity.Proofs.Integral
import Vicinity.Proofs.IntegerRoots

namespace Vicinity

open Number Number.Value

namespace Number

variable {ns : List Nat} {m : Nat}

/-- As long as the whole sum has an exact value, so do the sums on the way to it. -/
theorem foldl_add_ofInt (h : m + ns.sum < 1 <<< 53) :
    (ns.map fun n : Nat => (ofInt n : Binary64)).foldl (· + ·) (ofInt m) =
      ofInt (m + ns.sum : Nat) := by
  induction ns generalizing m with
  | nil => rfl
  | cons n ns ih =>
      rw [List.sum_cons, ← Nat.add_assoc] at h ⊢
      rw [List.map_cons, List.foldl_cons, ← ih h]
      congr 1
      exact ofInt_add (a := m) (b := n) (by omega) (by omega)

theorem sum_ofInt (hne : ns ≠ []) (h : ns.sum < 1 <<< 53) :
    Value.sum (ns.map fun n : Nat => (ofInt n : Binary64)) = ofInt ns.sum := by
  obtain ⟨n, ns, rfl⟩ := List.exists_cons_of_ne_nil hne
  rw [List.sum_cons] at h ⊢
  rw [← foldl_add_ofInt h, Value.sum, List.map_cons, List.foldl_cons,
    zero_add_ofInt (b := n) (by omega) (Int.natCast_nonneg n)]

end Number

namespace Integral

variable {α : Type} [Element α] [Integral α]

def total (f : Nat → Nat) (a b : List α) : Nat :=
  ((a.zip b).map fun (x, y) => f (value x - value y).natAbs).sum

variable {f : Nat → Nat} {g : Binary64 → Binary64 → Binary64} {c : Nat} {a b : List α}

theorem total_le (hf : ∀ x y : α, f (value x - value y).natAbs ≤ c) (a b : List α) :
    total f a b ≤ a.length * c := by
  have hterms : ∀ n ∈ (a.zip b).map fun (x, y) => f (value x - value y).natAbs, n ≤ c := by
    intro n hn
    obtain ⟨p, -, rfl⟩ := List.mem_map.1 hn
    exact hf p.1 p.2
  have hsum := List.sum_le_card_nsmul _ c hterms
  rw [Nat.nsmul_eq_mul, List.length_map, List.length_zip] at hsum
  exact hsum.trans (Nat.mul_le_mul_right c (Nat.min_le_left _ _))

theorem sum_terms_eq (hg : ∀ x y : α, g (widen x) (widen y) = .ofInt (f (value x - value y).natAbs))
    (hlen : a.length = b.length) (ha : a ≠ []) (hlt : total f a b < 1 <<< 53) :
    Value.sum (Metric.terms g a b) = .ofInt (total f a b) := by
  have hterms : Metric.terms g a b =
      ((a.zip b).map fun (x, y) => f (value x - value y).natAbs).map fun n : Nat => .ofInt n := by
    rw [Metric.terms, List.map_map]
    exact List.map_congr_left fun p _ => hg p.1 p.2
  have hne := Metric.terms_ne_nil (f := g) hlen ha
  rw [hterms] at hne ⊢
  exact sum_ofInt (fun hnil => hne (by rw [hnil, List.map_nil])) hlt

end Integral

namespace Metric

open Integral

variable {α : Type} [Element α] [Integral α] {a b : List α}

def absoluteTotal (a b : List α) : Nat := total id a b

def squaredTotal (a b : List α) : Nat := total (fun d => d * d) a b

theorem absoluteTotal_lt (ha : a.length ≤ 1 <<< 20) (b : List α) :
    absoluteTotal a b < 1 <<< 53 := by
  have htotal := total_le (f := id) (c := 1 <<< 32)
    (fun x y => ((natAbs_sub_lt x y).trans_le one_shiftLeft_bits_le).le) a b
  have hcount := Nat.mul_le_mul_right (1 <<< 32) ha
  rw [absoluteTotal]
  omega

theorem natAbs_mul_self_le (hbits : bits α ≤ 16) (x y : α) :
    (value x - value y).natAbs * (value x - value y).natAbs ≤ 65535 * 65535 := by
  have hle : (value x - value y).natAbs ≤ 65535 :=
    Nat.le_of_lt_succ ((natAbs_sub_lt x y).trans_le (shiftLeft_le_shiftLeft_right 1 hbits))
  exact Nat.mul_le_mul hle hle

theorem squaredTotal_lt (hbits : bits α ≤ 16) (ha : a.length ≤ 1 <<< 20) (b : List α) :
    squaredTotal a b < 1 <<< 52 := by
  have htotal := total_le (f := fun d => d * d) (natAbs_mul_self_le hbits) a b
  have hcount := Nat.mul_le_mul_right (65535 * 65535) ha
  rw [squaredTotal]
  omega

theorem manhattan_distance_eq (hlen : a.length = b.length) (hpos : a ≠ [])
    (ha : a.length ≤ 1 <<< 20) : manhattan.distance a b = .ofInt (absoluteTotal a b) := by
  refine sum_terms_eq (fun x y => ?_) hlen hpos (absoluteTotal_lt ha b)
  have hsub := natAbs_sub_lt x y
  have hbits := one_shiftLeft_bits_le (α := α)
  rw [absoluteDifference, widen_sub_widen, abs_ofInt (by omega)]
  rfl

theorem squaredEuclidean_distance_eq (hbits : bits α ≤ 16) (hlen : a.length = b.length)
    (hpos : a ≠ []) (ha : a.length ≤ 1 <<< 20) :
    squaredEuclidean.distance a b = .ofInt (squaredTotal a b) := by
  have hlt := squaredTotal_lt hbits ha b
  refine sum_terms_eq (fun x y => ?_) hlen hpos (hlt.trans (by decide))
  have hsub := natAbs_sub_lt x y
  have hsq := natAbs_mul_self_le hbits x y
  have hbits := one_shiftLeft_bits_le (α := α)
  rw [squaredDifference, widen_sub_widen, ofInt_mul_self (by omega) (by omega)]

end Metric

namespace Backend

open Candidate

variable {α : Type} {b : Backend} {metric : Metric α} {query cells : List α}

def row (query cells : List α) (slot : Nat) : List α :=
  (cells.drop (slot * query.length)).take query.length

theorem length_row {slot : Nat} (h : slot < cells.length / query.length) :
    (row query cells slot).length = query.length := by
  have hend : (slot + 1) * query.length ≤ cells.length :=
    (Nat.mul_le_mul_right _ h).trans (Nat.div_mul_le_self _ _)
  rw [Nat.succ_mul] at hend
  rw [row, List.length_take, List.length_drop]
  omega

/-- For each `k` the answer has the first `k` slots of all, in the order of the rows' keys and,
where two keys are the same, of the slots. -/
def RanksByKey (b : Backend) (metric : Metric α) (query cells : List α) (key : List α → Nat) :
    Prop :=
  ∃ slots : List Nat, slots.Perm (List.range (cells.length / query.length)) ∧
    (slots.Pairwise fun i j => key (row query cells i) < key (row query cells j) ∨
      key (row query cells i) = key (row query cells j) ∧ i < j) ∧
    ∀ k, (b.rank metric query cells k).map slot = slots.take k

theorem key_lt_or_eq_of_place {value : Nat → Binary64} {limit m n i j : Nat}
    (hvalue : ∀ {m n : Nat}, m < n → n < limit → (value m).place < (value n).place)
    (hm : m < limit) (hne : i ≠ j)
    (hle : (value m).place < (value n).place ∨ (value m).place = (value n).place ∧ i ≤ j) :
    m < n ∨ m = n ∧ i < j := by
  rcases Nat.lt_trichotomy m n with hlt | rfl | hgt
  · exact .inl hlt
  · have hij := (hle.resolve_left (lt_irrefl _)).2
    exact .inr ⟨rfl, Nat.lt_of_le_of_ne hij hne⟩
  · have hback := hvalue hgt hm
    rcases hle with hlt | ⟨hsame, -⟩
    · exact absurd hback hlt.asymm
    · exact absurd hback hsame.le.not_gt

theorem Sound.ranksByKey (hb : b.Sound) {key : List α → Nat} {value : Nat → Binary64} {limit : Nat}
    (hdistance : ∀ v : List α, v.length = query.length →
      key v < limit ∧ metric.distance query v = value (key v))
    (hvalue : ∀ {m n : Nat}, m < n → n < limit → (value m).place < (value n).place) :
    b.RanksByKey metric query cells key := by
  have hperm := List.mergeSort_perm (rowCandidates metric query cells) ranksBy
  have hslots : (rowCandidates metric query cells).map slot =
      List.range (cells.length / query.length) := by
    rw [rowCandidates, List.map_map]
    exact List.map_id _
  have hnodup := (hperm.map slot).nodup_iff.2 (nodup_slot_rowCandidates metric query cells)
  refine ⟨_, hslots ▸ hperm.map slot, List.pairwise_map.2 ?_, fun k => ?_⟩
  · refine ((pairwise_standing_mergeSort _).and (List.pairwise_map.1 hnodup)).imp_of_mem ?_
    rintro c d hc hd ⟨hle, hne⟩
    obtain ⟨i, hi, rfl⟩ := List.mem_map.1 (List.mem_mergeSort.1 hc)
    obtain ⟨j, hj, rfl⟩ := List.mem_map.1 (List.mem_mergeSort.1 hd)
    obtain ⟨hilimit, hidist⟩ := hdistance _ (length_row (List.mem_range.1 hi))
    obtain ⟨-, hjdist⟩ := hdistance _ (length_row (List.mem_range.1 hj))
    have hle : (metric.distance query (row query cells i)).place <
        (metric.distance query (row query cells j)).place ∨
        (metric.distance query (row query cells i)).place =
          (metric.distance query (row query cells j)).place ∧ i ≤ j := standing_le_iff.1 hle
    rw [hidist, hjdist] at hle
    exact key_lt_or_eq_of_place hvalue hilimit hne hle
  · rw [hb.rank_eq, List.map_take]

variable [Element α] [Integral α]

open Vicinity.Metric

/-- In integers, without any rounding: the Manhattan distances of all types of up to 32 bits, the
squares of those of up to 16 bits, and the order of the roots of these. -/
theorem Sound.integers_exact (hb : b.Sound) (hpos : 1 ≤ query.length)
    (hquery : query.length ≤ 1 <<< 20) :
    (∀ v : List α, v.length = query.length →
      (manhattan.distance query v).Exactly (absoluteTotal query v)) ∧
    (∀ cells, b.RanksByKey manhattan query cells (absoluteTotal query)) ∧
    (Integral.bits α ≤ 16 →
      (∀ v : List α, v.length = query.length → squaredTotal query v < 1 <<< 52 ∧
        (squaredEuclidean.distance query v).Exactly (squaredTotal query v)) ∧
      ∀ cells, b.RanksByKey squaredEuclidean query cells (squaredTotal query) ∧
        b.RanksByKey euclidean query cells (squaredTotal query)) := by
  have hne : query ≠ [] := List.length_pos_iff.1 hpos
  have habsolute (v : List α) (hv : v.length = query.length) :=
    manhattan_distance_eq hv.symm hne hquery
  refine ⟨fun v hv => ?_, fun cells => ?_, fun hbits => ?_⟩
  · rw [habsolute v hv]
    exact exactly_ofInt (absoluteTotal_lt hquery v)
  · exact hb.ranksByKey (fun v hv => ⟨absoluteTotal_lt hquery v, habsolute v hv⟩) place_ofInt_lt
  · have hsquared (v : List α) (hv : v.length = query.length) :=
      squaredEuclidean_distance_eq hbits hv.symm hne hquery
    have hlt (v : List α) := squaredTotal_lt hbits hquery v
    refine ⟨fun v hv => ⟨hlt v, ?_⟩, fun cells => ⟨?_, ?_⟩⟩
    · rw [hsquared v hv]
      exact exactly_ofInt ((hlt v).trans (by decide))
    · exact hb.ranksByKey (fun v hv => ⟨hlt v, hsquared v hv⟩)
        fun hmn hn => place_ofInt_lt hmn (hn.trans (by decide))
    · refine hb.ranksByKey (fun v hv => ⟨hlt v, ?_⟩) place_sqrt_ofInt_lt
      exact congrArg Value.sqrt (hsquared v hv)

theorem integers_exact_of_words :
    standard.Sound ∧ 1 ≤ ([0, 0] : List UInt16).length ∧ ([0, 0] : List UInt16).length ≤ 1 <<< 20 ∧
      Integral.bits UInt16 ≤ 16 ∧
      (squaredEuclidean.distance [0, 0] [65535, (65534 : UInt16)]).Exactly 8589541381 ∧
      standard.RanksByKey euclidean [0, 0] [65535, 65535, 65535, (65534 : UInt16)]
        (squaredTotal [0, 0]) := by
  have hpos : 1 ≤ ([0, 0] : List UInt16).length := by decide
  have hquery : ([0, 0] : List UInt16).length ≤ 1 <<< 20 := by decide
  have hbits : Integral.bits UInt16 ≤ 16 := by decide
  obtain ⟨-, -, hsquares⟩ := standard_sound.integers_exact hpos hquery
  obtain ⟨hdistance, hrank⟩ := hsquares hbits
  exact ⟨standard_sound, hpos, hquery, hbits, (hdistance [65535, 65534] rfl).2, (hrank _).2⟩

end Backend

end Vicinity
