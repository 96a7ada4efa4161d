import Mathlib.Data.List.Forall2
import Vicinity.Proofs.InsertionOrder
import Vicinity.Proofs.SingleRange

namespace Vicinity

open Number Number.Value

namespace Metric

variable {α : Type} [Element α] {x y : α} {a b : List α}

/-- Components are compared as the numbers that they widen to, so the two zeros are the same. -/
def SameNumber (x y : α) : Prop := (widen x).compare? (widen y) = some .eq

instance (x y : α) : Decidable (SameNumber x y) := inferInstanceAs (Decidable (_ = _))

theorem sameNumber_iff_compare? {x y : Binary32} : SameNumber x y ↔ x.compare? y = some .eq := by
  have hnan : (widen x).isNaN = x.isNaN := isNaN_convert x
  rw [SameNumber, compare?_eq_iff, compare?_eq_iff, hnan]
  exact and_congr_right fun _ => level?_convert_eq_iff

theorem sameNumber_iff_eq [Integral α] : SameNumber x y ↔ x = y := by
  have hunit : ((1 <<< binary64.scale : Nat) : Int) ≠ 0 :=
    Int.natCast_ne_zero.2 (one_shiftLeft_pos _).ne'
  have hlt (z : α) : (Integral.value z).natAbs < 1 <<< 53 := Integral.natAbs_value_lt_significand z
  rw [SameNumber, compare?_eq_iff, Integral.widen_eq, Integral.widen_eq, isNaN_ofInt,
    level?_ofInt (hlt x), level?_ofInt (hlt y), Option.some_inj, Int.mul_eq_mul_right_iff hunit,
    Integral.value_inj]
  exact and_iff_right rfl

theorem isFinite_widen [Integral α] (x : α) : (widen x).isFinite = true := by
  rw [Integral.widen_eq, ofInt_eq (Integral.natAbs_value_lt_significand x)]
  rfl

theorem sameNumber_self (hx : (widen x).isFinite = true) : SameNumber x x := by
  refine compare?_eq_iff.2 ⟨?_, rfl⟩
  cases h : widen x with
  | nan =>
      rw [h] at hx
      cases hx
  | infinite | finite => rfl

theorem isZero_sum_terms_iff {f : Binary64 → Binary64 → Binary64}
    (hclear : ∀ x y, (f x y).SignClear) (hlen : a.length = b.length)
    (hf : ∀ x ∈ a, ∀ y, (f (widen x) (widen y)).isZero = true ↔ SameNumber x y) :
    (Value.sum (terms f a b)).isZero = true ↔ List.Forall₂ SameNumber a b := by
  rw [isZero_sum (signClear_of_mem_terms hclear), List.all_eq_true, terms, List.forall_mem_map,
    List.forall₂_iff_zip]
  constructor
  · intro h
    refine ⟨hlen, fun {x y} hxy => ?_⟩
    exact (hf x (List.of_mem_zip hxy).1 y).1 (h (x, y) hxy)
  · rintro ⟨-, h⟩ ⟨x, y⟩ hxy
    exact (hf x (List.of_mem_zip hxy).1 y).2 (h hxy)

theorem isZero_absoluteDifference_iff (hx : (widen x).isFinite = true) (y : α) :
    (absoluteDifference (widen x) (widen y)).isZero = true ↔ SameNumber x y := by
  rw [absoluteDifference, isZero_abs]
  exact isZero_sub_iff hx

variable [SingleRange α]

theorem isZero_squaredDifference_iff (hx : (widen x).isFinite = true) (y : α) :
    (squaredDifference (widen x) (widen y)).isZero = true ↔ SameNumber x y := by
  have hdifference : (widen x - widen y).ZeroOrFrom singleUnit :=
    (SingleRange.widen_inSingleRange x).sub (SingleRange.widen_inSingleRange y)
  rw [squaredDifference, hdifference.isZero_mul_self one_shiftLeft_scale_le]
  exact isZero_sub_iff hx

theorem Kind.distance_eq_zero_iff {kind : Kind} (hkind : kind ≠ .cosine)
    (hlen : a.length = b.length) (hne : a ≠ []) (ha : ∀ x ∈ a, (widen x).isFinite = true) :
    kind.distance a b = .zero false ↔ List.Forall₂ SameNumber a b := by
  have hsquares : (Metric.squaredEuclidean.distance a b).isZero = true ↔
      List.Forall₂ SameNumber a b :=
    isZero_sum_terms_iff (fun _ _ => signClear_mul_self _) hlen
      fun x hx => isZero_squaredDifference_iff (ha x hx)
  rw [← (kind.signClear_distance hlen hne).isZero_iff]
  cases kind with
  | euclidean =>
      have hroot := (signClear_squaredEuclidean hlen hne).isZero_sqrt
      change (Metric.squaredEuclidean.distance a b).sqrt.isZero = true ↔ _
      rw [hroot]
      exact hsquares
  | squaredEuclidean => exact hsquares
  | manhattan =>
      exact isZero_sum_terms_iff (fun _ _ => signClear_abs _) hlen
        fun x hx => isZero_absoluteDifference_iff (ha x hx)
  | cosine => exact absurd rfl hkind

omit [SingleRange α] in
theorem Kind.distance_eq_zero_iff_eq [Integral α] {kind : Kind} (hkind : kind ≠ .cosine)
    (hlen : a.length = b.length) (hne : a ≠ []) : kind.distance a b = .zero false ↔ a = b := by
  rw [Kind.distance_eq_zero_iff hkind hlen hne fun x _ => isFinite_widen x]
  have hsame : (SameNumber : α → α → Prop) = Eq := by
    funext x y
    exact propext sameNumber_iff_eq
  rw [hsame, List.forall₂_eq_eq_eq]

end Metric

namespace Roster

variable {K α : Type} [DecidableEq K] {r : Roster K α}

theorem mem_of_vector? {key : K} {v : List α} (h : r.vector? key = some v) :
    (key, v) ∈ r.entries := by
  obtain ⟨before, after, he, -⟩ := List.lookup_eq_some_iff.1 h
  rw [he]
  exact List.mem_append_right _ List.mem_cons_self

theorem mem_ranking_of_vector? {key : K} {v : List α} (h : r.vector? key = some v)
    (query : List α) : ⟨key, r.metric.distance query v⟩ ∈ r.ranking query :=
  (r.ranking_perm query).mem_iff.2 (List.mem_map_of_mem (mem_of_vector? h))

theorem exists_ranking_eq_cons (hnodup : r.keys.Nodup) {key : K} {v : List α}
    (h : r.vector? key = some v) (query : List α) :
    ∃ first rest w, r.ranking query = first :: rest ∧ r.vector? first.key = some w ∧
      first.distance = r.metric.distance query w ∧
      ∀ key' w', r.vector? key' = some w' →
        first.distance.place < (r.metric.distance query w').place ∨
          first.distance.place = (r.metric.distance query w').place ∧
            r.keys.idxOf first.key ≤ r.keys.idxOf key' := by
  obtain ⟨first, rest, hranking⟩ :=
    List.exists_cons_of_ne_nil (List.ne_nil_of_mem (mem_ranking_of_vector? h query))
  have hsorted := ranking_pairwise hnodup query
  have hfirst : first ∈ r.ranking query := hranking ▸ List.mem_cons_self
  obtain ⟨w, hw, hdistance⟩ := exists_of_mem_ranking hnodup hfirst
  refine ⟨first, rest, w, hranking, hw, hdistance, fun key' w' hw' => ?_⟩
  have hmem := mem_ranking_of_vector? hw' query
  rw [hranking] at hsorted hmem
  rcases List.mem_cons.1 hmem with rfl | hrest
  · exact .inr ⟨rfl, le_rfl⟩
  · exact (List.rel_of_pairwise_cons hsorted hrest).imp_right fun h => ⟨h.1, h.2.le⟩

end Roster

namespace Index.WellFormed

variable {K α : Type} [DecidableEq K] [Hashable K] {ix : Index K α} {key : K} {v : List α}

theorem get_eq_some_iff (wf : ix.WellFormed) :
    ix.get key = .ok (some v) ↔ ix.roster.vector? key = some v := by
  rw [wf.get_eq, Except.ok.injEq]

theorem length_of_get (wf : ix.WellFormed) (h : ix.get key = .ok (some v)) :
    v.length = ix.dimension :=
  length_of_mem_entries (Roster.mem_of_vector? (wf.get_eq_some_iff.1 h))

end Index.WellFormed

namespace Session

variable {K α : Type} [DecidableEq K] [Hashable K] [Element α] [SingleRange α]

open Vicinity.Metric

/-- Asked for a stored vector of finite components, an index answers first, at distance zero, the
earliest of its keys that has this vector, up to the signs of zeros. -/
theorem Reachable.self_nearest {s : Session K α} (hs : s.Reachable) {ix : Index K α}
    (hix : ix ∈ s.indexes) (hb : ix.backend.Sound) {kind : Metric.Kind}
    (hmetric : ix.metric = kind.metric) (hkind : kind ≠ .cosine) {key : K} {v : List α}
    (hget : ix.get key = .ok (some v)) (hv : ∀ x ∈ v, (widen x).isFinite = true) {k : Nat}
    (hk : 1 ≤ k) :
    (∃ first rest w, ix.nearestWithDistances v k = .ok (first :: rest) ∧
      first.distance = .zero false ∧ ix.get first.key = .ok (some w) ∧
      List.Forall₂ SameNumber v w ∧
      ∀ key' w', ix.get key' = .ok (some w') → List.Forall₂ SameNumber v w' →
        ix.keys.idxOf first.key ≤ ix.keys.idxOf key') ∧
    ∀ w : List α, w.length = v.length →
      (ix.metric.distance v w = .zero false ↔ List.Forall₂ SameNumber v w) := by
  have wf := hs.wellFormed ix hix
  have hlen := wf.length_of_get hget
  have hne : v ≠ [] := List.length_pos_iff.1 (hlen ▸ ix.dimension_pos)
  have hzero (w : List α) (hw : w.length = v.length) :
      ix.metric.distance v w = .zero false ↔ List.Forall₂ SameNumber v w := by
    rw [hmetric]
    exact Kind.distance_eq_zero_iff hkind hw.symm hne hv
  have hself : ix.metric.distance v v = .zero false :=
    (hzero v rfl).2 (List.forall₂_same.2 fun x hx => sameNumber_self (hv x hx))
  obtain ⟨first, rest, w, hranking, hw, hdistance, hleast⟩ :=
    Roster.exists_ranking_eq_cons wf.nodup_keys_roster (wf.get_eq_some_iff.1 hget) v
  have hgetw : ix.get first.key = .ok (some w) := wf.get_eq_some_iff.2 hw
  have hwlen : w.length = v.length := (wf.length_of_get hgetw).trans hlen.symm
  have hfirst : first.distance = .zero false := by
    have hclear : first.distance.SignClear := by
      rw [hdistance, Index.roster_metric, hmetric]
      exact kind.signClear_distance hwlen.symm hne
    refine hclear.eq_zero_of_place_le ?_
    rw [← hself]
    rcases hleast key v (wf.get_eq_some_iff.1 hget) with hlt | ⟨heq, -⟩
    · exact hlt.le
    · exact heq.le
  refine ⟨⟨first, rest.take (k - 1), w, ?_, hfirst, hgetw, ?_, fun key' w' hget' hsame => ?_⟩,
    hzero⟩
  · rw [wf.nearestWithDistances_eq_take hb hlen, hranking, List.take_cons hk]
  · exact (hzero w hwlen).1 (hdistance.symm.trans hfirst)
  · have htie : ix.metric.distance v w' = .zero false :=
      (hzero w' ((wf.length_of_get hget').trans hlen.symm)).2 hsame
    have hplace := hleast key' w' (wf.get_eq_some_iff.1 hget')
    rw [hfirst, Index.roster_metric, htie, wf.keys_roster] at hplace
    exact (hplace.resolve_left (lt_irrefl _)).2

/-- Positive zero is asked for. Negative zero, stored before it, is answered, not the NaN. -/
theorem self_nearest_of_zeros :
    ∃ ix : Index Nat Binary32, Reachable ⟨[ix]⟩ ∧ ix.backend.Sound ∧
      ix.metric = Metric.Kind.euclidean.metric ∧ ix.keys = [8, 9, 7] ∧
      ix.get 9 = .ok (some [zero false]) ∧ (∀ x ∈ [(zero false : Binary32)], (widen x).isFinite) ∧
      ∃ first rest, ix.nearestWithDistances [zero false] 1 = .ok (first :: rest) ∧
        first.distance = .zero false ∧ [8, 9, 7].idxOf first.key ≤ 0 := by
  obtain ⟨ix, hs, hb, hr⟩ := exists_reachable (K := Nat) (by decide : 0 < 1)
    (Metric.Kind.euclidean.metric : Metric Binary32) .standard
    [.set 8 [zero true], .set 9 [zero false], .set 7 [.nan]]
  have hsound : ix.backend.Sound := hb ▸ Backend.standard_sound
  have hmetric : ix.metric = Metric.Kind.euclidean.metric := congrArg Roster.metric hr
  have hkeys : ix.keys = [8, 9, 7] := hs.keys_eq hr
  have hget (key : Nat) := (hs.wellFormed ix List.mem_cons_self).get_eq key
  rw [hr] at hget
  have hfinite : ∀ x ∈ [(zero false : Binary32)], (widen x).isFinite :=
    List.forall_mem_singleton.2 (isFinite_convert _)
  obtain ⟨⟨first, rest, -, hnearest, hdistance, -, -, hfirst⟩, -⟩ :=
    hs.self_nearest List.mem_cons_self hsound hmetric (by decide) (hget 9) hfinite le_rfl
  have hsame : List.Forall₂ Metric.SameNumber [(zero false : Binary32)] [zero true] :=
    .cons (Metric.sameNumber_iff_compare?.2 rfl) .nil
  have hplace := hfirst 8 _ (hget 8) hsame
  rw [hkeys] at hplace
  exact ⟨ix, hs, hsound, hmetric, hkeys, hget 9, hfinite, first, rest, hnearest, hdistance, hplace⟩

end Session

end Vicinity
