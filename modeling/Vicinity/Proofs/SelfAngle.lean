import Vicinity.Proofs.Locality
import Vicinity.Proofs.NotANumber
import Vicinity.Proofs.RootSquare

namespace Vicinity

open Number Number.Value

theorem Number.Value.SignClear.compare?_zero_ne_lt {F : Format} {x : Value F} (hx : x.SignClear)
    (s : Bool) : x.compare? (zero s) ≠ some .lt := by
  have hzero : (zero s : Value F).level? = some 0 := by cases s <;> rfl
  have hnonneg := hx.level?_nonneg
  intro h
  rw [compare?, hzero] at h
  cases hlevel : x.level? with
  | none =>
      rw [hlevel] at h
      cases h
  | some a =>
      rw [hlevel] at h
      exact (hnonneg a hlevel).not_gt (compare_lt_iff_lt.1 (Option.some.inj h))

namespace Metric

variable {α : Type} [Element α] {v : List α} {x : Binary64}

theorem dot_self (v : List α) : dot v v = normSquared v := by
  rw [dot, terms, List.zip, List.map_zipWith, List.zipWith_self, normSquared]

variable [SingleRange α]

theorem SquaredNorm.exists_self_quotient (hx : SquaredNorm x) (hzero : x.isZero = false) :
    ∃ n : Nat, n ≤ 2 ∧ (n = 0 ↔ (x.sqrt * x.sqrt).AtMost x) ∧
      (one - (x / (x.sqrt * x.sqrt)).clamp (-one) one).rational? = some (n / 2 ^ 53 : ℚ) := by
  have hbeyond := hx.onGrid.beyond hx.within.isNaN hzero
  have hnorms := hx.beyond_norms hx hzero hzero
  have hfinite := (hx.within_norms hx).isFinite
  have hroot := hx.within_sqrt.isFinite
  obtain ⟨m, hm, rfl⟩ := hx.signClear.exists_of_isFinite hx.within.isFinite
  obtain ⟨hp, hsquare⟩ := exists_sqrt_mul_sqrt_eq hfinite hroot
  rw [hsquare] at hnorms ⊢
  cases hbeyond with
  | finite hbeyond =>
      cases hnorms with
      | finite hnorms =>
          have hspacing : 0 < spacing 52 m := by
            have hmono := spacing_mono 52 hbeyond
            rw [spacing_one_shiftLeft] at hmono
            omega
          have hspacingRoot : 0 < spacing 52 (m <<< 1074).sqrt := by
            have hlow : 1 <<< 925 ≤ (m <<< 1074).sqrt := by
              rw [Nat.le_sqrt, one_shiftLeft_mul_one_shiftLeft]
              exact (Nat.shiftLeft_add 1 776 1074).trans_le (shiftLeft_le_shiftLeft hbeyond 1074)
            have hmono := spacing_mono 52 hlow
            rw [spacing_one_shiftLeft] at hmono
            omega
          rw [atMost_finite_iff]
          exact exists_one_sub_clamp_eq ((one_shiftLeft_pos 776).trans_le hnorms)
            (shiftLeft_spacing_le hspacing)
            (squaredRoot_eq_of_lt (by decide : 2 ≤ 52) hm.2 hspacingRoot)

theorem cosine_self (hv : ∀ x ∈ v, (widen x).isFinite = true)
    (hzero : ∃ x ∈ v, (widen x).isZero = false) :
    ∃ n : Nat, n ≤ 2 ∧
      (n = 0 ↔ ((normSquared v).sqrt * (normSquared v).sqrt).AtMost (normSquared v)) ∧
      (cosine.distance v v).rational? = some (n / 2 ^ 53 : ℚ) := by
  have hnorm : (normSquared v).isZero = false := by
    obtain ⟨x, hx, hx'⟩ := hzero
    rw [Bool.eq_false_iff]
    intro h
    rw [(isZero_normSquared_iff v).1 h x hx] at hx'
    cases hx'
  rw [cosine_distance_eq, similarity, leftNormSquared_eq rfl, rightNormSquared_eq rfl, dot_self,
    hnorm]
  exact (squaredNorm_normSquared hv).exists_self_quotient hnorm

end Metric

namespace Session

variable {K α : Type} [DecidableEq K] [Hashable K] [Element α] [SingleRange α]

open Vicinity.Metric

/-- By angle, the distance of a stored vector from itself is zero or one or two steps of the last
digit below one. It is zero, with nothing nearer, just when the rounded square of the rounded root
of the squared norm is not above that squared norm. -/
theorem Reachable.self_nearest_by_angle_iff {s : Session K α} (hs : s.Reachable) {ix : Index K α}
    (hix : ix ∈ s.indexes) (hb : ix.backend.Sound) (hmetric : ix.metric = Kind.cosine.metric)
    {key : K} {v : List α} (hget : ix.get key = .ok (some v))
    (hv : ∀ x ∈ v, (widen x).isFinite = true) (hzero : ∃ x ∈ v, (widen x).isZero = false) {k : Nat}
    (hk : ix.size ≤ k) :
    ∃ ranking d, ix.nearestWithDistances v k = .ok ranking ∧ ⟨key, d⟩ ∈ ranking ∧
      (∀ n ∈ ranking, n.key = key → n.distance = d) ∧
      (∃ n : Nat, n ≤ 2 ∧ d.rational? = some (n / 2 ^ 53 : ℚ)) ∧
      ((d = .zero false ∧ ∀ n ∈ ranking, n.distance.compare? d ≠ some .lt) ↔
        ((normSquared v).sqrt * (normSquared v).sqrt).AtMost (normSquared v)) := by
  have wf := hs.wellFormed ix hix
  have hlen := wf.length_of_get hget
  have hvector := wf.get_eq_some_iff.1 hget
  obtain ⟨n, hn, hiff, hrational⟩ := cosine_self hv hzero
  have hself : ix.roster.metric.distance v v = cosine.distance v v := by
    rw [Index.roster_metric, hmetric]
    rfl
  have hzero_iff : cosine.distance v v = .zero false ↔ n = 0 := by
    rw [← (signClear_cosine v v).isZero_iff, isZero_iff_rational?, hrational, Option.some_inj,
      div_eq_zero_iff, or_iff_left (by positivity), Nat.cast_eq_zero]
  refine ⟨_, _, wf.nearestWithDistances_of_size_le hb hlen hk,
    Roster.mem_ranking_of_vector? hvector v, ?_, ?_, ?_⟩
  · rintro m hm rfl
    obtain ⟨w, hw, hdistance⟩ := Roster.exists_of_mem_ranking wf.nodup_keys_roster hm
    rw [hdistance, Option.some.inj (hw.symm.trans hvector)]
  · rw [hself]
    exact ⟨n, hn, hrational⟩
  · rw [hself, ← hiff, hzero_iff]
    refine and_iff_left_of_imp fun hn => ?_
    rintro m hm
    obtain ⟨w, -, hdistance⟩ := Roster.exists_of_mem_ranking wf.nodup_keys_roster hm
    rw [hdistance, hzero_iff.2 hn, Index.roster_metric, hmetric]
    exact (signClear_cosine v w).compare?_zero_ne_lt false

/-- The root of eighteen, and so its square, is rounded down. A parallel and an opposite vector are
stored as well. -/
theorem self_nearest_by_angle_of_eighteen :
    ∃ ix : Index Nat Int8, Reachable ⟨[ix]⟩ ∧ ix.backend.Sound ∧
      ix.metric = Kind.cosine.metric ∧ ix.size ≤ 3 ∧ ix.get 7 = .ok (some [3, -3]) ∧
      (∀ x ∈ [3, (-3 : Int8)], (widen x).isFinite) ∧ (widen (3 : Int8)).isZero = false ∧
      ∃ ranking, ix.nearestWithDistances [3, -3] 3 = .ok ranking ∧ ⟨7, .zero false⟩ ∈ ranking ∧
        ∀ n ∈ ranking, n.distance.compare? (.zero false) ≠ some .lt := by
  obtain ⟨ix, hs, hb, hr⟩ := exists_reachable (K := Nat) (by decide : 0 < 2)
    (Kind.cosine.metric : Metric Int8) .standard [.set 9 [-1, 1], .set 8 [1, -1], .set 7 [3, -3]]
  have hsound : ix.backend.Sound := hb ▸ Backend.standard_sound
  have hmetric : ix.metric = Kind.cosine.metric := congrArg Roster.metric hr
  have hsize : ix.size ≤ 3 := (congrArg List.length (hs.keys_eq hr)).le
  have hget := (hs.wellFormed ix List.mem_cons_self).get_eq 7
  rw [hr] at hget
  have hfinite : ∀ x ∈ [3, (-3 : Int8)], (widen x).isFinite := fun x _ => isFinite_widen x
  have hzero : (widen (3 : Int8)).isZero = false := by decide +kernel
  have hroot : ((normSquared [3, (-3 : Int8)]).sqrt * (normSquared [3, (-3 : Int8)]).sqrt).AtMost
      (normSquared [3, (-3 : Int8)]) := ⟨.lt, by decide +kernel, by decide⟩
  obtain ⟨ranking, d, hnearest, hmem, -, -, hiff⟩ := hs.self_nearest_by_angle_iff List.mem_cons_self
    hsound hmetric hget hfinite ⟨3, List.mem_cons_self, hzero⟩ hsize
  obtain ⟨rfl, hleast⟩ := hiff.2 hroot
  exact ⟨ix, hs, hsound, hmetric, hsize, hget, hfinite, hzero, ranking, hnearest, hmem, hleast⟩

/-- The square of the rounded root of two is above two, so a parallel vector is ahead. -/
theorem self_not_nearest_by_angle :
    ∃ ix : Index Nat Int8, Reachable ⟨[ix]⟩ ∧ ix.backend = .standard ∧
      ix.metric = Kind.cosine.metric ∧ ix.keys = [1, 2] ∧ ix.get 1 = .ok (some [1, 1]) ∧
      ix.get 2 = .ok (some [3, 3]) ∧ ix.nearestWithDistances [1, 1] 2 =
        .ok [⟨2, .zero false⟩, ⟨1, .ofBits binary64 0x3cb0000000000000⟩] := by
  obtain ⟨ix, hs, hb, hr⟩ := exists_reachable (K := Nat) (by decide : 0 < 2)
    (Kind.cosine.metric : Metric Int8) .standard [.set 1 [1, 1], .set 2 [3, 3]]
  have wf := hs.wellFormed ix List.mem_cons_self
  have hkeys : ix.keys = [1, 2] := hs.keys_eq hr
  have hget (key : Nat) := wf.get_eq key
  have hq : [1, (1 : Int8)].length = ix.dimension := (congrArg Roster.dimension hr).symm
  have hnearest := wf.nearestWithDistances_of_size_le (hb ▸ Backend.standard_sound) hq
    (congrArg List.length hkeys).le
  have hpairwise := Roster.ranking_pairwise wf.nodup_keys_roster [1, 1]
  rw [hr] at hget hnearest hpairwise
  have hneighbors : (Roster.mk 2 Kind.cosine.metric [(1, [1, 1]), (2, [3, (3 : Int8)])]).neighbors
      [1, 1] = [⟨1, .ofBits binary64 0x3cb0000000000000⟩, ⟨2, .zero false⟩] := by
    decide +kernel
  have hahead : (⟨2, .zero false⟩ : Neighbor Nat).Before [1, 2]
      ⟨1, .ofBits binary64 0x3cb0000000000000⟩ := .inl (by decide +kernel)
  refine ⟨ix, hs, hb, congrArg Roster.metric hr, hkeys, hget 1, hget 2, hnearest.trans ?_⟩
  refine congrArg Except.ok ?_
  refine Neighbor.eq_of_perm_of_before ?_ hpairwise (List.pairwise_pair.2 hahead)
  exact (Roster.ranking_perm _ _).trans (hneighbors ▸ .swap _ _ _)

end Session

end Vicinity
