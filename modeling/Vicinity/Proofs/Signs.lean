import Mathlib.Order.Basic
import Vicinity.Metric.Kind
import Vicinity.Proofs.Standing

namespace Vicinity

namespace Number.Value

variable {F : Format} {x y : Value F}

/-- A NaN, or a number without a minus sign. Negative zero is neither. -/
inductive SignClear : Value F → Prop
  | nan : SignClear .nan
  | infinite : SignClear (.infinite false)
  | finite {m : Nat} {hm : F.Holds m} : SignClear (.finite false m hm)

theorem signed_not (negative : Bool) (m : Nat) : signed (!negative) m = -signed negative m := by
  cases negative
  · rfl
  · exact (Int.neg_neg _).symm

theorem level?_neg (x : Value F) : x.neg.level? = x.level?.map Neg.neg := by
  cases x with
  | nan => rfl
  | infinite s => exact congrArg some (signed_not s _)
  | finite s m hm => exact congrArg some (signed_not s m)

theorem level?_eq_of_place_eq (h : x.place = y.place) : x.level? = y.level? := by
  rw [place, place] at h
  cases hx : x.level? with
  | none =>
      cases hy : y.level? with
      | none => rfl
      | some b =>
          rw [hx, hy] at h
          exact absurd h (Place.number_lt_last b).ne'
  | some a =>
      cases hy : y.level? with
      | none =>
          rw [hx, hy] at h
          exact absurd h (Place.number_lt_last a).ne
      | some b =>
          rw [hx, hy] at h
          exact congrArg some (WithTop.coe_injective h)

theorem compare?_ne_gt_iff :
    x.compare? y ≠ some .gt ↔ ∀ a ∈ x.level?, ∀ b ∈ y.level?, a ≤ b := by
  rw [compare?]
  cases x.level? with
  | none => simp
  | some a =>
      cases y.level? with
      | none => simp
      | some b => simp [compare_le_iff_le]

theorem signClear_nearest (num den : Nat) : (nearest false num den : Value F).SignClear := by
  rw [nearest]
  split
  · exact .finite
  · exact .infinite

theorem signClear_one : (one : Value F).SignClear := signClear_nearest _ _

theorem signClear_add_finite {s t : Bool} {m n : Nat} {hm : F.Holds m} {hn : F.Holds n}
    (hsum : 0 ≤ signed s m + signed t n) (hst : (s && t) = false) :
    (.finite s m hm + .finite t n hn : Value F).SignClear := by
  change (Value.add _ _).SignClear
  simp only [Value.add, hst, decide_eq_false (Int.not_lt.2 hsum)]
  split
  · exact .finite
  · exact signClear_nearest _ _

theorem signClear_zero_add (hy : y.SignClear) : (zero true + y).SignClear := by
  cases hy with
  | nan => exact .nan
  | infinite => exact .infinite
  | @finite n => exact signClear_add_finite (by simp [signed]) rfl

theorem signClear_mul_self (x : Value F) : (x * x).SignClear := by
  change (Value.mul x x).SignClear
  cases x with
  | nan => exact .nan
  | infinite s =>
      rw [Value.mul, Bool.xor_self]
      exact .infinite
  | finite s m hm =>
      rw [Value.mul, Bool.xor_self]
      exact signClear_nearest _ _

theorem signClear_abs (x : Value F) : x.abs.SignClear := by
  cases x with
  | nan => exact .nan
  | infinite => exact .infinite
  | finite => exact .finite

namespace SignClear

theorem add (hx : x.SignClear) (hy : y.SignClear) : (x + y).SignClear := by
  cases hx with
  | nan => exact .nan
  | infinite =>
      cases hy with
      | nan => exact .nan
      | infinite => exact .infinite
      | finite => exact .infinite
  | @finite m =>
      cases hy with
      | nan => exact .nan
      | infinite => exact .infinite
      | @finite n =>
          have hsum := Int.add_nonneg (Int.natCast_nonneg m) (Int.natCast_nonneg n)
          exact signClear_add_finite hsum rfl

theorem foldl_add {xs : List (Value F)} (hx : x.SignClear) (hxs : ∀ y ∈ xs, y.SignClear) :
    (xs.foldl (· + ·) x).SignClear := by
  induction xs generalizing x with
  | nil => exact hx
  | cons y ys ih =>
      obtain ⟨hy, hys⟩ := List.forall_mem_cons.1 hxs
      exact ih (hx.add hy) hys

theorem sqrt (hx : x.SignClear) : x.sqrt.SignClear := by
  cases hx with
  | nan => exact .nan
  | infinite => exact .infinite
  | finite =>
      rw [Value.sqrt]
      split
      · exact .finite
      · exact signClear_nearest _ _

theorem level?_nonneg (hx : x.SignClear) : ∀ a ∈ x.level?, 0 ≤ a := by
  cases hx with
  | nan => exact nofun
  | infinite | finite => simp [level?, signed]

theorem neg_compare?_self (hx : x.SignClear) : x.neg.compare? x ≠ some .gt := by
  rw [compare?_ne_gt_iff, level?_neg]
  rintro a ha b hb
  obtain ⟨c, hc, rfl⟩ := Option.map_eq_some_iff.1 ha
  have hc := hx.level?_nonneg c hc
  have hb := hx.level?_nonneg b hb
  omega

theorem sub (hy : y.SignClear) (h : x.compare? y ≠ some .gt) : (y - x).SignClear := by
  rw [compare?_ne_gt_iff] at h
  cases hy with
  | nan => exact .nan
  | infinite =>
      cases x with
      | nan => exact .nan
      | infinite s =>
          cases s with
          | true => exact .infinite
          | false => exact .nan
      | finite => exact .infinite
  | @finite n hn =>
      cases x with
      | nan => exact .nan
      | infinite s =>
          cases s with
          | true => exact .infinite
          | false => exact absurd (Int.ofNat_le.1 (h _ rfl _ rfl)) (Nat.not_le.2 hn.1)
      | finite s m hm =>
          have hle : signed s m ≤ signed false n := h _ rfl _ rfl
          refine signClear_add_finite (s := false) (t := !s) ?_ (Bool.false_and _)
          rw [signed_not]
          omega

theorem level?_inj (hx : x.SignClear) (hy : y.SignClear) : x.level? = y.level? ↔ x = y := by
  refine ⟨fun h => ?_, congrArg level?⟩
  cases hx with
  | nan =>
      cases hy with
      | nan => rfl
      | infinite | finite => cases h
  | infinite =>
      cases hy with
      | nan => cases h
      | infinite => rfl
      | @finite n hn => exact absurd (Int.ofNat_inj.1 (Option.some.inj h)) hn.1.ne'
  | @finite m hm =>
      cases hy with
      | nan => cases h
      | infinite => exact absurd (Int.ofNat_inj.1 (Option.some.inj h)) hm.1.ne
      | @finite n hn =>
          obtain rfl : m = n := Int.ofNat_inj.1 (Option.some.inj h)
          rfl

end SignClear

theorem eq_of_perm_of_sorted {xs ys : List (Value F)} (hclear : ∀ x ∈ xs, x.SignClear)
    (hperm : xs.Perm ys) (hxs : xs.Pairwise fun x y => x.place ≤ y.place)
    (hys : ys.Pairwise fun x y => x.place ≤ y.place) : xs = ys := by
  refine List.Perm.eq_of_pairwise ?_ hxs hys hperm
  intro x y hx hy hxy hyx
  have hlevel := level?_eq_of_place_eq (hxy.antisymm hyx)
  exact ((hclear x hx).level?_inj (hclear y (hperm.mem_iff.2 hy))).1 hlevel

/-- Negative zero, where a sum starts, does not survive the first addition. -/
theorem signClear_sum {xs : List (Value F)} (hxs : ∀ y ∈ xs, y.SignClear) (hne : xs ≠ []) :
    (sum xs).SignClear := by
  obtain ⟨y, ys, rfl⟩ := List.exists_cons_of_ne_nil hne
  obtain ⟨hy, hys⟩ := List.forall_mem_cons.1 hxs
  exact (signClear_zero_add hy).foldl_add hys

theorem clamp_compare?_high {low high : Value F} (h : low.compare? high ≠ some .gt) :
    (x.clamp low high).compare? high ≠ some .gt := by
  rw [clamp]
  split
  · exact h
  · split
    · rw [compare?_ne_gt_iff]
      intro a ha b hb
      exact (Option.mem_unique ha hb).le
    · assumption

end Number.Value

namespace Metric

open Number Number.Value

variable {α : Type} [Element α] {a b : List α}

theorem terms_ne_nil {f : Binary64 → Binary64 → Binary64} (hlen : a.length = b.length)
    (ha : a ≠ []) : terms f a b ≠ [] := by
  have hpos := List.length_pos_iff.2 ha
  rw [← List.length_pos_iff, terms, List.length_map, List.length_zip, ← hlen, Nat.min_self]
  exact hpos

theorem forall_mem_terms {P : Binary64 → Prop} {f : Binary64 → Binary64 → Binary64}
    (h : ∀ x ∈ a, ∀ y ∈ b, P (f (widen x) (widen y))) : ∀ t ∈ terms f a b, P t := by
  refine List.forall_mem_map.2 fun p hp => ?_
  obtain ⟨hx, hy⟩ := List.of_mem_zip hp
  exact h p.1 hx p.2 hy

theorem signClear_of_mem_terms {f : Binary64 → Binary64 → Binary64}
    (hf : ∀ x y, (f x y).SignClear) : ∀ t ∈ terms f a b, t.SignClear :=
  forall_mem_terms fun _ _ _ _ => hf _ _

theorem signClear_squaredEuclidean (hlen : a.length = b.length) (ha : a ≠ []) :
    (squaredEuclidean.distance a b).SignClear :=
  signClear_sum (signClear_of_mem_terms fun _ _ => signClear_mul_self _) (terms_ne_nil hlen ha)

theorem signClear_manhattan (hlen : a.length = b.length) (ha : a ≠ []) :
    (manhattan.distance a b).SignClear :=
  signClear_sum (signClear_of_mem_terms fun _ _ => signClear_abs _) (terms_ne_nil hlen ha)

theorem similarity_compare?_one (a b : List α) : (similarity a b).compare? .one ≠ some .gt :=
  clamp_compare?_high signClear_one.neg_compare?_self

theorem signClear_cosine (a b : List α) : (cosine.distance a b).SignClear := by
  rw [cosine]
  dsimp only
  split
  · exact signClear_one
  · exact signClear_one.sub (similarity_compare?_one a b)

theorem Kind.signClear_distance (kind : Kind) (hlen : a.length = b.length) (ha : a ≠ []) :
    (kind.distance a b).SignClear := by
  cases kind with
  | euclidean => exact (signClear_squaredEuclidean hlen ha).sqrt
  | squaredEuclidean => exact signClear_squaredEuclidean hlen ha
  | manhattan => exact signClear_manhattan hlen ha
  | cosine => exact signClear_cosine a b

end Metric

end Vicinity
