import Mathlib.Data.List.Nodup
import Mathlib.Data.List.Range
import Std.Data.HashMap.Lemmas
import Vicinity.Index.Basic

namespace Vicinity

variable {K : Type} [DecidableEq K] [Hashable K]

def Inverse (keys : List K) (slots : Std.HashMap K Nat) : Prop :=
  ∀ (key : K) (slot : Nat), slots[key]? = some slot ↔ keys[slot]? = some key

namespace Inverse

variable {keys : List K} {slots : Std.HashMap K Nat} {key : K} {slot : Nat}

theorem nil : Inverse ([] : List K) ∅ := by
  intro key slot
  simp

theorem slot_unique (h : Inverse keys slots) {i j : Nat} (hi : keys[i]? = some key)
    (hj : keys[j]? = some key) : i = j :=
  Option.some.inj (((h key i).2 hi).symm.trans ((h key j).2 hj))

theorem nodup (h : Inverse keys slots) : keys.Nodup := by
  rw [List.nodup_iff_getElem?_ne_getElem?]
  intro i j hij hj he
  rw [List.getElem?_eq_getElem hj] at he
  exact hij.ne (h.slot_unique he (List.getElem?_eq_getElem hj))

theorem getElem?_eq_none_iff (h : Inverse keys slots) : slots[key]? = none ↔ key ∉ keys := by
  constructor
  · intro hn hk
    obtain ⟨i, hi⟩ := List.mem_iff_getElem?.1 hk
    rw [(h key i).2 hi] at hn
    cases hn
  · intro hk
    cases hs : slots[key]? with
    | none => rfl
    | some i => exact absurd (List.mem_of_getElem? ((h key i).1 hs)) hk

theorem contains_eq (h : Inverse keys slots) : slots.contains key = decide (key ∈ keys) := by
  rw [Std.HashMap.contains_eq_isSome_getElem?, Bool.eq_iff_iff, decide_eq_true_iff,
    Option.isSome_iff_ne_none, ne_eq, h.getElem?_eq_none_iff, not_not]

theorem append (h : Inverse keys slots) (hkey : key ∉ keys) :
    Inverse (keys ++ [key]) (slots.insert key keys.length) := by
  intro k i
  rw [Std.HashMap.getElem?_insert]
  by_cases hk : key = k
  · subst k
    simp only [beq_self_eq_true, if_true, Option.some.injEq]
    constructor
    · rintro rfl
      exact List.getElem?_concat_length
    · intro hi
      obtain ⟨hlt, he⟩ := List.getElem?_eq_some_iff.1 hi
      rw [List.length_append, List.length_singleton] at hlt
      by_cases hl : i < keys.length
      · rw [List.getElem_append_left hl] at he
        exact absurd (he ▸ List.getElem_mem hl) hkey
      · omega
  · rw [if_neg (by simpa using hk), h k i]
    by_cases hl : i < keys.length
    · rw [List.getElem?_append_left hl]
    · rw [List.getElem?_append_right (by omega), List.getElem?_eq_none (by omega)]
      cases i - keys.length <;> simp [hk]

/-- The order of renumbering does not show: each key's slot is moved once, whenever its turn
comes. -/
theorem getElem?_renumber (freed : Nat) {order : List K} (hnodup : order.Nodup)
    (horder : ∀ k, slots[k]? ≠ none → k ∈ order) :
    (Index.renumber freed order slots)[key]? = slots[key]?.map (Index.closeGap freed) := by
  have hfold (ks : List K) (m : Std.HashMap K Nat) (hks : ks.Nodup) :
      (ks.foldl (fun m k => m.modify k (Index.closeGap freed)) m)[key]? =
        if key ∈ ks then m[key]?.map (Index.closeGap freed) else m[key]? := by
    induction ks generalizing m with
    | nil => rfl
    | cons k ks ih =>
        obtain ⟨hk, hks⟩ := List.nodup_cons.1 hks
        rw [List.foldl_cons, ih _ hks, Std.HashMap.getElem?_modify]
        by_cases he : k = key
        · subst k; simp [hk]
        · simp [he, Ne.symm he]
  rw [Index.renumber, hfold order slots hnodup]
  by_cases hk : key ∈ order
  · rw [if_pos hk]
  · rw [if_neg hk, Classical.not_not.1 (mt (horder key) hk)]
    rfl

theorem erase (h : Inverse keys slots) (hkey : keys[slot]? = some key) (order : KeyOrder K) :
    Inverse (keys.eraseIdx slot)
      (Index.renumber slot (order.keys (slots.erase key)) (slots.erase key)) := by
  have hperm := order.keys_perm (slots.erase key)
  have hcover (k : K) (hk : (slots.erase key)[k]? ≠ none) : k ∈ order.keys (slots.erase key) := by
    rw [hperm.mem_iff, Std.HashMap.mem_keys, Std.HashMap.mem_iff_isSome_getElem?]
    exact Option.isSome_iff_ne_none.2 hk
  intro k i
  rw [getElem?_renumber slot (hperm.nodup_iff.2 Std.HashMap.nodup_keys) hcover,
    Std.HashMap.getElem?_erase, List.getElem?_eraseIdx]
  constructor
  · intro hs
    by_cases hk : key = k
    · simp [hk] at hs
    · rw [if_neg (by simpa using hk)] at hs
      obtain ⟨s, hs, hi⟩ := Option.map_eq_some_iff.1 hs
      have hks := (h k s).1 hs
      have hne : s ≠ slot := by
        rintro rfl
        exact hk (Option.some.inj (hkey.symm.trans hks))
      unfold Index.closeGap at hi
      by_cases hlt : slot < s
      · rw [if_pos hlt] at hi
        rw [if_neg (by omega), show i + 1 = s by omega, hks]
      · rw [if_neg hlt] at hi
        rw [if_pos (by omega), ← hi, hks]
  · intro hs
    have hsome (s : Nat) (hks : keys[s]? = some k) (hne : s ≠ slot) :
        (if key == k then none else slots[k]?) = some s := by
      have hk : key ≠ k := by
        rintro rfl
        exact hne (h.slot_unique hks hkey)
      rw [if_neg (by simpa using hk), (h k s).2 hks]
    by_cases hlt : i < slot
    · rw [if_pos hlt] at hs
      rw [hsome i hs (by omega), Option.map_some, Index.closeGap, if_neg (by omega)]
    · rw [if_neg hlt] at hs
      rw [hsome (i + 1) hs (by omega), Option.map_some, Index.closeGap, if_pos (by omega)]
      rfl

theorem toList_perm (h : Inverse keys slots) : slots.toList.Perm keys.zipIdx := by
  have hnodup : slots.toList.Nodup :=
    Std.HashMap.distinct_keys_toList.imp fun hne he => by simp [he] at hne
  have hnodup' : keys.zipIdx.Nodup := by
    refine List.Nodup.of_map Prod.snd ?_
    rw [List.zipIdx_map_snd]
    exact List.nodup_range'
  rw [List.perm_ext_iff_of_nodup hnodup hnodup']
  intro ⟨key, slot⟩
  rw [Std.HashMap.mem_toList_iff_getElem?_eq_some, h key slot, List.mk_mem_zipIdx_iff_getElem?]

theorem map_snd_toList_perm (h : Inverse keys slots) :
    (slots.toList.map Prod.snd).Perm (List.range keys.length) := by
  have hp := h.toList_perm.map Prod.snd
  rwa [List.zipIdx_map_snd, ← List.range_eq_range'] at hp

theorem size_eq (h : Inverse keys slots) : slots.size = keys.length := by
  rw [← Std.HashMap.length_toList, h.toList_perm.length_eq, List.length_zipIdx]

end Inverse

end Vicinity
