import Mathlib.Data.Nat.Find
import Mathlib.Order.Bounds.Basic
import Vicinity.Index.Command

namespace Vicinity

variable {K α : Type}

abbrev Record (K α : Type) := Command K α × Except Error (Reply K α)

abbrev History (K α : Type) := List (Record K α)

namespace Record

def Sets (e : Record K α) (key : K) (v : List α) : Prop := ∃ reply, e = (.set key v, .ok reply)

def Ends (e : Record K α) (key : K) : Prop := e.1 = .remove key ∨ e.1 = .clear

theorem Sets.not_ends {e : Record K α} {key₁ key₂ : K} {v : List α} (h : e.Sets key₁ v) :
    ¬e.Ends key₂ := by
  obtain ⟨_, rfl⟩ := h
  rintro (h | h) <;> cases h

theorem Sets.eq {e : Record K α} {key₁ key₂ : K} {v₁ v₂ : List α} (h₁ : e.Sets key₁ v₁)
    (h₂ : e.Sets key₂ v₂) : key₁ = key₂ ∧ v₁ = v₂ := by
  obtain ⟨_, rfl⟩ := h₁
  obtain ⟨_, h⟩ := h₂
  cases h
  exact ⟨rfl, rfl⟩

end Record

namespace History

variable {h : History K α} {x : Record K α} {key : K} {v w : List α} {i j : Nat}

def Sets (h : History K α) (i : Nat) (key : K) (v : List α) : Prop := ∃ e ∈ h[i]?, e.Sets key v

def Ends (h : History K α) (i : Nat) (key : K) : Prop := ∃ e ∈ h[i]?, e.Ends key

/-- The last accepted vector of a key that nothing has taken out since. -/
def Holds (h : History K α) (key : K) (v : List α) : Prop :=
  ∃ i, h.Sets i key v ∧ ∀ j, i < j → ¬h.Ends j key ∧ ∀ w, ¬h.Sets j key w

def Lives (h : History K α) (key : K) (i : Nat) : Prop :=
  (∃ v, h.Sets i key v) ∧ ∀ j, h.Ends j key → j < i

/-- Where the current lifetime of a key begins. -/
def Begins (h : History K α) (key : K) (i : Nat) : Prop := IsLeast {i | h.Lives key i} i

theorem exists_mem_append_iff {P : Record K α → Prop} :
    (∃ e ∈ (h ++ [x])[i]?, P e) ↔ (∃ e ∈ h[i]?, P e) ∨ i = h.length ∧ P x := by
  rcases lt_trichotomy i h.length with hi | rfl | hi
  · rw [List.getElem?_append_left hi]
    simp [hi.ne]
  · simp
  · rw [List.getElem?_eq_none hi.le, List.getElem?_eq_none]
    · simp [hi.ne']
    · rwa [List.length_append, List.length_singleton]

theorem sets_append_iff :
    (h ++ [x]).Sets i key v ↔ h.Sets i key v ∨ i = h.length ∧ x.Sets key v :=
  exists_mem_append_iff

theorem ends_append_iff : (h ++ [x]).Ends i key ↔ h.Ends i key ∨ i = h.length ∧ x.Ends key :=
  exists_mem_append_iff

theorem lt_length_of_exists_mem {P : Record K α → Prop} (hi : ∃ e ∈ h[i]?, P e) : i < h.length := by
  obtain ⟨e, he, -⟩ := hi
  exact (List.getElem?_eq_some_iff.1 he).1

theorem Sets.lt_length (hi : h.Sets i key v) : i < h.length := lt_length_of_exists_mem hi

theorem Ends.lt_length (hi : h.Ends i key) : i < h.length := lt_length_of_exists_mem hi

theorem Lives.lt_length (hi : h.Lives key i) : i < h.length := by
  obtain ⟨⟨v, hv⟩, -⟩ := hi
  exact hv.lt_length

theorem holds_append_of_quiet (hsets : ∀ v, ¬x.Sets key v) (hends : ¬x.Ends key) :
    (h ++ [x]).Holds key v ↔ h.Holds key v := by
  simp only [Holds, sets_append_iff, ends_append_iff, hsets, hends, and_false, or_false]

theorem holds_append_of_sets (hx : x.Sets key v) : (h ++ [x]).Holds key w ↔ w = v := by
  constructor
  · rintro ⟨i, hi, hlast⟩
    have hn : (h ++ [x]).Sets h.length key v := sets_append_iff.2 (.inr ⟨rfl, hx⟩)
    rcases sets_append_iff.1 hi with hi | ⟨-, hw⟩
    · exact absurd hn ((hlast _ hi.lt_length).2 v)
    · exact (hw.eq hx).2
  · rintro rfl
    refine ⟨h.length, sets_append_iff.2 (.inr ⟨rfl, hx⟩), fun j hj => ⟨fun hend => ?_, ?_⟩⟩
    · have hlt := hend.lt_length
      rw [List.length_append, List.length_singleton] at hlt
      omega
    · intro w hset
      have hlt := hset.lt_length
      rw [List.length_append, List.length_singleton] at hlt
      omega

theorem lives_append_iff (hends : ¬x.Ends key) :
    (h ++ [x]).Lives key i ↔ h.Lives key i ∨ i = h.length ∧ ∃ v, x.Sets key v := by
  simp only [Lives, sets_append_iff, ends_append_iff, hends, and_false, or_false]
  constructor
  · rintro ⟨⟨w, hw | ⟨hi, hw⟩⟩, hlast⟩
    · exact .inl ⟨⟨w, hw⟩, hlast⟩
    · exact .inr ⟨hi, w, hw⟩
  · rintro (⟨⟨w, hw⟩, hlast⟩ | ⟨rfl, w, hw⟩)
    · exact ⟨⟨w, .inl hw⟩, hlast⟩
    · exact ⟨⟨w, .inr ⟨rfl, hw⟩⟩, fun j hj => hj.lt_length⟩

theorem not_holds_append_of_ends (hx : x.Ends key) : ¬(h ++ [x]).Holds key v := by
  rintro ⟨i, hi, hlast⟩
  rcases sets_append_iff.1 hi with hi | ⟨-, hw⟩
  · exact (hlast _ hi.lt_length).1 (ends_append_iff.2 (.inr ⟨rfl, hx⟩))
  · exact hw.not_ends hx

theorem not_lives_append_of_ends (hx : x.Ends key) : ¬(h ++ [x]).Lives key i := by
  rintro ⟨⟨w, hw⟩, hlast⟩
  have hn := hlast _ (ends_append_iff.2 (.inr ⟨rfl, hx⟩))
  have hlt := hw.lt_length
  rw [List.length_append, List.length_singleton] at hlt
  omega

theorem begins_append_iff (hends : ¬x.Ends key) (hj : h.Lives key j) :
    (h ++ [x]).Begins key i ↔ h.Begins key i := by
  constructor
  · rintro ⟨hi, hleast⟩
    -- A later vector of a key that is still there does not begin a lifetime.
    have hle := hleast ((lives_append_iff hends).2 (.inl hj))
    have hlt := hj.lt_length
    refine ⟨((lives_append_iff hends).1 hi).resolve_right fun hn => ?_, fun l hl => ?_⟩
    · omega
    · exact hleast ((lives_append_iff hends).2 (.inl hl))
  · rintro ⟨hi, hleast⟩
    refine ⟨(lives_append_iff hends).2 (.inl hi), fun l hl => ?_⟩
    rcases (lives_append_iff hends).1 hl with hl | ⟨rfl, -⟩
    · exact hleast hl
    · exact (Lives.lt_length hi).le

theorem Begins.eq_length (hends : ¬x.Ends key) (hno : ∀ j, ¬h.Lives key j)
    (hi : (h ++ [x]).Begins key i) : i = h.length :=
  (((lives_append_iff hends).1 hi.1).resolve_left (hno i)).1

theorem exists_begins (hi : h.Lives key i) : ∃ j, h.Begins key j := by
  classical
  have hex : ∃ j, h.Lives key j := ⟨i, hi⟩
  exact ⟨Nat.find hex, Nat.find_spec hex, fun j hj => Nat.find_min' hex hj⟩

end History

end Vicinity
