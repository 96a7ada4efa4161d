import Vicinity.Proofs.Literals

namespace Vicinity.Json

variable {cs rest t u : List Char} {isFirst : Bool}

theorem ident_eq_ok_iff {xs : List Char} : ident xs cs = .ok rest ↔ cs = xs ++ rest := by
  induction xs generalizing cs with
  | nil => simp [ident]
  | cons x xs ih =>
      cases cs with
      | nil => simp [ident, failHere]
      | cons c cs =>
          rw [ident]
          split_ifs with h
          · simp [ih, h]
          · simp [h, failNext]

theorem mismatch_ne_ok {α : Type} {expected : String} {a : α} : mismatch expected cs ≠ .ok a := by
  simp [mismatch, Except.bind_eq_ok_iff, failHere]

theorem Literal.eq_cons {s : String} (h : Literal t s) : ∃ u, t = '"' :: u := by
  cases h
  exact ⟨_, rfl⟩

theorem key_eq_ok_iff {name : Option String} :
    key cs = .ok (name, rest) ↔ ∃ s t, name = some s ∧ Literal t s ∧ cs = t ++ rest := by
  unfold key
  split
  · simp only [Except.map_eq_ok_iff, Prod.exists, stringBody_eq_ok_iff, Prod.mk.injEq]
    constructor
    · rintro ⟨s, _, ⟨t, ht, he⟩, rfl, rfl⟩
      exact ⟨s, t, rfl, ht, he⟩
    · rintro ⟨s, t, rfl, ht, he⟩
      exact ⟨s, rest, ⟨t, ht, he⟩, rfl, rfl⟩
  · next hquote =>
      refine iff_of_false (by simp [failNext]) ?_
      rintro ⟨s, t, -, ht, rfl⟩
      obtain ⟨u, rfl⟩ := ht.eq_cons
      exact hquote _ rfl

theorem Lead.blank (h : Lead true u) : Blank u := by
  cases h with
  | first hu => exact hu

section Leads

variable {α : Type} {close : Char} {ended unexpected : Cause} {stop go : List Char → Read α}
  {a : α × List Char}

/-- What the members of an object and the items of a list have in common: nothing, one to stop at or
one to go on with follows. -/
def next (close : Char) (ended unexpected : Cause) (stop go : List Char → Read α) (isFirst : Bool)
    (cs : List Char) : Read α :=
  match skipBlank cs with
  | [] => failNext ended []
  | c :: rest =>
    if c = close then stop (c :: rest)
    else if isFirst then go (c :: rest)
    else if c ≠ ',' then failNext unexpected (c :: rest)
    else match skipBlank rest with
      | [] => failNext .eofInValue []
      | d :: rest => if d = close then failNext .trailingComma (d :: rest) else go (d :: rest)

theorem nextKey_eq_next :
    nextKey = next '\x7d' .eofInObject .expectedObjectEnd (fun cs => .ok (none, cs)) key := by
  funext isFirst cs
  rw [nextKey, next]
  split
  · simp_all
  · simp_all
  · next hc hs =>
      simp only [hs, if_neg hc]
      split_ifs
      · rfl
      · rfl
      · split
        · simp_all
        · simp_all
        · split <;> simp_all

theorem nextItem_eq_next :
    nextItem = next ']' .eofInList .expectedListEnd (fun cs => .ok (false, cs))
      (fun cs => .ok (true, cs)) := by
  funext isFirst cs
  rw [nextItem, next]
  split
  · simp_all
  · simp_all
  · next hc hs =>
      simp only [hs, if_neg hc]
      split_ifs
      · rfl
      · rfl
      · split
        · simp_all
        · simp_all
        · split <;> simp_all

theorem next_eq_ok_iff (hblank : isBlank close = false) (hcomma : close ≠ ',') :
    next close ended unexpected stop go isFirst cs = .ok a ↔
      (∃ u r, Blank u ∧ cs = u ++ close :: r ∧ stop (close :: r) = .ok a) ∨
        ∃ u c r, Lead isFirst u ∧ isBlank c = false ∧ c ≠ close ∧ cs = u ++ c :: r ∧
          go (c :: r) = .ok a := by
  constructor
  · intro h
    obtain ⟨u, hu, hcs⟩ := exists_blank_append cs
    unfold next at h
    split at h
    · cases h
    · next c r hs =>
        have hc := isBlank_of_skipBlank_eq_cons hs
        rw [hs] at hcs
        split_ifs at h with hstop hfirst hother
        · exact .inl ⟨u, r, hu, hstop ▸ hcs, hstop ▸ h⟩
        · exact .inr ⟨u, c, r, hfirst ▸ .first hu, hc, hstop, hcs, h⟩
        · cases h
        · obtain ⟨v, hv, hr⟩ := exists_blank_append r
          split at h
          · cases h
          · next d r hs =>
              have hd := isBlank_of_skipBlank_eq_cons hs
              rw [hs] at hr
              split_ifs at h with hstop
              · cases h
              · rw [Bool.not_eq_true] at hfirst
                refine .inr ⟨u ++ ',' :: v, d, r, hfirst ▸ .later hu hv, hd, hstop, ?_, h⟩
                rw [hcs, not_not.1 hother, hr, List.append_assoc, List.cons_append]
  · rintro (⟨u, r, hu, rfl, h⟩ | ⟨_, c, r, hu, hc, hclose, rfl, h⟩)
    · rw [next, skipBlank_append hu, skipBlank_cons hblank]
      exact (if_pos rfl).trans h
    · cases hu with
      | first hu =>
          rw [next, skipBlank_append hu, skipBlank_cons hc]
          exact (if_neg hclose).trans h
      | later hu hv =>
          rw [next, List.append_assoc, skipBlank_append hu, List.cons_append,
            skipBlank_cons (by decide)]
          simp only [if_neg hcomma.symm, Bool.false_eq_true, if_false, ne_eq, not_true_eq_false,
            skipBlank_append hv, skipBlank_cons hc, if_neg hclose, h]

theorem nextKey_eq_ok_none_iff :
    nextKey isFirst cs = .ok (none, rest) ↔
      ∃ u r, Blank u ∧ rest = '\x7d' :: r ∧ cs = u ++ rest := by
  rw [nextKey_eq_next, next_eq_ok_iff (by decide) (by decide)]
  constructor
  · rintro (⟨u, r, hu, rfl, h⟩ | ⟨u, c, r, -, -, -, -, h⟩)
    · cases h
      exact ⟨u, r, hu, rfl, rfl⟩
    · obtain ⟨s, -, hs, -⟩ := key_eq_ok_iff.1 h
      cases hs
  · rintro ⟨u, r, hu, rfl, rfl⟩
    exact .inl ⟨u, r, hu, rfl, rfl⟩

theorem nextKey_eq_ok_some_iff {name : String} :
    nextKey isFirst cs = .ok (some name, rest) ↔
      ∃ u t, Lead isFirst u ∧ Literal t name ∧ cs = u ++ t ++ rest := by
  rw [nextKey_eq_next, next_eq_ok_iff (by decide) (by decide)]
  constructor
  · rintro (⟨u, r, -, -, h⟩ | ⟨u, c, r, hu, -, -, rfl, h⟩)
    · cases h
    · obtain ⟨_, t, ⟨⟩, ht, he⟩ := key_eq_ok_iff.1 h
      exact ⟨u, t, hu, ht, by rw [he, List.append_assoc]⟩
  · rintro ⟨u, t, hu, ht, rfl⟩
    have hkey : key (t ++ rest) = .ok (some name, rest) :=
      key_eq_ok_iff.2 ⟨name, t, rfl, ht, rfl⟩
    obtain ⟨t, rfl⟩ := ht.eq_cons
    exact .inr ⟨u, '"', t ++ rest, hu, by decide, by decide, by simp, hkey⟩

theorem nextItem_eq_ok_false_iff :
    nextItem isFirst cs = .ok (false, rest) ↔
      ∃ u r, Blank u ∧ rest = ']' :: r ∧ cs = u ++ rest := by
  rw [nextItem_eq_next, next_eq_ok_iff (by decide) (by decide)]
  constructor
  · rintro (⟨u, r, hu, rfl, h⟩ | ⟨u, c, r, -, -, -, -, h⟩) <;> cases h
    exact ⟨u, r, hu, rfl, rfl⟩
  · rintro ⟨u, r, hu, rfl, rfl⟩
    exact .inl ⟨u, r, hu, rfl, rfl⟩

theorem nextItem_eq_ok_true_iff :
    nextItem isFirst cs = .ok (true, rest) ↔ ∃ u c r, Lead isFirst u ∧ isBlank c = false ∧
      c ≠ ']' ∧ rest = c :: r ∧ cs = u ++ rest := by
  rw [nextItem_eq_next, next_eq_ok_iff (by decide) (by decide)]
  constructor
  · rintro (⟨u, r, -, -, h⟩ | ⟨u, c, r, hu, hblank, hc, rfl, h⟩) <;> cases h
    exact ⟨u, c, r, hu, hblank, hc, rfl, rfl⟩
  · rintro ⟨u, c, r, hu, hblank, hc, rfl, rfl⟩
    exact .inr ⟨u, c, r, hu, hblank, hc, rfl, rfl⟩

end Leads

theorem closeObject_eq_iff :
    closeObject cs = ⟨rest, none⟩ ↔ ∃ u, Blank u ∧ cs = u ++ '\x7d' :: rest := by
  rw [← skipBlank_eq_cons_iff (by decide), closeObject]
  split <;> simp_all [Closing.fail]

theorem closeObject_brace (rest : List Char) : closeObject ('\x7d' :: rest) = ⟨rest, none⟩ :=
  closeObject_eq_iff.2 ⟨[], .nil, rfl⟩

theorem closeList_eq_iff :
    closeList cs = ⟨rest, none⟩ ↔ ∃ u, Blank u ∧ cs = u ++ ']' :: rest := by
  rw [← skipBlank_eq_cons_iff (by decide), closeList]
  split
  · simp_all [Closing.fail]
  · simp_all
  · split <;> simp_all [Closing.fail]
  · simp_all [Closing.fail]

theorem enclosed_eq_ok_iff {α : Type} {close : List Char → Closing}
    {inside : Except Interruption (α × List Char)} {a : α} :
    enclosed close inside = .ok (a, rest) ↔
      ∃ r, inside = .ok (a, r) ∧ close r = ⟨rest, none⟩ := by
  unfold enclosed
  split
  · simp
  · simp [failHere]
  · next b r =>
      split
      · next hclose => simp [hclose, and_assoc]
      · next hclose => simp [hclose, and_assoc]

theorem endOfText_eq_ok_iff : endOfText cs = .ok () ↔ Blank cs := by
  rw [← skipBlank_eq_nil_iff, endOfText]
  split <;> simp_all [failNext]

theorem document_eq_ok_iff {α : Type} {read : List Char → Read α} {text : String} {a : α} :
    document read text = .ok a ↔ ∃ rest, read text.toList = .ok (a, rest) ∧ Blank rest := by
  simp only [document, Except.mapError_eq_ok_iff, Except.bind_eq_ok_iff, Prod.exists]
  constructor
  · rintro ⟨_, rest, hread, _, hend, ⟨⟩⟩
    exact ⟨rest, hread, endOfText_eq_ok_iff.1 hend⟩
  · rintro ⟨rest, hread, hend⟩
    exact ⟨a, rest, hread, (), endOfText_eq_ok_iff.2 hend, rfl⟩

end Vicinity.Json
