import Vicinity.Config.Reader
import Vicinity.Proofs.Nesting

namespace Vicinity.Config

open Json

variable {cs rest : List Char} {k : Metric.Kind} {n : Nat}

section Values

theorem isBlank_of_isDigit {c : Char} (h : c.isDigit = true) : isBlank c = false := by
  rw [Bool.eq_false_iff]
  intro hc
  have hc := isBlank_iff.1 hc
  simp only [List.mem_cons, List.not_mem_nil, or_false] at hc
  rcases hc with rfl | rfl | rfl | rfl <;> cases h

theorem readSize_eq_ok_iff :
    readSize cs = .ok (n, rest) ↔
      ∃ u t, Blank u ∧ Numeral t n ∧ NumberEnd rest ∧ cs = u ++ t ++ rest := by
  constructor
  · intro h
    obtain ⟨u, hu, hcs⟩ := exists_blank_append cs
    unfold readSize at h
    split at h
    · cases h
    · next hs =>
        rw [hs] at hcs
        split_ifs at h
        · obtain ⟨⟨literal, r⟩, hliteral, h⟩ := Except.bind_eq_ok_iff.1 h
          cases literal with
          | natural n =>
              cases h
              obtain ⟨t, ht, hend, he⟩ := numberLiteral_eq_ok_natural_iff.1 hliteral
              exact ⟨u, t, hu, ht, hend, by rw [hcs, he, List.append_assoc]⟩
          | negative | real => cases h
        · exact absurd h mismatch_ne_ok
  · rintro ⟨u, t, hu, ht, hend, rfl⟩
    have hliteral := numberLiteral_eq_ok_natural_iff.2 ⟨t, ht, hend, rfl⟩
    obtain ⟨c, t, rfl, hc⟩ := ht.eq_cons
    have hstart : startsNumber c = true := by rw [startsNumber, hc, Bool.or_true]
    rw [List.cons_append] at hliteral
    rw [readSize, List.append_assoc, skipBlank_append hu, List.cons_append,
      skipBlank_cons (isBlank_of_isDigit hc)]
    simp only [hstart, if_true, hliteral, Except.ok_bind]
    rfl

theorem lookup_spellings_eq_some_iff {s : String} : spellings.lookup s = some k ↔ Names s k := by
  constructor
  · intro h
    obtain ⟨l₁, l₂, he, -⟩ := List.lookup_eq_some_iff.1 h
    have hmem : (s, k) ∈ spellings := he ▸ List.mem_append_right l₁ List.mem_cons_self
    simp only [spellings, List.mem_cons, List.not_mem_nil, or_false, Prod.mk.injEq] at hmem
    rcases hmem with ⟨rfl, rfl⟩ | ⟨rfl, rfl⟩ | ⟨rfl, rfl⟩ | ⟨rfl, rfl⟩ | ⟨rfl, rfl⟩ | ⟨rfl, rfl⟩
    · exact .name .euclidean
    · exact .l2
    · exact .name .squaredEuclidean
    · exact .l1
    · exact .name .manhattan
    · exact .name .cosine
  · rintro (k | _ | _)
    · cases k <;> rfl
    · rfl
    · rfl

theorem readName_eq_ok_iff :
    readName cs = .ok (k, rest) ↔ ∃ t s, Literal t s ∧ Names s k ∧ '"' :: cs = t ++ rest := by
  simp only [readName, Except.bind_eq_ok_iff, Prod.exists, stringBody_eq_ok_iff]
  constructor
  · rintro ⟨s, r, ⟨t, ht, he⟩, h⟩
    split at h
    · next hk =>
        cases h
        exact ⟨t, s, ht, lookup_spellings_eq_some_iff.1 hk, he⟩
    · cases h
  · rintro ⟨t, s, ht, hk, he⟩
    refine ⟨s, rest, ⟨t, ht, he⟩, ?_⟩
    rw [lookup_spellings_eq_some_iff.2 hk]
    rfl

theorem readUnit_eq_ok_iff :
    readUnit cs = .ok rest ↔ ∃ u, Blank u ∧ cs = u ++ ("null".toList ++ rest) := by
  rw [show "null".toList ++ rest = 'n' :: ("ull".toList ++ rest) from rfl,
    ← skipBlank_eq_cons_iff (by decide)]
  unfold readUnit
  split
  · next hs => simp [hs, failNext]
  · next hs => simp [hs, ident_eq_ok_iff]
  · next hn => exact iff_of_false mismatch_ne_ok fun he => hn _ he

theorem MetricText.tagged_cases {t : List Char} (h : MetricText ('\x7b' :: t) k) :
    ∃ u s v w x name, Blank u ∧ Literal s name ∧ Names name k ∧ Blank v ∧ Blank w ∧ Blank x ∧
      t = u ++ s ++ v ++ ':' :: w ++ "null".toList ++ x ++ ['\x7d'] := by
  generalize ht : '\x7b' :: t = text at h
  cases h with
  | name h =>
      obtain ⟨u, rfl⟩ := h.eq_cons
      cases ht
  | tagged hu h hk hv hw hx =>
      cases ht
      exact ⟨_, _, _, _, _, _, hu, h, hk, hv, hw, hx, rfl⟩

theorem readTagged_eq_ok_iff :
    readTagged cs = .ok (k, rest) ↔ ∃ t, MetricText ('\x7b' :: t) k ∧ cs = t ++ rest := by
  constructor
  · intro h
    obtain ⟨u, hu, hcs⟩ := exists_blank_append cs
    unfold readTagged at h
    split at h
    · cases h
    · cases h
    · next hs =>
        rw [hs] at hcs
        simp only [Except.bind_eq_ok_iff, Prod.exists, readName_eq_ok_iff, colon_eq_ok_iff,
          readUnit_eq_ok_iff] at h
        obtain ⟨k, _, ⟨t, s, ht, hk, he⟩, _, ⟨v, hv, rfl⟩, r, ⟨w, hw, rfl⟩, h⟩ := h
        obtain ⟨x, hx, hr⟩ := exists_blank_append r
        split at h
        · cases h
        · next hs =>
            cases h
            rw [hs] at hr
            refine ⟨_, .tagged hu ht hk hv hw hx, ?_⟩
            rw [hcs, he, hr]
            simp
        · cases h
    · cases h
  · rintro ⟨_, h, rfl⟩
    obtain ⟨u, s, v, w, x, name, hu, hs, hk, hv, hw, hx, rfl⟩ := h.tagged_cases
    have hend : skipBlank (x ++ '\x7d' :: rest) = '\x7d' :: rest :=
      (skipBlank_eq_cons_iff (by decide)).2 ⟨x, hx, rfl⟩
    have hunit (r : List Char) : readUnit (w ++ ("null".toList ++ r)) = .ok r :=
      readUnit_eq_ok_iff.2 ⟨w, hw, rfl⟩
    have hcolon (r : List Char) : colon (v ++ ':' :: r) = .ok r := colon_eq_ok_iff.2 ⟨v, hv, rfl⟩
    -- The reader takes the opening quote off before it reads the name.
    obtain ⟨t, rfl⟩ := hs.eq_cons
    have hname (r : List Char) : readName (t ++ r) = .ok (k, r) :=
      readName_eq_ok_iff.2 ⟨'"' :: t, name, hs, hk, rfl⟩
    have htext : u ++ '"' :: t ++ v ++ ':' :: w ++ "null".toList ++ x ++ ['\x7d'] ++ rest =
        u ++ '"' :: (t ++ (v ++ ':' :: (w ++ ("null".toList ++ (x ++ '\x7d' :: rest))))) := by
      simp
    rw [htext, readTagged, skipBlank_append hu, skipBlank_cons (by decide)]
    simp only [hname, hcolon, hunit, hend, Except.ok_bind]
    rfl

theorem MetricText.eq_cons {t : List Char} (h : MetricText t k) :
    (∃ s, Literal t s ∧ Names s k) ∨ ∃ u, t = '\x7b' :: u := by
  cases h with
  | name h hk => exact .inl ⟨_, h, hk⟩
  | tagged => exact .inr ⟨_, rfl⟩

theorem MetricText.exists_head {t : List Char} (h : MetricText t k) :
    ∃ a u, t = a :: u ∧ isBlank a = false ∧ a ≠ ']' := by
  rcases h.eq_cons with ⟨s, h, -⟩ | ⟨u, rfl⟩
  · obtain ⟨u, rfl⟩ := h.eq_cons
    exact ⟨'"', u, rfl, by decide, by decide⟩
  · exact ⟨'\x7b', u, rfl, by decide, by decide⟩

theorem readMetric_eq_ok_iff :
    readMetric cs = .ok (k, rest) ↔ ∃ u t, Blank u ∧ MetricText t k ∧ cs = u ++ t ++ rest := by
  constructor
  · intro h
    obtain ⟨u, hu, hcs⟩ := exists_blank_append cs
    unfold readMetric at h
    split at h
    · cases h
    · next hs =>
        obtain ⟨t, s, ht, hk, he⟩ := readName_eq_ok_iff.1 h
        exact ⟨u, t, hu, .name ht hk, by rw [hcs, hs, he, List.append_assoc]⟩
    · next hs =>
        obtain ⟨t, ht, he⟩ := readTagged_eq_ok_iff.1 h
        exact ⟨u, _, hu, ht, by rw [hcs, hs, he, List.append_assoc, List.cons_append]⟩
    · cases h
  · rintro ⟨u, t, hu, ht, rfl⟩
    rw [readMetric, List.append_assoc, skipBlank_append hu]
    rcases ht.eq_cons with ⟨s, h, hk⟩ | ⟨t, rfl⟩
    · obtain ⟨t, rfl⟩ := h.eq_cons
      rw [List.cons_append, skipBlank_cons (by decide)]
      exact readName_eq_ok_iff.2 ⟨_, s, h, hk, rfl⟩
    · rw [List.cons_append, skipBlank_cons (by decide)]
      exact readTagged_eq_ok_iff.2 ⟨t, ht, rfl⟩

end Values

section Fields

variable {d d' : Draft} {ms : List Member}

/-- The members complete the one draft to the other, with no field given twice. -/
structure Fills (d : Draft) (ms : List Member) (d' : Draft) : Prop where
  dimension : d.dimension.toList ++ ms.filterMap Member.dimension? = d'.dimension.toList
  metric : d.metric.toList ++ ms.filterMap Member.metric? = d'.metric.toList

theorem eq_of_toList_eq {α : Type} {x y : Option α} (h : x.toList = y.toList) : x = y :=
  Option.ext fun a => by rw [← Option.mem_toList, h, Option.mem_toList]

theorem toList_append_cons_iff {α : Type} {x y : Option α} {a : α} {as : List α} :
    x.toList ++ a :: as = y.toList ↔ x = none ∧ (some a).toList ++ as = y.toList := by
  cases x <;> cases y <;> simp

theorem fills_nil_iff : Fills d [] d' ↔ d = d' := by
  constructor
  · rintro ⟨hd, hm⟩
    rw [List.filterMap_nil, List.append_nil] at hd hm
    cases d
    cases d'
    exact congrArg₂ Draft.mk (eq_of_toList_eq hd) (eq_of_toList_eq hm)
  · rintro rfl
    exact ⟨List.append_nil _, List.append_nil _⟩

theorem fills_dimension_cons_iff :
    Fills d (.dimension n :: ms) d' ↔
      d.dimension = none ∧ Fills { d with dimension := some n } ms d' := by
  constructor
  · rintro ⟨hd, hm⟩
    obtain ⟨h, hd⟩ := toList_append_cons_iff.1 hd
    exact ⟨h, hd, hm⟩
  · rintro ⟨h, hd, hm⟩
    exact ⟨toList_append_cons_iff.2 ⟨h, hd⟩, hm⟩

theorem fills_metric_cons_iff :
    Fills d (.metric k :: ms) d' ↔ d.metric = none ∧ Fills { d with metric := some k } ms d' := by
  constructor
  · rintro ⟨hd, hm⟩
    obtain ⟨h, hm⟩ := toList_append_cons_iff.1 hm
    exact ⟨h, hd, hm⟩
  · rintro ⟨h, hd, hm⟩
    exact ⟨hd, toList_append_cons_iff.2 ⟨h, hm⟩⟩

theorem gives_iff {c : Config} :
    Gives ms c ↔ ∃ d, Fills {} ms d ∧ d.dimension = some c.dimension ∧
      d.metric.getD default = c.metric := by
  constructor
  · rintro ⟨hd, hm | ⟨hm, hc⟩⟩
    · exact ⟨⟨some c.dimension, some c.metric⟩, ⟨hd, hm⟩, rfl, rfl⟩
    · exact ⟨⟨some c.dimension, none⟩, ⟨hd, hm⟩, rfl, hc.symm⟩
  · rintro ⟨⟨dimension, metric⟩, ⟨hd, hm⟩, rfl, hc⟩
    cases metric with
    | none => exact ⟨hd, .inr ⟨hm, hc.symm⟩⟩
    | some k => exact ⟨hd, .inl (hc ▸ hm)⟩

theorem Members.numberEnd {t : List Char} (h : Members false t ms) :
    NumberEnd (t ++ '\x7d' :: rest) := by
  cases h with
  | nil hu => exact .of_blank hu (.cons (by decide))
  | cons hu =>
      cases hu with
      | later hu =>
          simp only [List.append_assoc, List.cons_append]
          exact .of_blank hu (.cons (by decide))

theorem readField_eq_ok_iff {α : Type} {read : List Char → Read α} {a : α} :
    readField read cs = .ok (a, rest) ↔
      ∃ u r, Blank u ∧ cs = u ++ ':' :: r ∧ read r = .ok (a, rest) := by
  simp only [readField, Except.mapError_eq_ok_iff, Except.bind_eq_ok_iff, colon_eq_ok_iff]
  constructor
  · rintro ⟨r, ⟨u, hu, he⟩, h⟩
    exact ⟨u, r, hu, he, h⟩
  · rintro ⟨u, r, hu, he, h⟩
    exact ⟨r, ⟨u, hu, he⟩, h⟩

section Steps

variable {isFirst : Bool} {r : List Char}

theorem readFields_end (hkey : nextKey isFirst cs = .ok (none, rest)) :
    readFields isFirst d cs = .ok (d, rest) := by
  rw [readFields]
  split <;> simp_all

theorem readFields_dimension (hkey : nextKey isFirst cs = .ok (some "dimension", r))
    (hd : d.dimension = none) (hfield : readField readSize r = .ok (n, rest)) :
    readFields isFirst d cs = readFields false { d with dimension := some n } rest := by
  rw [readFields]
  split <;> simp_all

theorem readFields_metric (hkey : nextKey isFirst cs = .ok (some "metric", r))
    (hd : d.metric = none) (hfield : readField readMetric r = .ok (k, rest)) :
    readFields isFirst d cs = readFields false { d with metric := some k } rest := by
  rw [readFields]
  split <;> simp_all

end Steps

theorem readFields_eq_ok_iff {isFirst : Bool} :
    readFields isFirst d cs = .ok (d', rest) ↔
      ∃ t ms r, Members isFirst t ms ∧ Fills d ms d' ∧ rest = '\x7d' :: r ∧ cs = t ++ rest := by
  -- The reader's recursion gives the members one by one, and their grammar leads the reader back.
  constructor
  · intro h
    fun_induction readFields isFirst d cs with
    | case1 | case3 | case4 | case6 | case7 | case9 => cases h
    | case2 isFirst d cs r hkey =>
        cases h
        obtain ⟨u, r, hu, rfl, rfl⟩ := nextKey_eq_ok_none_iff.1 hkey
        exact ⟨u, [], r, .nil hu, fills_nil_iff.2 rfl, rfl, rfl⟩
    | case5 isFirst d cs r hkey hd n r' hfield ih =>
        obtain ⟨t, ms, r, ht, hms, rfl, rfl⟩ := ih h
        obtain ⟨l, s, hl, hs, rfl⟩ := nextKey_eq_ok_some_iff.1 hkey
        obtain ⟨u, r', hu, rfl, hn⟩ := readField_eq_ok_iff.1 hfield
        obtain ⟨v, w, hv, hw, -, rfl⟩ := readSize_eq_ok_iff.1 hn
        refine ⟨_, _, r, .cons hl (.dimension hs hu hv hw) ht,
          fills_dimension_cons_iff.2 ⟨by simpa using hd, hms⟩, rfl, by simp⟩
    | case8 isFirst d cs r hkey hd k r' hfield ih =>
        obtain ⟨t, ms, r, ht, hms, rfl, rfl⟩ := ih h
        obtain ⟨l, s, hl, hs, rfl⟩ := nextKey_eq_ok_some_iff.1 hkey
        obtain ⟨u, r', hu, rfl, hk⟩ := readField_eq_ok_iff.1 hfield
        obtain ⟨v, w, hv, hw, rfl⟩ := readMetric_eq_ok_iff.1 hk
        refine ⟨_, _, r, .cons hl (.metric hs hu hv hw) ht,
          fills_metric_cons_iff.2 ⟨by simpa using hd, hms⟩, rfl, by simp⟩
  · rintro ⟨t, ms, r, ht, hd, rfl, rfl⟩
    induction ht generalizing d with
    | nil hu =>
        rw [fills_nil_iff.1 hd]
        exact readFields_end (nextKey_eq_ok_none_iff.2 ⟨_, r, hu, rfl, rfl⟩)
    | cons hl hm ht ih =>
        cases hm with
        | dimension hs hu hv hw =>
            obtain ⟨hnone, hd⟩ := fills_dimension_cons_iff.1 hd
            rw [← ih hd]
            refine readFields_dimension (nextKey_eq_ok_some_iff.2 ⟨_, _, hl, hs, ?_⟩) hnone
              (readField_eq_ok_iff.2 ⟨_, _, hu, rfl,
                readSize_eq_ok_iff.2 ⟨_, _, hv, hw, ht.numberEnd, rfl⟩⟩)
            simp
        | metric hs hu hv hw =>
            obtain ⟨hnone, hd⟩ := fills_metric_cons_iff.1 hd
            rw [← ih hd]
            refine readFields_metric (nextKey_eq_ok_some_iff.2 ⟨_, _, hl, hs, ?_⟩) hnone
              (readField_eq_ok_iff.2 ⟨_, _, hu, rfl, readMetric_eq_ok_iff.2 ⟨_, _, hv, hw, rfl⟩⟩)
            simp

end Fields

section Shapes

variable {c : Config}

theorem readObject_eq_ok_iff :
    readObject cs = .ok (c, rest) ↔
      ∃ t ms r, Members true t ms ∧ Gives ms c ∧ rest = '\x7d' :: r ∧ cs = t ++ rest := by
  simp only [readObject, Except.bind_eq_ok_iff, Prod.exists, readFields_eq_ok_iff, gives_iff]
  constructor
  · rintro ⟨d, _, ⟨t, ms, r, ht, hd, rfl, rfl⟩, h⟩
    split at h
    · next hn =>
        cases h
        exact ⟨t, ms, r, ht, ⟨d, hd, hn, rfl⟩, rfl, rfl⟩
    · cases h
  · rintro ⟨t, ms, r, ht, ⟨d, hd, hn, hk⟩, rfl, rfl⟩
    refine ⟨d, _, ⟨t, ms, r, ht, hd, rfl, rfl⟩, ?_⟩
    simp only [hn, hk]
    rfl

theorem enclosed_readObject_eq_ok_iff :
    enclosed closeObject (readObject cs) = .ok (c, rest) ↔
      ∃ t ms, Members true t ms ∧ Gives ms c ∧ cs = t ++ '\x7d' :: rest := by
  simp only [enclosed_eq_ok_iff, readObject_eq_ok_iff]
  constructor
  · rintro ⟨_, ⟨t, ms, r, ht, hc, rfl, rfl⟩, hclose⟩
    rw [closeObject_brace] at hclose
    cases hclose
    exact ⟨t, ms, ht, hc, rfl⟩
  · rintro ⟨t, ms, ht, hc, rfl⟩
    exact ⟨'\x7d' :: rest, ⟨t, ms, rest, ht, hc, rfl, rfl⟩, closeObject_brace rest⟩

theorem exists_items_of_readList (h : readList cs = .ok (c, rest)) {r : List Char}
    (hclose : closeList rest = ⟨r, none⟩) : ∃ t, Items t c ∧ cs = t ++ ']' :: r := by
  obtain ⟨x, hx, rfl⟩ := closeList_eq_iff.1 hclose
  simp only [readList, Except.bind_eq_ok_iff, Except.mapError_eq_ok_iff, Prod.exists] at h
  obtain ⟨found, r₁, hfirst, h⟩ := h
  cases found with
  | false => cases h
  | true =>
      obtain ⟨u, _, _, hlead, -, -, -, rfl⟩ := nextItem_eq_ok_true_iff.1 hfirst
      have hu := hlead.blank
      rw [if_neg (by decide)] at h
      simp only [Except.bind_eq_ok_iff, Except.mapError_eq_ok_iff, Prod.exists] at h
      obtain ⟨n, r₂, hn, found, r₃, hsecond, h⟩ := h
      obtain ⟨u', t, hu', ht, -, rfl⟩ := readSize_eq_ok_iff.1 hn
      cases found with
      | false =>
          obtain ⟨v, _, hv, hbracket, rfl⟩ := nextItem_eq_ok_false_iff.1 hsecond
          cases h
          exact ⟨_, .single (hu.append hu') ht (hv.append hx), by simp⟩
      | true =>
          obtain ⟨l, _, _, hl, -, -, -, rfl⟩ := nextItem_eq_ok_true_iff.1 hsecond
          rw [if_neg (by decide)] at h
          simp only [Except.bind_eq_ok_iff, Except.mapError_eq_ok_iff, Prod.exists] at h
          obtain ⟨k, r₄, hk, h⟩ := h
          cases h
          obtain ⟨w', s, hw', hs, rfl⟩ := readMetric_eq_ok_iff.1 hk
          cases hl with
          | later hv hw => exact ⟨_, .pair (hu.append hu') ht hv (hw.append hw') hs hx, by simp⟩

theorem nextItem_numeral {t u : List Char} (hu : Blank u) (hn : Numeral t n) :
    nextItem true (u ++ (t ++ cs)) = .ok (true, t ++ cs) := by
  obtain ⟨c, t, rfl, hc⟩ := hn.eq_cons
  exact nextItem_eq_ok_true_iff.2
    ⟨u, c, t ++ cs, .first hu, isBlank_of_isDigit hc, (by rintro rfl; cases hc), rfl, rfl⟩

theorem readSize_numeral {t : List Char} (hn : Numeral t n) (hend : NumberEnd cs) :
    readSize (t ++ cs) = .ok (n, cs) :=
  readSize_eq_ok_iff.2 ⟨[], t, .nil, hn, hend, rfl⟩

theorem readList_single {t u v : List Char} (hu : Blank u) (hn : Numeral t n) (hv : Blank v) :
    readList (u ++ t ++ (v ++ ']' :: rest)) = .ok (⟨n, default⟩, ']' :: rest) := by
  have hend : NumberEnd (v ++ ']' :: rest) := .of_blank hv (.cons (by decide))
  have hstop : nextItem false (v ++ ']' :: rest) = .ok (false, ']' :: rest) :=
    nextItem_eq_ok_false_iff.2 ⟨v, rest, hv, rfl, rfl⟩
  rw [readList, List.append_assoc, nextItem_numeral hu hn]
  simp only [Except.mapError_ok, Except.ok_bind, readSize_numeral hn hend, hstop]
  rfl

theorem readList_pair {s t u v w : List Char} (hu : Blank u) (hn : Numeral t n) (hv : Blank v)
    (hw : Blank w) (hk : MetricText s k) (rest : List Char) :
    readList (u ++ t ++ (v ++ ',' :: w ++ (s ++ rest))) = .ok (⟨n, k⟩, rest) := by
  have hend : NumberEnd (v ++ ',' :: w ++ (s ++ rest)) := by
    rw [List.append_assoc]
    exact .of_blank hv (.cons (by decide))
  have hnext : nextItem false (v ++ ',' :: w ++ (s ++ rest)) = .ok (true, s ++ rest) := by
    obtain ⟨a, s, rfl, ha, hbracket⟩ := hk.exists_head
    exact nextItem_eq_ok_true_iff.2 ⟨_, a, s ++ rest, .later hv hw, ha, hbracket, rfl, rfl⟩
  have hmetric : readMetric (s ++ rest) = .ok (k, rest) :=
    readMetric_eq_ok_iff.2 ⟨[], s, .nil, hk, rfl⟩
  rw [readList, List.append_assoc, nextItem_numeral hu hn]
  simp only [Except.mapError_ok, Except.ok_bind, readSize_numeral hn hend, hnext, hmetric]
  rfl

theorem enclosed_readList_eq_ok_iff :
    enclosed closeList (readList cs) = .ok (c, rest) ↔ ∃ t, Items t c ∧ cs = t ++ ']' :: rest := by
  rw [enclosed_eq_ok_iff]
  constructor
  · rintro ⟨r, h, hclose⟩
    exact exists_items_of_readList h hclose
  · rintro ⟨t, ht, rfl⟩
    cases ht with
    | single hu hn hv =>
        refine ⟨']' :: rest, ?_, closeList_eq_iff.2 ⟨[], .nil, rfl⟩⟩
        rw [List.append_assoc]
        exact readList_single hu hn hv
    | pair hu hn hv hw hk hx =>
        refine ⟨_, ?_, closeList_eq_iff.2 ⟨_, hx, rfl⟩⟩
        simpa only [List.append_assoc] using readList_pair hu hn hv hw hk _

theorem read_eq_ok_iff :
    read cs = .ok (c, rest) ↔ ∃ u t, Blank u ∧ ValueText t c ∧ cs = u ++ t ++ rest := by
  constructor
  · intro h
    obtain ⟨u, hu, hcs⟩ := exists_blank_append cs
    unfold read at h
    split at h
    · cases h
    · next hs =>
        obtain ⟨t, ms, ht, hc, he⟩ := enclosed_readObject_eq_ok_iff.1 h
        exact ⟨u, _, hu, .object ht hc, by rw [hcs, hs, he]; simp⟩
    · next hs =>
        obtain ⟨t, ht, he⟩ := enclosed_readList_eq_ok_iff.1 h
        exact ⟨u, _, hu, .list ht, by rw [hcs, hs, he]; simp⟩
    · exact absurd h mismatch_ne_ok
  · rintro ⟨u, _, hu, (⟨ht, hc⟩ | ht), rfl⟩
    · rw [read, List.append_assoc, skipBlank_append hu, List.append_assoc, List.cons_append,
        skipBlank_cons (by decide)]
      exact enclosed_readObject_eq_ok_iff.2 ⟨_, _, ht, hc, rfl⟩
    · rw [read, List.append_assoc, skipBlank_append hu, List.append_assoc, List.cons_append,
        skipBlank_cons (by decide)]
      exact enclosed_readList_eq_ok_iff.2 ⟨_, ht, rfl⟩

theorem parse_eq_ok_iff {text : String} : parse text = .ok c ↔ Denotes text.toList c := by
  simp only [parse, document_eq_ok_iff, read_eq_ok_iff]
  constructor
  · rintro ⟨v, ⟨u, t, hu, ht, he⟩, hv⟩
    exact he ▸ .mk hu ht hv
  · generalize text.toList = cs
    rintro ⟨hu, ht, hv⟩
    exact ⟨_, ⟨_, _, hu, ht, rfl⟩, hv⟩

theorem Denotes.unique {cs : List Char} {c' : Config} (h : Denotes cs c) (h' : Denotes cs c') :
    c = c' := by
  rw [← String.toList_ofList (l := cs), ← parse_eq_ok_iff] at h h'
  exact Except.ok.inj (h.symm.trans h')

end Shapes

section Classification

variable {text : String} {c : Config}

theorem ofJson_of_not_denotes (h : ¬∃ c, Denotes text.toList c) :
    ∃ e, ofJson text = .error (.invalidConfig e) := by
  cases hp : parse text with
  | ok c => exact absurd ⟨c, parse_eq_ok_iff.1 hp⟩ h
  | error e => exact ⟨e, by rw [ofJson, hp]; rfl⟩

theorem ofJson_of_denotes (h : Denotes text.toList c) :
    ofJson text = if c.dimension = 0 then .error .invalidDimension else .ok c := by
  simp only [ofJson, parse_eq_ok_iff.2 h, Except.mapError_ok, Except.ok_bind, validate]
  split_ifs <;> rfl

theorem ofJson_eq_ok_iff : ofJson text = .ok c ↔ Denotes text.toList c ∧ 1 ≤ c.dimension := by
  constructor
  · intro h
    by_cases hd : ∃ c, Denotes text.toList c
    · obtain ⟨d, hd⟩ := hd
      rw [ofJson_of_denotes hd] at h
      split_ifs at h with hzero
      cases h
      exact ⟨hd, Nat.pos_of_ne_zero hzero⟩
    · obtain ⟨e, he⟩ := ofJson_of_not_denotes hd
      cases he.symm.trans h
  · rintro ⟨hd, hpos⟩
    rw [ofJson_of_denotes hd, if_neg (by omega)]

theorem ofJson_eq_invalidDimension_iff :
    ofJson text = .error .invalidDimension ↔ ∃ c, Denotes text.toList c ∧ c.dimension = 0 := by
  constructor
  · intro h
    by_cases hd : ∃ c, Denotes text.toList c
    · obtain ⟨c, hd⟩ := hd
      rw [ofJson_of_denotes hd] at h
      split_ifs at h with hzero
      exact ⟨c, hd, hzero⟩
    · obtain ⟨e, he⟩ := ofJson_of_not_denotes hd
      cases he.symm.trans h
  · rintro ⟨c, hd, hzero⟩
    rw [ofJson_of_denotes hd, if_pos hzero]

/-- Every text is a configuration, one of dimension zero or none at all. -/
theorem ofJson_classifies (text : String) :
    (∀ c, ofJson text = .ok c ↔ Denotes text.toList c ∧ 1 ≤ c.dimension) ∧
      (ofJson text = .error .invalidDimension ↔
        ∃ c, Denotes text.toList c ∧ c.dimension = 0) ∧
      ((∃ e, ofJson text = .error (.invalidConfig e)) ↔ ¬∃ c, Denotes text.toList c) := by
  refine ⟨fun c => ofJson_eq_ok_iff, ofJson_eq_invalidDimension_iff, ?_, ofJson_of_not_denotes⟩
  rintro ⟨e, he⟩ ⟨c, hd⟩
  rw [ofJson_of_denotes hd] at he
  split_ifs at he
  cases he

end Classification

end Vicinity.Config
