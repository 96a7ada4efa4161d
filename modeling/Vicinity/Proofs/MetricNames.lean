import Vicinity.Proofs.RoundTrip

namespace Vicinity

open Json Config

namespace Metric.Kind

variable {s : String} {k : Kind} {e : Error}

theorem parse_name (k : Kind) : parse k.name = .ok k := by
  cases k <;> rfl

theorem parse_eq_ok_iff : parse s = .ok k ↔ Names s k := by
  constructor
  · intro h
    unfold parse at h
    split at h
    · cases h
      exact .name .euclidean
    · cases h
      exact .l2
    · cases h
      exact .name .squaredEuclidean
    · cases h
      exact .name .manhattan
    · cases h
      exact .l1
    · cases h
      exact .name .cosine
    · cases h
  · rintro (k | _ | _)
    · exact parse_name k
    · rfl
    · rfl

theorem parse_eq_error (h : parse s = .error e) : e = .invalidMetric s := by
  unfold parse at h
  split at h <;> cases h
  rfl

end Metric.Kind

namespace Config

variable {s : String} {t cs rest : List Char} {k : Metric.Kind} {n : Nat}

/-- The characters after the closing quote have no part in what a name is read as. -/
theorem readName_eq_ok_iff_names (h : Literal ('"' :: t) s) :
    readName (t ++ cs) = .ok (k, rest) ↔ Names s k ∧ rest = cs := by
  have hbody : stringBody (t ++ cs) = .ok (s, cs) := stringBody_eq_ok_iff.2 ⟨_, h, rfl⟩
  simp only [readName, hbody, Except.ok_bind]
  rw [← lookup_spellings_eq_some_iff]
  cases spellings.lookup s with
  | none => simp [failHere]
  | some k' => simp [pure, Except.pure, eq_comm]

theorem readMetric_literal (h : Literal t s) :
    readMetric (t ++ cs) = .ok (k, rest) ↔ Names s k ∧ rest = cs := by
  obtain ⟨t, rfl⟩ := h.eq_cons
  rw [List.cons_append, readMetric, skipBlank_cons (by decide)]
  exact readName_eq_ok_iff_names h

theorem readTagged_eq_ok_iff_names (h : Literal t s) :
    readTagged (t ++ (":null\x7d".toList ++ cs)) = .ok (k, rest) ↔ Names s k ∧ rest = cs := by
  obtain ⟨t, rfl⟩ := h.eq_cons
  have hcolon : colon (":null\x7d".toList ++ cs) = .ok ("null".toList ++ '\x7d' :: cs) :=
    colon_eq_ok_iff.2 ⟨[], .nil, rfl⟩
  have hunit : readUnit ("null".toList ++ '\x7d' :: cs) = .ok ('\x7d' :: cs) :=
    readUnit_eq_ok_iff.2 ⟨[], .nil, rfl⟩
  have hend : skipBlank ('\x7d' :: cs) = '\x7d' :: cs := skipBlank_cons (by decide) cs
  rw [List.cons_append, readTagged, skipBlank_cons (by decide)]
  simp only [Except.bind_eq_ok_iff, Prod.exists, readName_eq_ok_iff_names h]
  constructor
  · rintro ⟨k, _, ⟨hk, rfl⟩, r, hc, r', hu, h⟩
    cases hcolon.symm.trans hc
    cases hunit.symm.trans hu
    rw [hend] at h
    cases h
    exact ⟨hk, rfl⟩
  · rintro ⟨hk, rfl⟩
    refine ⟨k, _, ⟨hk, rfl⟩, _, hcolon, _, hunit, ?_⟩
    rw [hend]
    rfl

theorem nextKey_plain {isFirst : Bool} {u : List Char} (hu : Lead isFirst u)
    (h : s.toList.all isPlain = true) (cs : List Char) :
    nextKey isFirst (u ++ ('"' :: s.toList ++ '"' :: cs)) = .ok (some s, cs) :=
  nextKey_eq_ok_some_iff.2 ⟨u, _, hu, .plain h, by simp⟩

theorem readField_colon {α : Type} (read : List Char → Read α) (cs : List Char) :
    readField read (':' :: cs) = (read cs).mapError .failed := by
  have hcolon : colon (':' :: cs) = .ok cs := colon_eq_ok_iff.2 ⟨[], .nil, rfl⟩
  rw [readField, hcolon]
  rfl

theorem readField_dimension (hn : n ≤ wordLimit) (cs : List Char) :
    readField readSize (':' :: (Nat.toDigits 10 n ++ ([','] ++ cs))) = .ok (n, [','] ++ cs) := by
  have hsize : readSize (Nat.toDigits 10 n ++ ([','] ++ cs)) = .ok (n, [','] ++ cs) :=
    readSize_eq_ok_iff.2 ⟨[], _, .nil, numeral_toDigits hn, .cons (by decide), rfl⟩
  rw [readField_colon, hsize]
  rfl

theorem exists_readField_of_metric {isFirst : Bool} {d d' : Draft} {r : List Char}
    (hkey : nextKey isFirst cs = .ok (some "metric", rest)) (hd : d.metric = none)
    (h : readFields isFirst d cs = .ok (d', r)) :
    ∃ k r', readField readMetric rest = .ok (k, r') := by
  cases hfield : readField readMetric rest with
  | ok p => exact ⟨p.1, p.2, rfl⟩
  | error e =>
      rw [readFields] at h
      split at h <;> simp_all

theorem exists_names_of_parse_objectText {l : String} {c : Config} (hn : n ≤ wordLimit)
    (hl : Literal l.toList s) (h : parse (objectText n l) = .ok c) : ∃ k, Names s k := by
  have hdimension (cs : List Char) :
      nextKey true ('"' :: "dimension".toList ++ '"' :: cs) = .ok (some "dimension", cs) :=
    nextKey_plain (.first .nil) (by decide) cs
  have hmetric : nextKey false ([','] ++ ('"' :: "metric".toList ++ '"' :: _)) = _ :=
    nextKey_plain (.later .nil .nil) (by decide) (':' :: (l.toList ++ ['\x7d']))
  obtain ⟨rest, hread, -⟩ := document_eq_ok_iff.1 h
  rw [toList_objectText, read, skipBlank_cons (by decide)] at hread
  obtain ⟨r, hobject, -⟩ := enclosed_eq_ok_iff.1 hread
  obtain ⟨⟨d, r⟩, hfields, -⟩ := Except.bind_eq_ok_iff.1 hobject
  rw [readFields_dimension (hdimension _) rfl (readField_dimension hn _)] at hfields
  obtain ⟨k, r', hfield⟩ := exists_readField_of_metric hmetric rfl hfields
  rw [readField_colon, Except.mapError_eq_ok_iff, readMetric_literal hl] at hfield
  exact ⟨k, hfield.1⟩

theorem ofJson_objectText {l : String} (hl : Literal l.toList s) (hpos : 1 ≤ n)
    (hn : n ≤ wordLimit) {c : Config} :
    ofJson (objectText n l) = .ok c ↔ ∃ k, Names s k ∧ c = ⟨n, k⟩ := by
  have hread {k : Metric.Kind} (hk : Names s k) : ofJson (objectText n l) = .ok ⟨n, k⟩ :=
    ofJson_eq_ok_iff.2 ⟨denotes_objectText hn (.name hl hk), hpos⟩
  constructor
  · intro h
    have hparse := parse_eq_ok_iff.2 (ofJson_eq_ok_iff.1 h).1
    obtain ⟨k, hk⟩ := exists_names_of_parse_objectText hn hl hparse
    exact ⟨k, hk, Except.ok.inj (h.symm.trans (hread hk))⟩
  · rintro ⟨k, hk, rfl⟩
    exact hread hk

end Config

namespace Metric.Kind

variable {s : String} {k : Kind}

theorem ofJson_eq_ok_iff_names {text : String} {t : List Char} (ht : text.toList = t)
    (h : ∀ k rest, readMetric t = .ok (k, rest) ↔ Names s k ∧ rest = []) :
    ofJson text = .ok k ↔ Names s k := by
  simp only [Kind.ofJson, document_eq_ok_iff, ht, h]
  constructor
  · rintro ⟨rest, ⟨hk, -⟩, -⟩
    exact hk
  · intro hk
    exact ⟨[], ⟨hk, rfl⟩, .nil⟩

theorem ofJson_literal {l : String} (hl : Literal l.toList s) :
    ofJson l = .ok k ↔ Names s k := by
  refine ofJson_eq_ok_iff_names (t := l.toList ++ []) (List.append_nil _).symm ?_
  intro k rest
  exact readMetric_literal hl

theorem ofJson_tagged {l : String} (hl : Literal l.toList s) :
    ofJson ("\x7b" ++ l ++ ":null\x7d") = .ok k ↔ Names s k := by
  refine ofJson_eq_ok_iff_names (t := '\x7b' :: (l.toList ++ (":null\x7d".toList ++ []))) ?_ ?_
  · simp
  · intro k rest
    exact readTagged_eq_ok_iff_names hl

theorem literal_toJson (k : Kind) : Literal k.toJson.toList k.name := by
  rw [k.toJson_eq_quoted_name, String.toList_append, String.toList_append]
  exact literal_name k

/-- A name by itself, in quotes however they are spelled, as the only key of an object, and as the
metric of a configuration is read as the same metric or nowhere. A metric prints as one name. -/
theorem readings_agree (s : String) :
    (∀ l : String, Literal l.toList s →
      (∀ k, ofJson l = .ok k ↔ parse s = .ok k) ∧
      (∀ k, ofJson ("\x7b" ++ l ++ ":null\x7d") = .ok k ↔ parse s = .ok k) ∧
      ∀ n, 1 ≤ n → n ≤ wordLimit → ∀ c,
        Config.ofJson (objectText n l) = .ok c ↔ ∃ k, parse s = .ok k ∧ c = ⟨n, k⟩) ∧
    (∀ k, parse s = .ok k →
      toString k = k.name ∧ Literal k.toJson.toList k.name ∧ ofJson k.toJson = .ok k ∧
        parse k.name = .ok k ∧
        (s = k.name ∨ s = "l2" ∧ k = .euclidean ∨ s = "l1" ∧ k = .manhattan)) ∧
    ∀ e, parse s = .error e → e = .invalidMetric s := by
  refine ⟨fun l hl => ⟨?_, ?_, ?_⟩, ?_, fun e => parse_eq_error⟩
  · intro k
    rw [ofJson_literal hl, parse_eq_ok_iff]
  · intro k
    rw [ofJson_tagged hl, parse_eq_ok_iff]
  · intro n hpos hn c
    simp only [ofJson_objectText hl hpos hn, parse_eq_ok_iff]
  · intro k hk
    have hprinted := (ofJson_literal (literal_toJson k)).2 (.name k)
    refine ⟨rfl, literal_toJson k, hprinted, parse_name k, ?_⟩
    cases parse_eq_ok_iff.1 hk with
    | name => exact .inl rfl
    | l2 => exact .inr (.inl ⟨rfl, rfl⟩)
    | l1 => exact .inr (.inr ⟨rfl, rfl⟩)

theorem readings_agree_of_escape :
    Literal "\"\\u006c2\"".toList "l2" ∧ ofJson "\"\\u006c2\"" = .ok .euclidean ∧
      ofJson "\x7b\"\\u006c2\":null\x7d" = .ok .euclidean ∧ 1 ≤ 3 ∧ 3 ≤ wordLimit ∧
      Config.ofJson (objectText 3 "\"\\u006c2\"") = .ok ⟨3, .euclidean⟩ := by
  have hunit : CodeUnit ['0', '0', '6', 'c'] 0x6c :=
    .mk (.decimal (by decide)) (.decimal (by decide)) (.decimal (by decide)) (.lower (by decide))
  have hspelled : Spells _ "l2".toList :=
    .cons (.unit hunit (by decide)) (.cons (.plain (by decide) (by decide) (by decide)) .nil)
  have hl : Literal "\"\\u006c2\"".toList "l2" := .mk hspelled
  obtain ⟨hquoted, htagged, hfield⟩ := (readings_agree "l2").1 _ hl
  exact ⟨hl, (hquoted _).2 rfl, (htagged _).2 rfl, by decide, by decide,
    (hfield 3 (by decide) (by decide) _).2 ⟨_, rfl, rfl⟩⟩

end Metric.Kind

end Vicinity
