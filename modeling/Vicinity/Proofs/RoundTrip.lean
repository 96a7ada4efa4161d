import Mathlib.Data.List.Basic
import Vicinity.Config.Printer
import Vicinity.Proofs.ConfigText

namespace Vicinity

namespace Json

def isPlain (c : Char) : Bool := c ≠ '"' ∧ c ≠ '\\' ∧ 0x20 ≤ c.toNat

theorem Spells.plain {s : List Char} (h : s.all isPlain = true) : Spells s s := by
  induction s with
  | nil => exact .nil
  | cons c s ih =>
      rw [List.all_cons, Bool.and_eq_true] at h
      obtain ⟨hquote, hescape, hcontrol⟩ := of_decide_eq_true h.1
      exact .cons (.plain hquote hescape hcontrol) (ih h.2)

theorem Literal.plain {s : String} (h : s.toList.all isPlain = true) :
    Literal ('"' :: s.toList ++ ['"']) s :=
  .mk (.plain h)

theorem toDigits_eq_zero_of_head (n : Nat) (h : (Nat.toDigits 10 n).head? = some '0') :
    Nat.toDigits 10 n = ['0'] := by
  induction n using Nat.strongRecOn with
  | ind n ih =>
      by_cases hn : n < 10
      · rw [Nat.toDigits_of_lt_base hn] at h ⊢
        rw [Option.some.inj h]
      · have hsplit := Nat.toDigits_of_base_le (b := 10) (by decide) (Nat.not_lt.1 hn)
        rw [hsplit, List.head?_append_of_ne_nil _ Nat.toDigits_ne_nil] at h
        -- The digits before the last would be a single zero, but the number has two digits.
        have hvalue := Nat.ofDigitChars_ten_toDigits (n := n / 10)
        rw [ih (n / 10) (by omega) h] at hvalue
        have hzero : n / 10 = 0 := hvalue.symm
        omega

theorem numeral_toDigits {n : Nat} (h : n ≤ wordLimit) : Numeral (Nat.toDigits 10 n) n where
  ne_nil := Nat.toDigits_ne_nil
  isDigit _ hc := Nat.isDigit_of_mem_toDigits (by decide) (by decide) hc
  eq_zero_of_head := toDigits_eq_zero_of_head n
  value := Nat.ofDigitChars_ten_toDigits
  le_limit := h

end Json

namespace Metric.Kind

theorem tag_eq_name (k : Kind) : k.tag = k.name := by cases k <;> rfl

theorem toJson_eq_quoted_name (k : Kind) : k.toJson = "\"" ++ k.name ++ "\"" := by
  rw [toJson, tag_eq_name]

end Metric.Kind

namespace Config

open Json

variable {c c' : Config} {text : String}

theorem literal_name (k : Metric.Kind) : Literal ('"' :: k.name.toList ++ ['"']) k.name :=
  .plain (by cases k <;> decide)

def objectText (n : Nat) (l : String) : String :=
  "\x7b\"dimension\":" ++ n.repr ++ ",\"metric\":" ++ l ++ "\x7d"

theorem toJson_eq (c : Config) :
    c.toJson = "\x7b\"dimension\":" ++ c.dimension.repr ++ ",\"metric\":" ++
      ("\"" ++ c.metric.name ++ "\"") ++ "\x7d" :=
  congrArg (objectText c.dimension) c.metric.toJson_eq_quoted_name

theorem toList_objectText (n : Nat) (l : String) :
    (objectText n l).toList = '\x7b' :: ('"' :: "dimension".toList ++ '"' :: ':' ::
      (Nat.toDigits 10 n ++ ([','] ++ ('"' :: "metric".toList ++ '"' :: ':' ::
        (l.toList ++ ['\x7d']))))) := by
  -- Its equation lemma would take seconds to make.
  delta objectText
  simp only [String.toList_append, Nat.toList_repr, List.append_assoc]
  rfl

theorem denotes_objectText {n : Nat} {k : Metric.Kind} {l : String} (hn : n ≤ wordLimit)
    (hk : MetricText l.toList k) : Denotes (objectText n l).toList ⟨n, k⟩ := by
  have hdimension : MemberText _ (.dimension n) :=
    .dimension (.plain (s := "dimension") (by decide)) .nil .nil (numeral_toDigits hn)
  have hmetric : MemberText _ (.metric k) :=
    .metric (.plain (s := "metric") (by decide)) .nil .nil hk
  have hmembers : Members true _ [.dimension n, .metric k] :=
    .cons (.first .nil) hdimension (.cons (.later .nil .nil) hmetric (.nil .nil))
  have hgives : Gives [.dimension n, .metric k] ⟨n, k⟩ := ⟨rfl, .inl rfl⟩
  have htext := Denotes.mk .nil (.object hmembers hgives) .nil
  convert htext using 1
  rw [toList_objectText]
  simp only [List.nil_append, List.append_nil, List.append_assoc, List.cons_append]

theorem denotes_toJson (h : c.dimension ≤ wordLimit) : Denotes c.toJson.toList c := by
  refine denotes_objectText (l := c.metric.toJson) h (.name ?_ (.name _))
  rw [c.metric.toJson_eq_quoted_name, String.toList_append, String.toList_append]
  exact literal_name c.metric

theorem Members.dimension_le {isFirst : Bool} {t : List Char} {ms : List Member} {n : Nat}
    (h : Members isFirst t ms) (hn : n ∈ ms.filterMap Member.dimension?) : n ≤ wordLimit := by
  induction h with
  | nil => cases hn
  | cons _ hm _ ih =>
      cases hm with
      | metric => exact ih hn
      | dimension _ _ _ hv =>
          rcases List.mem_cons.1 hn with rfl | hn
          · exact hv.le_limit
          · exact ih hn

theorem Denotes.dimension_le {cs : List Char} (h : Denotes cs c) : c.dimension ≤ wordLimit := by
  obtain ⟨-, h, -⟩ := h
  cases h with
  | object hms hc => exact hms.dimension_le (hc.dimension ▸ List.mem_singleton_self _)
  | list h =>
      cases h with
      | single _ hn | pair _ hn => exact hn.le_limit

theorem parse_toJson (h : c.dimension ≤ wordLimit) : parse c.toJson = .ok c :=
  parse_eq_ok_iff.2 (denotes_toJson h)

theorem ofJson_toJson (h : c.dimension ≤ wordLimit) :
    ofJson c.toJson = if c.dimension = 0 then .error .invalidDimension else .ok c :=
  ofJson_of_denotes (denotes_toJson h)

theorem ofJson_toJson_of_accepted (h : ofJson text = .ok c) : ofJson c.toJson = .ok c := by
  obtain ⟨hd, hpos⟩ := ofJson_eq_ok_iff.1 h
  rw [ofJson_toJson hd.dimension_le, if_neg (by omega)]

theorem toJson_inj (h : c.dimension ≤ wordLimit) (h' : c'.dimension ≤ wordLimit) :
    c.toJson = c'.toJson ↔ c = c' := by
  refine ⟨fun he => ?_, congrArg toJson⟩
  have hd := denotes_toJson h
  rw [he] at hd
  exact hd.unique (denotes_toJson h')

def normalize (text : String) : Except Error String := (ofJson text).map toJson

theorem normalize_eq_ok_iff {t : String} :
    normalize text = .ok t ↔ ∃ c, ofJson text = .ok c ∧ c.toJson = t :=
  Except.map_eq_ok_iff

/-- Printing and reading undo each other, and reading forgets only how a text was written. -/
theorem toJson_roundtrip :
    (∀ c : Config, c.dimension ≤ wordLimit →
      parse c.toJson = .ok c ∧
        ofJson c.toJson = if c.dimension = 0 then .error .invalidDimension else .ok c) ∧
    (∀ text t, normalize text = .ok t →
      (∃ c, ofJson text = .ok c ∧ t = "\x7b\"dimension\":" ++ c.dimension.repr ++
        ",\"metric\":\"" ++ c.metric.name ++ "\"\x7d") ∧
      ofJson t = ofJson text ∧ normalize t = .ok t) ∧
    ∀ text text' t t', normalize text = .ok t → normalize text' = .ok t' →
      (t = t' ↔ ∃ c, Denotes text.toList c ∧ Denotes text'.toList c) := by
  refine ⟨fun c h => ⟨parse_toJson h, ofJson_toJson h⟩, ?_, ?_⟩
  · intro text t ht
    obtain ⟨c, hc, rfl⟩ := normalize_eq_ok_iff.1 ht
    have hagain := ofJson_toJson_of_accepted hc
    refine ⟨⟨c, hc, ?_⟩, hagain.trans hc.symm, normalize_eq_ok_iff.2 ⟨c, hagain, rfl⟩⟩
    have hopen : ",\"metric\":\"" = ",\"metric\":" ++ "\"" := rfl
    have hclose : "\"\x7d" = "\"" ++ "\x7d" := rfl
    simp only [toJson_eq, hopen, hclose, String.append_assoc]
  · intro text text' t t' ht ht'
    obtain ⟨c, hc, rfl⟩ := normalize_eq_ok_iff.1 ht
    obtain ⟨c', hc', rfl⟩ := normalize_eq_ok_iff.1 ht'
    obtain ⟨hd, -⟩ := ofJson_eq_ok_iff.1 hc
    obtain ⟨hd', -⟩ := ofJson_eq_ok_iff.1 hc'
    rw [toJson_inj hd.dimension_le hd'.dimension_le]
    constructor
    · rintro rfl
      exact ⟨c, hd, hd'⟩
    · rintro ⟨e, he, he'⟩
      exact (hd.unique he).trans (he'.unique hd')

theorem toJson_roundtrip_of_alias :
    ofJson (toJson ⟨0, .cosine⟩) = .error .invalidDimension ∧
      ofJson (toJson ⟨3, .manhattan⟩) = ofJson "[3,\"l1\"]" ∧
      ∃ c, Denotes "[3,\"l1\"]".toList c ∧ Denotes (toJson ⟨3, .manhattan⟩).toList c := by
  obtain ⟨hprinted, hnormal, hsame⟩ := toJson_roundtrip
  have hmetric : MetricText "\"l1\"".toList .manhattan :=
    .name (.plain (s := "l1") (by decide)) .l1
  have hnumeral : Numeral ['3'] 3 := numeral_toDigits (n := 3) (by decide)
  have hd : Denotes "[3,\"l1\"]".toList ⟨3, .manhattan⟩ :=
    .mk .nil (.list (.pair .nil hnumeral .nil .nil hmetric .nil)) .nil
  have halias : normalize "[3,\"l1\"]" = .ok (toJson ⟨3, .manhattan⟩) :=
    normalize_eq_ok_iff.2 ⟨_, ofJson_eq_ok_iff.2 ⟨hd, by decide⟩, rfl⟩
  obtain ⟨-, hsecond, hagain⟩ := hnormal _ _ halias
  exact ⟨(hprinted ⟨0, .cosine⟩ (by decide)).2, hsecond, (hsame _ _ _ _ halias hagain).1 rfl⟩

end Config

end Vicinity
