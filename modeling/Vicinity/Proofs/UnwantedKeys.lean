import Mathlib.Data.List.Nodup
import Vicinity.Proofs.RoundTrip

namespace Vicinity

open Json

variable {cs rest l s t u : List Char} {isFirst : Bool} {key : String}

theorem Json.Lead.numberEnd (hl : Lead false l) : NumberEnd (l ++ cs) := by
  cases hl with
  | later hu =>
      rw [List.append_assoc]
      exact .of_blank hu (.cons (by decide))

theorem Json.Lead.append_blank (hl : Lead isFirst l) (hu : Blank u) : Lead isFirst (u ++ l) := by
  cases hl with
  | first hv => exact .first (hu.append hv)
  | later hv hw =>
      rw [← List.append_assoc]
      exact .later (hu.append hv) hw

theorem Json.message_duplicateField (key : String) :
    (Cause.duplicateField key).message = "duplicate field `" ++ key ++ "`" := by
  change "duplicate field " ++ ("`" ++ key ++ "`") = _
  rw [← String.append_assoc, ← String.append_assoc]
  rfl

theorem Json.message_unknownField (key : String) :
    (Cause.unknownField key ["dimension", "metric"]).message =
      "unknown field `" ++ key ++ "`, expected `dimension` or `metric`" := by
  change "unknown field " ++ ("`" ++ key ++ "`") ++ ", expected " ++ "`dimension` or `metric`" = _
  rw [← String.append_assoc, ← String.append_assoc, String.append_assoc, String.append_assoc]
  rfl

namespace Config

variable {ms : List Member} {d d' : Draft} {cause : Cause}

def Member.name : Member → String
  | .dimension _ => "dimension"
  | .metric _ => "metric"

section Drafts

variable {α : Type} {field : String} {f : Member → Option α} {x : Option α}

theorem isSome_dimension? (m : Member) : m.dimension?.isSome = (m.name == "dimension") := by
  cases m <;> rfl

theorem isSome_metric? (m : Member) : m.metric?.isSome = (m.name == "metric") := by
  cases m <;> rfl

theorem length_filterMap_eq_count (hf : ∀ m, (f m).isSome = (m.name == field)) (ms : List Member) :
    (ms.filterMap f).length = (ms.map Member.name).count field := by
  rw [List.length_filterMap_eq_countP, List.count, List.countP_map]
  exact List.countP_congr fun m _ => by rw [hf, Function.comp]

theorem toList_head?_filterMap (hf : ∀ m, (f m).isSome = (m.name == field))
    (h : (ms.map Member.name).Nodup) : (ms.filterMap f).head?.toList = ms.filterMap f := by
  have hcount := List.nodup_iff_count_le_one.1 h field
  rw [← length_filterMap_eq_count hf] at hcount
  match ms.filterMap f, hcount with
  | [], _ | [_], _ => rfl

theorem exists_fills (h : (ms.map Member.name).Nodup) : ∃ d, Fills {} ms d :=
  ⟨⟨(ms.filterMap Member.dimension?).head?, (ms.filterMap Member.metric?).head?⟩,
    (toList_head?_filterMap isSome_dimension? h).symm, (toList_head?_filterMap isSome_metric? h).symm⟩

theorem isSome_of_mem (hf : ∀ m, (f m).isSome = (m.name == field)) (hx : ms.filterMap f = x.toList)
    (h : field ∈ ms.map Member.name) : x.isSome = true := by
  rw [← List.count_pos_iff, ← length_filterMap_eq_count hf, hx] at h
  cases x with
  | none => cases h
  | some => rfl

/-- A key that cannot be taken any more: it has come before, or is the name of no field. -/
inductive Draft.Refuses (d : Draft) : String → Cause → Prop
  | dimension (h : d.dimension.isSome = true) :
      Refuses d "dimension" (.duplicateField "dimension")
  | metric (h : d.metric.isSome = true) : Refuses d "metric" (.duplicateField "metric")
  | unknown {key : String} (hdimension : key ≠ "dimension") (hmetric : key ≠ "metric") :
      Refuses d key (.unknownField key ["dimension", "metric"])

theorem Fills.refuses_of_mem (hd : Fills {} ms d) (h : key ∈ ms.map Member.name) :
    d.Refuses key (.duplicateField key) := by
  obtain ⟨m, hm, rfl⟩ := List.mem_map.1 h
  cases m with
  | dimension => exact .dimension (isSome_of_mem isSome_dimension? hd.dimension h)
  | metric => exact .metric (isSome_of_mem isSome_metric? hd.metric h)

end Drafts

section Reading

theorem readFields_refused (hkey : nextKey isFirst cs = .ok (some key, rest))
    (h : d.Refuses key cause) : readFields isFirst d cs = .error (.rejected cause rest) := by
  rw [readFields]
  cases h <;> split <;> simp_all

theorem Members.numberEnd_append (h : Members false t ms) (hcs : NumberEnd cs) :
    NumberEnd (t ++ cs) := by
  cases h with
  | nil hu => exact .of_blank hu hcs
  | cons hu =>
      rw [List.append_assoc, List.append_assoc]
      exact hu.numberEnd

theorem readFields_members_refused (ht : Members isFirst t ms) (hd : Fills d ms d')
    (hl : Lead (isFirst && ms.isEmpty) l) (hs : Literal s key) (h : d'.Refuses key cause) :
    readFields isFirst d (t ++ (l ++ s ++ rest)) = .error (.rejected cause rest) := by
  induction ht generalizing d with
  | nil hu =>
      rw [List.isEmpty_nil, Bool.and_true] at hl
      rw [fills_nil_iff.1 hd]
      refine readFields_refused (nextKey_eq_ok_some_iff.2 ⟨_, s, hl.append_blank hu, hs, ?_⟩) h
      simp only [List.append_assoc]
  | @cons isFirst t u w m ms hu hm hms ih =>
      rw [List.isEmpty_cons, Bool.and_false] at hl
      have hend : NumberEnd (w ++ (l ++ s ++ rest)) := by
        refine hms.numberEnd_append ?_
        rw [List.append_assoc]
        exact hl.numberEnd
      cases hm with
      | @dimension t b v n _ ht hb hv hn =>
          obtain ⟨hnone, hd⟩ := fills_dimension_cons_iff.1 hd
          rw [← ih hd hl]
          refine readFields_dimension (nextKey_eq_ok_some_iff.2 ⟨u, t, hu, ht, ?_⟩) hnone
            (readField_eq_ok_iff.2 ⟨b, _, hb, rfl, readSize_eq_ok_iff.2 ⟨v, _, hv, hn, hend, rfl⟩⟩)
          simp
      | @metric t b v w' k ht hb hv hk =>
          obtain ⟨hnone, hd⟩ := fills_metric_cons_iff.1 hd
          rw [← ih hd hl]
          refine readFields_metric (nextKey_eq_ok_some_iff.2 ⟨u, t, hu, ht, ?_⟩) hnone
            (readField_eq_ok_iff.2 ⟨b, _, hb, rfl, readMetric_eq_ok_iff.2 ⟨v, _, hv, hk, rfl⟩⟩)
          simp

theorem read_refused (hu : Blank u) (ht : Members true t ms) (hd : Fills {} ms d)
    (hl : Lead ms.isEmpty l) (hs : Literal s key) (h : d.Refuses key cause) :
    read (u ++ '\x7b' :: t ++ l ++ s ++ rest) = failHere cause (closeObject rest).rest := by
  have hfields : readFields true {} (t ++ (l ++ s ++ rest)) = .error (.rejected cause rest) :=
    readFields_members_refused ht hd hl hs h
  have htext : u ++ '\x7b' :: t ++ l ++ s ++ rest = u ++ '\x7b' :: (t ++ (l ++ s ++ rest)) := by
    simp
  rw [htext, read, skipBlank_append hu, skipBlank_cons (by decide)]
  simp only [readObject, hfields]
  rfl

def Refused (text message : String) (place : Text.Position) : Prop :=
  ∃ e : Json.Error, ofJson text = .error (.invalidConfig e) ∧ e.position = place ∧
    e.message = message ++ " at line " ++ place.line.repr ++ " column " ++ place.column.repr

/-- The place at which a text is left when a key is the last thing read before this rest of it:
behind the blanks there and, if it comes next, the closing brace. -/
def placeBehind (text : String) (rest : List Char) : Text.Position :=
  .advance .start (Text.utf8Size text.toList - Text.utf8Size (closeObject rest).rest) text.toList

theorem refused_of_refuses {text : String} (hu : Blank u) (ht : Members true t ms)
    (hd : Fills {} ms d) (hl : Lead ms.isEmpty l) (hs : Literal s key)
    (htext : text.toList = u ++ '\x7b' :: t ++ l ++ s ++ rest) (h : d.Refuses key cause) :
    Refused text cause.message (placeBehind text rest) := by
  have hread : read text.toList = failHere cause (closeObject rest).rest := by
    rw [htext]
    exact read_refused hu ht hd hl hs h
  refine ⟨⟨cause, placeBehind text rest⟩, ?_, rfl, rfl⟩
  rw [ofJson, parse, document, hread]
  rfl

/-- A key that has come before, or is no field's name, is reported whatever follows it. -/
theorem ofJson_unwanted_key {text : String} (hu : Blank u) (ht : Members true t ms)
    (hms : (ms.map Member.name).Nodup) (hl : Lead ms.isEmpty l) (hs : Literal s key)
    (htext : text.toList = u ++ '\x7b' :: t ++ l ++ s ++ rest) :
    (key ∈ ms.map Member.name →
        Refused text ("duplicate field `" ++ key ++ "`") (placeBehind text rest)) ∧
      (key ∉ ["dimension", "metric"] →
        Refused text ("unknown field `" ++ key ++ "`, expected `dimension` or `metric`")
          (placeBehind text rest)) := by
  obtain ⟨d, hd⟩ := exists_fills hms
  constructor
  · intro hmem
    rw [← message_duplicateField]
    exact refused_of_refuses hu ht hd hl hs htext (hd.refuses_of_mem hmem)
  · intro hmem
    simp only [List.mem_cons, List.not_mem_nil, or_false, not_or] at hmem
    rw [← message_unknownField]
    exact refused_of_refuses hu ht hd hl hs htext (.unknown hmem.1 hmem.2)

/-- A metric is given twice, the second time with a letter escaped and behind a dimension of zero.
The other key is all there is in its object. -/
theorem ofJson_unwanted_key_of_escape :
    (Blank [' '] ∧
      Members true "\"metric\":\"l1\", \"dimension\":0\n".toList [.metric .manhattan, .dimension 0] ∧
      ([.metric .manhattan, .dimension 0].map Member.name).Nodup ∧ Lead false [','] ∧
      Literal "\"m\\u0065tric\"".toList "metric" ∧
      Refused " \x7b\"metric\":\"l1\", \"dimension\":0\n,\"m\\u0065tric\" \x7d]"
        "duplicate field `metric`" ⟨2, 16⟩) ∧
    (Members true [] [] ∧ Lead true [] ∧ Literal "\"shards\"".toList "shards" ∧
      Refused "\x7b\"shards\"" "unknown field `shards`, expected `dimension` or `metric`" ⟨1, 9⟩) := by
  have hmetric : MemberText "\"metric\":\"l1\"".toList (.metric .manhattan) :=
    .metric (.plain (s := "metric") (by decide)) .nil .nil
      (.name (.plain (s := "l1") (by decide)) .l1)
  have hdimension : MemberText "\"dimension\":0".toList (.dimension 0) :=
    .dimension (.plain (s := "dimension") (by decide)) .nil .nil
      (numeral_toDigits (n := 0) (by decide))
  have hspace : Blank [' '] := by simp [Blank]
  have hfeed : Blank ['\n'] := by simp [Blank]
  have hmembers : Members true "\"metric\":\"l1\", \"dimension\":0\n".toList
      [.metric .manhattan, .dimension 0] :=
    .cons (.first .nil) hmetric (.cons (.later .nil hspace) hdimension (.nil hfeed))
  have hnames : ([.metric .manhattan, .dimension 0].map Member.name).Nodup := by decide
  have hlead : Lead false [','] := .later .nil .nil
  have hunit : CodeUnit ['0', '0', '6', '5'] 0x65 :=
    .mk (.decimal (by decide)) (.decimal (by decide)) (.decimal (by decide)) (.decimal (by decide))
  have hspelled : Spells _ "metric".toList :=
    .cons (.plain (by decide) (by decide) (by decide)) (.cons (.unit hunit (by decide))
      (.plain (by decide)))
  have hkey : Literal "\"m\\u0065tric\"".toList "metric" := .mk hspelled
  have hother : Literal "\"shards\"".toList "shards" := .plain (s := "shards") (by decide)
  have htwice : " \x7b\"metric\":\"l1\", \"dimension\":0\n,\"m\\u0065tric\" \x7d]".toList =
      [' '] ++ '\x7b' :: "\"metric\":\"l1\", \"dimension\":0\n".toList ++ [','] ++
        "\"m\\u0065tric\"".toList ++ " \x7d]".toList := rfl
  have halone : "\x7b\"shards\"".toList = [] ++ '\x7b' :: [] ++ [] ++ "\"shards\"".toList ++ [] := rfl
  exact ⟨⟨hspace, hmembers, hnames, hlead, hkey,
      (ofJson_unwanted_key hspace hmembers hnames hlead hkey htwice).1 (by decide)⟩,
    .nil .nil, .first .nil, hother,
    (ofJson_unwanted_key .nil (.nil .nil) .nil (.first .nil) hother halone).2 (by decide)⟩

end Reading

end Config

end Vicinity
