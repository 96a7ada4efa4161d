import Mathlib.Data.List.TakeWhile
import Vicinity.Json.Mismatch
import Vicinity.Json.Structure
import Vicinity.Proofs.Except
import Vicinity.Proofs.Grammar

namespace Vicinity.Json

variable {cs rest u : List Char} {c : Char}

section Blanks

theorem isBlank_iff : isBlank c = true ↔ c ∈ [' ', '\n', '\t', '\r'] := by
  simp [isBlank, or_assoc]

theorem Blank.nil : Blank [] := by simp [Blank]

theorem Blank.append {v : List Char} (hu : Blank u) (hv : Blank v) : Blank (u ++ v) :=
  List.forall_mem_append.2 ⟨hu, hv⟩

theorem skipBlank_append (hu : Blank u) (cs : List Char) : skipBlank (u ++ cs) = skipBlank cs := by
  rw [skipBlank, List.dropWhile_append_of_pos fun c hc => isBlank_iff.2 (hu c hc), skipBlank]

theorem skipBlank_cons (hc : isBlank c = false) (cs : List Char) : skipBlank (c :: cs) = c :: cs :=
  List.dropWhile_cons_of_neg (by rw [hc]; exact Bool.false_ne_true)

theorem isBlank_of_skipBlank_eq_cons (h : skipBlank cs = c :: rest) : isBlank c = false := by
  have hc := List.head?_dropWhile_not isBlank cs
  rwa [show cs.dropWhile isBlank = c :: rest from h, List.head?_cons] at hc

theorem exists_blank_append (cs : List Char) : ∃ u, Blank u ∧ cs = u ++ skipBlank cs :=
  ⟨cs.takeWhile isBlank, fun _ hc => isBlank_iff.1 (List.mem_takeWhile_imp hc),
    List.takeWhile_append_dropWhile.symm⟩

theorem skipBlank_eq_cons_iff (hc : isBlank c = false) :
    skipBlank cs = c :: rest ↔ ∃ u, Blank u ∧ cs = u ++ c :: rest := by
  constructor
  · intro h
    obtain ⟨u, hu, he⟩ := exists_blank_append cs
    exact ⟨u, hu, h ▸ he⟩
  · rintro ⟨u, hu, rfl⟩
    rw [skipBlank_append hu, skipBlank_cons hc]

theorem skipBlank_eq_nil_iff : skipBlank cs = [] ↔ Blank cs := by
  constructor
  · intro h
    obtain ⟨u, hu, he⟩ := exists_blank_append cs
    rwa [he, h, List.append_nil]
  · intro h
    have hall := skipBlank_append h []
    rwa [List.append_nil] at hall

theorem colon_eq_ok_iff : colon cs = .ok rest ↔ ∃ u, Blank u ∧ cs = u ++ ':' :: rest := by
  rw [← skipBlank_eq_cons_iff (by decide), colon]
  split <;> simp_all [failNext]

end Blanks

section Strings

theorem hexDigit?_eq_some_iff {n : Nat} : hexDigit? c = some n ↔ HexDigit c n := by
  have hle (a b : Char) : a ≤ b ↔ a.toNat ≤ b.toNat := Iff.rfl
  simp only [hexDigit?, Bool.and_eq_true, decide_eq_true_eq]
  constructor
  · intro h
    split_ifs at h with hd hu hl
    · obtain rfl := Option.some.inj h
      exact .decimal hd
    · obtain rfl := Option.some.inj h
      exact .upper hu
    · obtain rfl := Option.some.inj h
      exact .lower hl
  · rintro (h | h | h) <;> simp only [hle, Char.reduceToNat] at h
    · rw [if_pos h]
      rfl
    · rw [if_neg (by omega), if_pos h]
      rfl
    · rw [if_neg (by omega), if_neg (by omega), if_pos h]
      rfl

theorem CodeUnit.length_eq {t : List Char} {n : Nat} (h : CodeUnit t n) : t.length = 4 := by
  cases h
  rfl

theorem quad?_eq_some_iff {n : Nat} :
    quad? cs = some (n, rest) ↔ ∃ t, CodeUnit t n ∧ cs = t ++ rest := by
  constructor
  · intro h
    unfold quad? at h
    split at h
    · simp only [bind, Option.bind_eq_some_iff, pure, Option.some.injEq, Prod.mk.injEq] at h
      obtain ⟨w, hw, x, hx, y, hy, z, hz, rfl, rfl⟩ := h
      simp only [hexDigit?_eq_some_iff] at hw hx hy hz
      refine ⟨[_, _, _, _], ?_, rfl⟩
      convert CodeUnit.mk hw hx hy hz using 1
      omega
    · cases h
  · rintro ⟨_, ⟨hw, hx, hy, hz⟩, rfl⟩
    rw [← hexDigit?_eq_some_iff] at hw hx hy hz
    simp only [List.cons_append, List.nil_append, quad?, hw, hx, hy, hz]
    simp
    omega

theorem length_le_utf8Size (cs : List Char) : cs.length ≤ Text.utf8Size cs := by
  induction cs with
  | nil => exact le_rfl
  | cons c cs ih =>
      have hc := c.utf8Size_pos
      rw [List.length_cons, Text.utf8Size, List.foldr_cons]
      rw [Text.utf8Size] at ih
      omega

theorem hexQuad_eq_ok_iff {n : Nat} :
    hexQuad cs = .ok (n, rest) ↔ ∃ t, CodeUnit t n ∧ cs = t ++ rest := by
  rw [← quad?_eq_some_iff, hexQuad]
  constructor
  · intro h
    split_ifs at h
    split at h
    · next hq =>
        cases h
        exact hq
    · cases h
  · intro h
    -- Bytes are counted before digits are looked at, and no character is shorter than a byte.
    have hlen : 4 ≤ Text.utf8Size cs := by
      obtain ⟨t, ht, rfl⟩ := quad?_eq_some_iff.1 h
      have hsize := length_le_utf8Size (t ++ rest)
      rw [List.length_append, ht.length_eq] at hsize
      omega
    rw [if_neg (by omega), h]

theorem pairChar_eq_ok_iff {wanted : Char} :
    pairChar wanted cs = .ok rest ↔ cs = wanted :: rest := by
  cases cs with
  | nil => simp [pairChar, failHere]
  | cons c cs =>
      rw [pairChar]
      split_ifs with h <;> simp [h, failNext]

theorem isTrailing_iff {n : Nat} : isTrailing n = true ↔ 0xdc00 ≤ n ∧ n < 0xe000 := by
  simp [isTrailing]

theorem isLeading_iff {n : Nat} : isLeading n = true ↔ 0xd800 ≤ n ∧ n < 0xdc00 := by
  simp [isLeading]

theorem pairRest_eq_ok_iff {m : Nat} :
    pairRest m cs = .ok (c, rest) ↔ ∃ u n, CodeUnit u n ∧ (0xdc00 ≤ n ∧ n < 0xe000) ∧
      supplementary m n = c ∧ cs = '\\' :: 'u' :: u ++ rest := by
  simp only [pairRest, Except.bind_eq_ok_iff, pairChar_eq_ok_iff, Prod.exists, hexQuad_eq_ok_iff]
  constructor
  · rintro ⟨_, rfl, _, rfl, n, _, ⟨u, hu, rfl⟩, h⟩
    split_ifs at h with hn
    · obtain ⟨hc, rfl⟩ := Prod.mk.inj (Except.ok.inj h)
      exact ⟨u, n, hu, isTrailing_iff.1 hn, hc, rfl⟩
    · cases h
  · rintro ⟨u, n, hu, hn, rfl, rfl⟩
    exact ⟨_, rfl, _, rfl, n, rest, ⟨u, hu, rfl⟩, if_pos (isTrailing_iff.2 hn)⟩

theorem escaped?_eq_some_iff {d : Char} : escaped? c = some d ↔ (c, d) ∈ shortEscapes := by
  unfold escaped?
  split <;> simp_all [shortEscapes, eq_comm]

theorem Spelling.unicode_cases {t : List Char} (h : Spelling ('\\' :: 'u' :: t) c) :
    (∃ n, CodeUnit t n ∧ (n < 0xd800 ∨ 0xe000 ≤ n) ∧ Char.ofNat n = c) ∨
      ∃ s u m n, CodeUnit s m ∧ (0xd800 ≤ m ∧ m < 0xdc00) ∧ CodeUnit u n ∧
        (0xdc00 ≤ n ∧ n < 0xe000) ∧ supplementary m n = c ∧ t = s ++ '\\' :: 'u' :: u := by
  generalize ht : '\\' :: 'u' :: t = text at h
  cases h with
  | plain => cases ht
  | short h =>
      cases ht
      exact absurd h (by simp [shortEscapes])
  | unit h hn =>
      cases ht
      exact .inl ⟨_, h, hn, rfl⟩
  | pair hs hm hu hn =>
      cases ht
      exact .inr ⟨_, _, _, _, hs, hm, hu, hn, rfl, rfl⟩

theorem codeUnits_eq_ok_iff :
    codeUnits cs = .ok (c, rest) ↔ ∃ t, Spelling ('\\' :: 'u' :: t) c ∧ cs = t ++ rest := by
  simp only [codeUnits, Except.bind_eq_ok_iff, Prod.exists, hexQuad_eq_ok_iff]
  constructor
  · rintro ⟨m, _, ⟨t, ht, rfl⟩, h⟩
    split_ifs at h with htrailing hleading
    · cases h
    · obtain ⟨u, n, hu, hn, rfl, rfl⟩ := pairRest_eq_ok_iff.1 h
      exact ⟨t ++ '\\' :: 'u' :: u, .pair ht (isLeading_iff.1 hleading) hu hn, by simp⟩
    · cases h
      rw [isTrailing_iff] at htrailing
      rw [isLeading_iff] at hleading
      exact ⟨t, .unit ht (by omega), rfl⟩
  · rintro ⟨t, h, rfl⟩
    -- A code unit by itself and the first half of a pair are told apart by their ranges.
    rcases h.unicode_cases with ⟨n, ht, hn, rfl⟩ | ⟨s, u, m, n, hs, hm, hu, hn, rfl, rfl⟩
    · refine ⟨n, rest, ⟨t, ht, rfl⟩, ?_⟩
      rw [if_neg (by rw [isTrailing_iff]; omega), if_neg (by rw [isLeading_iff]; omega)]
    · refine ⟨m, '\\' :: 'u' :: u ++ rest, ⟨s, hs, by simp⟩, ?_⟩
      rw [if_neg (by rw [isTrailing_iff]; omega), if_pos (isLeading_iff.2 hm)]
      exact pairRest_eq_ok_iff.2 ⟨u, n, hu, hn, rfl, rfl⟩

theorem Spelling.escape_cases {t : List Char} (h : Spelling ('\\' :: t) c) :
    (∃ d, (d, c) ∈ shortEscapes ∧ t = [d]) ∨ ∃ u, t = 'u' :: u := by
  generalize ht : '\\' :: t = text at h
  cases h with
  | plain _ hescape =>
      cases ht
      exact absurd rfl hescape
  | short h =>
      cases ht
      exact .inl ⟨_, h, rfl⟩
  | unit | pair =>
      cases ht
      exact .inr ⟨_, rfl⟩

theorem escape_eq_ok_iff :
    escape cs = .ok (c, rest) ↔ ∃ t, Spelling ('\\' :: t) c ∧ cs = t ++ rest := by
  constructor
  · intro h
    cases cs with
    | nil => cases h
    | cons d cs =>
        rw [escape] at h
        split_ifs at h with hu
        · obtain ⟨t, ht, rfl⟩ := codeUnits_eq_ok_iff.1 h
          exact ⟨'u' :: t, ht, by rw [hu]; rfl⟩
        · split at h
          · next he =>
              cases h
              exact ⟨[d], .short (escaped?_eq_some_iff.1 he), rfl⟩
          · cases h
  · rintro ⟨t, h, rfl⟩
    rcases h.escape_cases with ⟨d, hd, rfl⟩ | ⟨u, rfl⟩
    · have hu : d ≠ 'u' := by
        rintro rfl
        simp [shortEscapes] at hd
      rw [List.singleton_append, escape, if_neg hu, escaped?_eq_some_iff.2 hd]
    · exact codeUnits_eq_ok_iff.2 ⟨u, h, rfl⟩

theorem Spelling.cons_cases {t : List Char} (h : Spelling t c) :
    (c ≠ '"' ∧ c ≠ '\\' ∧ 0x20 ≤ c.toNat ∧ t = [c]) ∨ ∃ u, t = '\\' :: u := by
  cases h with
  | plain hquote hescape hcontrol => exact .inl ⟨hquote, hescape, hcontrol, rfl⟩
  | short | unit | pair => exact .inr ⟨_, rfl⟩

theorem piece_eq_ok_none_iff : piece cs = .ok (none, rest) ↔ cs = '"' :: rest := by
  cases cs with
  | nil => simp [piece, failHere]
  | cons c cs =>
      rw [piece]
      split_ifs with hquote hescape <;> simp [hquote, failHere]

theorem piece_eq_ok_some_iff :
    piece cs = .ok (some c, rest) ↔ ∃ t, Spelling t c ∧ cs = t ++ rest := by
  constructor
  · intro h
    cases cs with
    | nil => cases h
    | cons d cs =>
        rw [piece] at h
        split_ifs at h with hquote hescape hcontrol
        · cases h
        · obtain ⟨⟨e, _⟩, he, hc⟩ := Except.map_eq_ok_iff.1 h
          cases hc
          obtain ⟨t, ht, rfl⟩ := escape_eq_ok_iff.1 he
          exact ⟨'\\' :: t, ht, by rw [hescape]; rfl⟩
        · cases h
        · cases h
          exact ⟨[c], .plain hquote hescape (by omega), rfl⟩
  · rintro ⟨t, h, rfl⟩
    rcases h.cons_cases with ⟨hquote, hescape, hcontrol, rfl⟩ | ⟨u, rfl⟩
    · rw [List.singleton_append, piece, if_neg hquote, if_neg hescape, if_neg (by omega)]
    · rw [List.cons_append, piece, if_neg (by decide), if_pos rfl,
        escape_eq_ok_iff.2 ⟨u, h, rfl⟩]
      rfl

theorem stringChars_of_closed (h : piece cs = .ok (none, rest)) :
    stringChars cs = .ok ([], rest) := by
  rw [stringChars]
  split <;> simp_all

theorem stringChars_of_char (h : piece cs = .ok (some c, rest)) :
    stringChars cs = (stringChars rest).map fun (s, rest) => (c :: s, rest) := by
  rw [stringChars]
  split <;> simp_all

theorem stringChars_eq_ok_iff {s : List Char} :
    stringChars cs = .ok (s, rest) ↔ ∃ t, Spells t s ∧ cs = t ++ '"' :: rest := by
  constructor
  · intro h
    fun_induction stringChars cs generalizing s with
    | case1 => cases h
    | case2 cs _ hp =>
        cases h
        exact ⟨[], .nil, piece_eq_ok_none_iff.1 hp⟩
    | case3 cs c _ hp ih =>
        obtain ⟨⟨s, _⟩, hs, he⟩ := Except.map_eq_ok_iff.1 h
        cases he
        obtain ⟨t, ht, rfl⟩ := piece_eq_ok_some_iff.1 hp
        obtain ⟨u, hu, rfl⟩ := ih hs
        exact ⟨t ++ u, .cons ht hu, by simp⟩
  · rintro ⟨t, h, rfl⟩
    induction h with
    | nil => exact stringChars_of_closed (piece_eq_ok_none_iff.2 rfl)
    | cons ht _ ih =>
        rw [stringChars_of_char (piece_eq_ok_some_iff.2 ⟨_, ht, List.append_assoc ..⟩), ih]
        rfl

theorem stringBody_eq_ok_iff {s : String} :
    stringBody cs = .ok (s, rest) ↔ ∃ t, Literal t s ∧ '"' :: cs = t ++ rest := by
  rw [stringBody, Except.map_eq_ok_iff]
  constructor
  · rintro ⟨⟨s, _⟩, hs, he⟩
    cases he
    obtain ⟨t, ht, rfl⟩ := stringChars_eq_ok_iff.1 hs
    exact ⟨_, .mk (by rwa [String.toList_ofList]), by simp⟩
  · rintro ⟨_, ⟨ht⟩, he⟩
    refine ⟨(s.toList, rest), stringChars_eq_ok_iff.2 ⟨_, ht, ?_⟩, by simp⟩
    simpa using he

end Strings

section Numbers

open Number

/-- No number goes on like this. -/
structure NumberEnd (cs : List Char) : Prop where
  digit : startsWithDigit cs = false
  point : cs.head? ≠ some '.'
  exponent : ∀ c ∈ cs.head?, ¬(c = 'e' ∨ c = 'E')

theorem NumberEnd.cons (h : c.isDigit = false ∧ c ≠ '.' ∧ c ≠ 'e' ∧ c ≠ 'E') :
    NumberEnd (c :: cs) where
  digit := h.1
  point := fun hc => h.2.1 (Option.some.inj hc)
  exponent := by
    rintro _ ⟨⟩
    exact not_or.2 h.2.2

theorem NumberEnd.of_blank (hu : Blank u) (h : NumberEnd cs) : NumberEnd (u ++ cs) := by
  cases u with
  | nil => exact h
  | cons c u =>
      have hc := hu c List.mem_cons_self
      simp only [List.mem_cons, List.not_mem_nil, or_false] at hc
      rcases hc with rfl | rfl | rfl | rfl <;> exact .cons (by decide)

theorem Digits.eq_cons {t : List Char} (h : Digits t) : ∃ c u, t = c :: u ∧ c.isDigit = true := by
  obtain ⟨c, u, rfl⟩ := List.exists_cons_of_ne_nil h.ne_nil
  exact ⟨c, u, rfl, h.isDigit c List.mem_cons_self⟩

theorem startsWithDigit_dropWhile (cs : List Char) :
    startsWithDigit (cs.dropWhile Char.isDigit) = false := by
  have h := List.head?_dropWhile_not Char.isDigit cs
  rw [startsWithDigit]
  split at h
  · next hc => rw [hc, Option.any_some, h]
  · next hc => rw [hc, Option.any_none]

theorem takeWhile_isDigit_append {w : List Char} (hw : ∀ c ∈ w, c.isDigit = true)
    (hrest : startsWithDigit rest = false) : (w ++ rest).takeWhile Char.isDigit = w := by
  rw [List.takeWhile_append_of_pos hw]
  cases rest with
  | nil => exact List.append_nil w
  | cons c rest =>
      rw [startsWithDigit, List.head?_cons, Option.any_some] at hrest
      rw [List.takeWhile_cons_of_neg (ne_true_of_eq_false hrest), List.append_nil]

theorem dropWhile_isDigit_append {w : List Char} (hw : ∀ c ∈ w, c.isDigit = true)
    (hrest : startsWithDigit rest = false) : (w ++ rest).dropWhile Char.isDigit = rest := by
  rw [List.dropWhile_append_of_pos hw]
  cases rest with
  | nil => rfl
  | cons c rest => exact List.dropWhile_cons_of_neg (ne_true_of_eq_false hrest)

theorem wholeDigits_eq_ok_iff {w : List Char} :
    wholeDigits cs = .ok (w, rest) ↔
      Digits w ∧ startsWithDigit rest = false ∧ cs = w ++ rest := by
  constructor
  · intro h
    cases cs with
    | nil => cases h
    | cons c cs =>
        rw [wholeDigits] at h
        split_ifs at h with hdigit hzero hmore
        · cases h
        · cases h
        · cases h
          rw [Bool.not_eq_true] at hmore
          exact ⟨⟨nofun, by simp [hzero], fun _ => by rw [hzero]⟩, hmore, rfl⟩
        · cases h
          rw [Bool.not_eq_true, Bool.not_eq_false'] at hdigit
          refine ⟨⟨?_, fun _ hc => List.mem_takeWhile_imp hc, ?_⟩, startsWithDigit_dropWhile _,
            List.takeWhile_append_dropWhile.symm⟩
          · rw [List.takeWhile_cons_of_pos hdigit]
            nofun
          · rw [List.takeWhile_cons_of_pos hdigit, List.head?_cons]
            exact fun hc => absurd (Option.some.inj hc) hzero
  · rintro ⟨hw, hrest, rfl⟩
    cases w with
    | nil => exact absurd rfl hw.ne_nil
    | cons c w =>
        have hdigit := hw.isDigit c List.mem_cons_self
        rw [List.cons_append, wholeDigits, if_neg (by simp [hdigit])]
        by_cases hzero : c = '0'
        · have hw := hw.eq_zero_of_head (by rw [hzero, List.head?_cons])
          rw [if_pos hzero, (List.cons.inj hw).2, List.nil_append,
            if_neg (ne_true_of_eq_false hrest)]
        · rw [if_neg hzero, ← List.cons_append, takeWhile_isDigit_append hw.isDigit hrest,
            dropWhile_isDigit_append hw.isDigit hrest]

theorem fractionDigits_eq_ok_nil_iff :
    fractionDigits cs = .ok ([], rest) ↔ cs = rest ∧ cs.head? ≠ some '.' := by
  cases cs with
  | nil => simp [fractionDigits]
  | cons c cs =>
      rw [fractionDigits]
      split_ifs with hpoint hdigit hend
      · simp [hpoint]
      · cases cs with
        | nil => cases hdigit
        | cons d cs =>
            rw [startsWithDigit, List.head?_cons, Option.any_some] at hdigit
            simp [List.takeWhile_cons_of_pos hdigit, not_not.1 hpoint]
      · simp [failNext, not_not.1 hpoint]
      · simp [failNext, not_not.1 hpoint]

theorem exponentPart_eq_ok_none_iff {isZero : Bool} :
    exponentPart isZero cs = .ok (none, rest) ↔
      cs = rest ∧ ∀ c ∈ cs.head?, ¬(c = 'e' ∨ c = 'E') := by
  cases cs with
  | nil => simp [exponentPart]
  | cons c cs =>
      rw [exponentPart]
      split_ifs with h
      · refine iff_of_false ?_ fun ⟨_, hc⟩ => hc c rfl h
        simp [Except.map_eq_ok_iff]
      · refine ⟨fun he => ⟨?_, ?_⟩, fun he => by rw [he.1]⟩
        · exact congrArg Prod.snd (Except.ok.inj he)
        · rintro _ ⟨⟩
          exact h

theorem le_ofDigitChars (w : List Char) (n : Nat) : n ≤ Nat.ofDigitChars 10 w n := by
  induction w generalizing n with
  | nil => exact le_rfl
  | cons c w ih =>
      rw [Nat.ofDigitChars_cons]
      exact le_trans (by omega) (ih _)

/-- All digits of a number are used exactly when it stays within the limit. -/
theorem appendDigits_eq_iff {w : List Char} {m n : Nat} (hm : m ≤ significandLimit) :
    appendDigits m w = (n, []) ↔ Nat.ofDigitChars 10 w m = n ∧ n ≤ significandLimit := by
  induction w generalizing m with
  | nil =>
      simp only [appendDigits, Nat.ofDigitChars_nil, Prod.mk.injEq, and_true]
      exact ⟨fun h => ⟨h, h ▸ hm⟩, And.left⟩
  | cons c w ih =>
      have hnext : m * 10 + digitValue c = 10 * m + (c.toNat - '0'.toNat) := by
        rw [digitValue, Nat.mul_comm]
      rw [appendDigits, Nat.ofDigitChars_cons, ← hnext]
      split_ifs with hle
      · exact ih hle
      · -- More digits only make a number greater, so none is lost that would fit again.
        refine iff_of_false nofun fun ⟨hn, hlimit⟩ => hle ?_
        exact le_trans (le_ofDigitChars w _) (hn.trans_le hlimit)

theorem significand_nil_eq_iff {w : List Char} {n : Nat} :
    significand w [] = (n, 0) ↔ Nat.ofDigitChars 10 w 0 = n ∧ n ≤ significandLimit := by
  rw [← appendDigits_eq_iff (Nat.zero_le _), significand]
  simp [appendDigits, Prod.ext_iff]

theorem realLiteral_ne_natural {negative : Bool} {digits n : Nat} {e : Int} :
    realLiteral negative digits e cs ≠ .ok (.natural n, rest) := by
  rw [realLiteral]
  split_ifs <;> simp [failHere]

theorem integerLiteral_eq_ok_natural_iff {negative : Bool} {digits n : Nat} :
    integerLiteral negative digits cs = .ok (.natural n, rest) ↔
      negative = false ∧ digits = n ∧ cs = rest := by
  rw [integerLiteral]
  split_ifs with hsign hfits
  · simpa using fun _ _ => hsign
  · simp_all
  · simp_all [realLiteral_ne_natural]

theorem unsignedLiteral_eq_ok_natural_iff {negative : Bool} {n : Nat} :
    unsignedLiteral negative cs = .ok (.natural n, rest) ↔
      negative = false ∧ ∃ t, Numeral t n ∧ NumberEnd rest ∧ cs = t ++ rest := by
  simp only [unsignedLiteral, Except.bind_eq_ok_iff, Prod.exists, wholeDigits_eq_ok_iff]
  constructor
  · rintro ⟨w, _, ⟨hw, hend, rfl⟩, f, r, hf, e, r', he, h⟩
    split_ifs at h with hplain
    · obtain ⟨hsign, rfl, rfl⟩ := integerLiteral_eq_ok_natural_iff.1 h
      simp only [Bool.and_eq_true, List.isEmpty_iff, Option.isNone_iff_eq_none, beq_iff_eq]
        at hplain
      obtain ⟨⟨rfl, rfl⟩, hpower⟩ := hplain
      obtain ⟨rfl, hpoint⟩ := fractionDigits_eq_ok_nil_iff.1 hf
      obtain ⟨rfl, hexponent⟩ := exponentPart_eq_ok_none_iff.1 he
      obtain ⟨hvalue, hlimit⟩ := significand_nil_eq_iff.1 (Prod.ext rfl hpower)
      exact ⟨hsign, w, ⟨hw, hvalue, hlimit⟩, ⟨hend, hpoint, hexponent⟩, rfl⟩
    · exact absurd h realLiteral_ne_natural
  · rintro ⟨rfl, t, ht, hend, rfl⟩
    have hs := significand_nil_eq_iff.2 ⟨ht.value, ht.le_limit⟩
    refine ⟨t, rest, ⟨ht.toDigits, hend.digit, rfl⟩, [], rest,
      fractionDigits_eq_ok_nil_iff.2 ⟨rfl, hend.point⟩, none, rest,
      exponentPart_eq_ok_none_iff.2 ⟨rfl, hend.exponent⟩, ?_⟩
    rw [hs]
    rfl

theorem numberLiteral_eq_ok_natural_iff {n : Nat} :
    numberLiteral cs = .ok (.natural n, rest) ↔
      ∃ t, Numeral t n ∧ NumberEnd rest ∧ cs = t ++ rest := by
  unfold numberLiteral
  split
  · next cs =>
      rw [unsignedLiteral_eq_ok_natural_iff]
      refine iff_of_false nofun ?_
      rintro ⟨t, ht, -, he⟩
      obtain ⟨c, t, rfl, hc⟩ := ht.eq_cons
      obtain ⟨rfl, -⟩ := List.cons.inj he
      exact absurd hc (by decide)
  · rw [unsignedLiteral_eq_ok_natural_iff]
    exact and_iff_right rfl

end Numbers

end Vicinity.Json
