import Vicinity.Json.Reader

namespace Vicinity.Json

open Text

def hexDigit? (c : Char) : Option Nat :=
  let n := c.toNat
  if 0x30 ≤ n && n ≤ 0x39 then some (n - 0x30)
  else if 0x41 ≤ n && n ≤ 0x46 then some (n - 0x41 + 10)
  else if 0x61 ≤ n && n ≤ 0x66 then some (n - 0x61 + 10)
  else none

def quad? : List Char → Option (Nat × List Char)
  | a :: b :: c :: d :: rest => do
    let a ← hexDigit? a
    let b ← hexDigit? b
    let c ← hexDigit? c
    let d ← hexDigit? d
    return (((a * 16 + b) * 16 + c) * 16 + d, rest)
  | _ => none

/-- Four bytes are taken before they are looked at. -/
def hexQuad (cs : List Char) : Read Nat :=
  if utf8Size cs < 4 then .error ⟨.eofInString, 0⟩
  else match quad? cs with
    | some quad => .ok quad
    | none => .error ⟨.invalidEscape, utf8Size cs - 4⟩

def isLeading (n : Nat) : Bool := 0xd800 ≤ n && n < 0xdc00
def isTrailing (n : Nat) : Bool := 0xdc00 ≤ n && n < 0xe000

def supplementary (leading trailing : Nat) : Char :=
  Char.ofNat (0x10000 + (leading - 0xd800) * 0x400 + (trailing - 0xdc00))

def pairChar (wanted : Char) : List Char → Except Failure (List Char)
  | [] => failHere .eofInString []
  | c :: rest => if c = wanted then .ok rest else failNext .unfinishedSurrogate (c :: rest)

def pairRest (leading : Nat) (cs : List Char) : Except Failure (Char × List Char) := do
  let rest ← pairChar '\\' cs
  let rest ← pairChar 'u' rest
  let (n, rest) ← hexQuad rest
  if isTrailing n then .ok (supplementary leading n, rest) else failHere .loneSurrogate rest

def codeUnits (cs : List Char) : Except Failure (Char × List Char) := do
  let (n, rest) ← hexQuad cs
  if isTrailing n then failHere .loneSurrogate rest
  else if isLeading n then pairRest n rest
  else .ok (Char.ofNat n, rest)

def escaped? (c : Char) : Option Char :=
  match c with
  | '"' => some '"'
  | '\\' => some '\\'
  | '/' => some '/'
  | 'b' => some '\x08'
  | 'f' => some '\x0c'
  | 'n' => some '\n'
  | 'r' => some '\r'
  | 't' => some '\t'
  | _ => none

def escape : List Char → Read Char
  | [] => failHere .eofInString []
  | c :: rest =>
    if c = 'u' then codeUnits rest
    else match escaped? c with
      | some e => .ok (e, rest)
      | none => failNext .invalidEscape (c :: rest)

/-- The closing quote is `none`. -/
def piece : List Char → Read (Option Char)
  | [] => failHere .eofInString []
  | c :: rest =>
    if c = '"' then .ok (none, rest)
    else if c = '\\' then (escape rest).map fun (e, rest) => (some e, rest)
    else if c.toNat < 0x20 then failHere .controlCharacter rest
    else .ok (some c, rest)

theorem hexQuad_length {cs rest : List Char} {n : Nat} (h : hexQuad cs = .ok (n, rest)) :
    rest.length < cs.length := by
  unfold hexQuad at h
  split at h
  · cases h
  · split at h
    · rename_i q hq
      cases h
      unfold quad? at hq
      split at hq
      · simp only [bind, Option.bind_eq_some_iff, pure, Option.some.injEq, Prod.mk.injEq] at hq
        obtain ⟨_, _, _, _, _, _, _, _, _, rfl⟩ := hq
        simp only [List.length_cons]
        omega
      · cases hq
    · cases h

theorem pairChar_length {w : Char} {cs rest : List Char} (h : pairChar w cs = .ok rest) :
    rest.length < cs.length := by
  cases cs with
  | nil => cases h
  | cons c cs => grind [pairChar, failNext]

theorem pairRest_length {n : Nat} {cs rest : List Char} {c : Char}
    (h : pairRest n cs = .ok (c, rest)) : rest.length < cs.length := by
  simp only [pairRest, bind, Except.bind] at h
  grind [→ hexQuad_length, → pairChar_length, failHere]

theorem codeUnits_length {cs rest : List Char} {c : Char} (h : codeUnits cs = .ok (c, rest)) :
    rest.length < cs.length := by
  simp only [codeUnits, bind, Except.bind] at h
  grind [→ hexQuad_length, → pairRest_length, failHere]

theorem escape_length {cs rest : List Char} {c : Char} (h : escape cs = .ok (c, rest)) :
    rest.length < cs.length := by
  cases cs with
  | nil => cases h
  | cons d cs => grind [escape, → codeUnits_length, failNext]

theorem piece_length {cs rest : List Char} {c : Option Char} (h : piece cs = .ok (c, rest)) :
    rest.length < cs.length := by
  cases cs with
  | nil => cases h
  | cons d cs => cases he : escape cs <;> grind [piece, Except.map, → escape_length, failHere]

def stringChars (cs : List Char) : Read (List Char) :=
  match _h : piece cs with
  | .error e => .error e
  | .ok (none, rest) => .ok ([], rest)
  | .ok (some c, rest) => (stringChars rest).map fun (s, rest) => (c :: s, rest)
termination_by cs.length
decreasing_by exact piece_length _h

/-- The string whose opening quote has been read. -/
def stringBody (cs : List Char) : Read String :=
  (stringChars cs).map fun (s, rest) => (String.ofList s, rest)

end Vicinity.Json
