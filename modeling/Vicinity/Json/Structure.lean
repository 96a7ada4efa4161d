import Vicinity.Json.StringLiteral

namespace Vicinity.Json

def key : List Char → Read (Option String)
  | '"' :: rest => (stringBody rest).map fun (s, rest) => (some s, rest)
  | cs => failNext .keyNotString cs

/-- The next key of an object, or none before the closing brace, which is not read. -/
def nextKey (isFirst : Bool) (cs : List Char) : Read (Option String) :=
  match skipBlank cs with
  | [] => failNext .eofInObject []
  | '\x7d' :: rest => .ok (none, '\x7d' :: rest)
  | c :: rest =>
    if isFirst then key (c :: rest)
    else if c ≠ ',' then failNext .expectedObjectEnd (c :: rest)
    else match skipBlank rest with
      | [] => failNext .eofInValue []
      | '\x7d' :: rest => failNext .trailingComma ('\x7d' :: rest)
      | cs => key cs

def colon (cs : List Char) : Except Failure (List Char) :=
  match skipBlank cs with
  | [] => failNext .eofInObject []
  | ':' :: rest => .ok rest
  | cs => failNext .expectedColon cs

def nextItem (isFirst : Bool) (cs : List Char) : Read Bool :=
  match skipBlank cs with
  | [] => failNext .eofInList []
  | ']' :: rest => .ok (false, ']' :: rest)
  | c :: rest =>
    if isFirst then .ok (true, c :: rest)
    else if c ≠ ',' then failNext .expectedListEnd (c :: rest)
    else match skipBlank rest with
      | [] => failNext .eofInValue []
      | ']' :: rest => failNext .trailingComma (']' :: rest)
      | cs => .ok (true, cs)

structure Closing where
  rest : List Char
  failure : Option Failure

def Closing.fail (cause : Cause) (rest : List Char) : Closing :=
  ⟨rest, some ⟨cause, Text.utf8Size rest - 1⟩⟩

def closeObject (cs : List Char) : Closing :=
  match skipBlank cs with
  | [] => .fail .eofInObject []
  | '\x7d' :: rest => ⟨rest, none⟩
  | ',' :: rest => .fail .trailingComma (',' :: rest)
  | cs => .fail .trailingCharacters cs

def closeList (cs : List Char) : Closing :=
  match skipBlank cs with
  | [] => .fail .eofInList []
  | ']' :: rest => ⟨rest, none⟩
  | ',' :: rest =>
    match skipBlank rest with
    | ']' :: rest => .fail .trailingComma (']' :: rest)
    | cs => .fail .trailingCharacters cs
  | cs => .fail .trailingCharacters cs

/-- How reading the inside of an object or a list fails: at a place of its own, or by its content
as a whole, which is reported where closing it ends up. -/
inductive Interruption
  | failed (failure : Failure)
  | rejected (cause : Cause) (rest : List Char)

/-- The inside and its closing together. The failure of the inside comes first. -/
def enclosed {α : Type} (close : List Char → Closing)
    (inside : Except Interruption (α × List Char)) : Read α :=
  match inside with
  | .error (.failed e) => .error e
  | .error (.rejected cause rest) => failHere cause (close rest).rest
  | .ok (a, rest) =>
    match close rest with
    | ⟨rest, none⟩ => .ok (a, rest)
    | ⟨_, some e⟩ => .error e

end Vicinity.Json
