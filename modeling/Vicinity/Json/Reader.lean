import Vicinity.Json.Cause
import Vicinity.Text.Position

namespace Vicinity.Json

open Text

/-- A cause and the number of bytes from its place to the end of the text. -/
structure Failure where
  cause : Cause
  unread : Nat
  deriving DecidableEq

abbrev Read (α : Type) := Except Failure (α × List Char)

def failHere {α : Type} (cause : Cause) (rest : List Char) : Except Failure α :=
  .error ⟨cause, utf8Size rest⟩

def failNext {α : Type} (cause : Cause) (rest : List Char) : Except Failure α :=
  .error ⟨cause, utf8Size rest - 1⟩

def isBlank (c : Char) : Bool := c == ' ' || c == '\n' || c == '\t' || c == '\r'

def skipBlank (cs : List Char) : List Char := cs.dropWhile isBlank

structure Error where
  cause : Cause
  position : Position
  deriving DecidableEq

def Error.message (e : Error) : String :=
  e.cause.message ++ " at line " ++ e.position.line.repr ++ " column " ++ e.position.column.repr

def Failure.inText (f : Failure) (cs : List Char) : Error :=
  ⟨f.cause, Position.start.advance (utf8Size cs - f.unread) cs⟩

def endOfText (cs : List Char) : Except Failure Unit :=
  match skipBlank cs with
  | [] => .ok ()
  | rest => failNext .trailingCharacters rest

def document {α : Type} (read : List Char → Read α) (text : String) : Except Error α :=
  let value : Except Failure α := do
    let (a, rest) ← read text.toList
    endOfText rest
    return a
  value.mapError (·.inText text.toList)

end Vicinity.Json
