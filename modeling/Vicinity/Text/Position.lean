namespace Vicinity.Text

def utf8Size (cs : List Char) : Nat := cs.foldr (fun c n => c.utf8Size + n) 0

/-- A place in a text: lines count from one, columns are bytes since the last line feed. -/
structure Position where
  line : Nat
  column : Nat
  deriving DecidableEq, Repr

namespace Position

def advance (p : Position) : Nat → List Char → Position
  | _, [] => p
  | bytes, c :: cs =>
    if bytes = 0 then p
    else if c = '\n' then advance ⟨p.line + 1, 0⟩ (bytes - 1) cs
    else advance ⟨p.line, p.column + min bytes c.utf8Size⟩ (bytes - c.utf8Size) cs

def start : Position := ⟨1, 0⟩

end Position

end Vicinity.Text
