import Keel.Text.Unit

/-! Places in a source text. -/

namespace Keel

/-- Line and column count from one, the offset from zero, all in 16-bit units. -/
structure Position where
  line : Nat
  column : Nat
  offset : Nat
  deriving DecidableEq, Repr, Inhabited

namespace Position

def start : Position := ⟨1, 1, 0⟩

def advance (p : Position) (c : Char) : Position :=
  if c = '\n' then ⟨p.line + 1, 1, p.offset + 1⟩
  else ⟨p.line, p.column + Text.width c, p.offset + Text.width c⟩

def advanceAll (p : Position) (cs : List Char) : Position :=
  cs.foldl advance p

def toText (p : Position) : String :=
  toString p.line ++ ":" ++ toString p.column

end Position

end Keel
