import Keel.Floating.Arithmetic
import Keel.Syntax

/-! Binding powers of operators; the higher one binds tighter. -/

namespace Keel

structure Precedences where
  entries : List (String × Double)
  deriving Repr

namespace Precedences

def ofInts (entries : List (String × Int)) : Precedences :=
  ⟨entries.map fun (op, n) => (op, .ofInt n)⟩

def standard : Precedences :=
  ofInts
    [("=", 2), ("<", 10), (">", 10), ("<=", 10), (">=", 10), ("==", 10), ("!=", 10),
      ("+", 20), ("-", 20), ("*", 40), ("/", 40)]

def find? (t : Precedences) (op : String) : Option Double := t.entries.lookup op

/-- The power of a lexeme that is in the table and neither zero nor negative. -/
def binding? (t : Precedences) (lexeme : String) : Option Double :=
  (t.find? lexeme).filter fun power => !power.le (.zero false)

def power (t : Precedences) (lexeme : String) : Double := (t.binding? lexeme).getD (.ofInt (-1))

def level (t : Precedences) (op : String) : Double := (t.find? op).getD (.zero false)

def greater (x y : Double) : Double := if y = .nan ∨ x.lt y then y else x

def ceiling (t : Precedences) : Double :=
  (comparisonSymbols.map t.level).foldl greater (.zero false)

def above (x : Double) : Double := x.add (.ofInt 1)

end Precedences

end Keel
