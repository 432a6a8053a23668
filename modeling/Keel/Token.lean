import Keel.Floating.Format
import Keel.Position
import Keel.ValueType

/-! Tokens: what a lexeme stands for, how it is spelt and where it begins. -/

namespace Keel

inductive TokenKind where
  | int (value : Double)
  | float (value : Double)
  | bool (value : Bool)
  | string (value : String)
  | identifier (name : String)
  | typeKeyword (name : String)
  | keyword (name : String)
  | punctuation (symbol : String)
  | operator (symbol : String)
  | endOfInput
  deriving DecidableEq, Repr, Inhabited

structure Token where
  kind : TokenKind
  lexeme : String
  position : Position
  deriving DecidableEq, Repr, Inhabited

namespace TokenKind

def className : TokenKind → String
  | int _ => "int"
  | float _ => "float"
  | bool _ => "bool"
  | string _ => "string"
  | identifier _ => "identifier"
  | typeKeyword _ => "type-keyword"
  | keyword _ => "keyword"
  | punctuation _ => "punctuation"
  | operator _ => "operator"
  | endOfInput => "eof"

def literalType? : TokenKind → Option ValueType
  | float _ => some .double
  | bool _ => some .bool
  | _ => none

end TokenKind

namespace Token

def endOfInput (position : Position) : Token := ⟨.endOfInput, "", position⟩

def is (t : Token) (kind : TokenKind) : Bool := t.kind == kind

def shown (t : Token) : String :=
  if t.is .endOfInput then "end of input" else "'" ++ t.lexeme ++ "'"

end Token

end Keel
