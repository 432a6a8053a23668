import Keel.Token

/-! Why a list of tokens is no program. -/

namespace Keel

inductive ParseCode where
  | unexpectedToken | unknownType | malformedPrototype | malformedIf
  deriving DecidableEq, Repr

inductive Expectation where
  | symbol (text : String)
  | className (name : String)
  | type
  | comparison
  deriving DecidableEq, Repr

inductive ParseCause where
  | expected (what : Expectation) (code : ParseCode)
  | unknownInExpression
  | unknownType
  deriving DecidableEq, Repr

structure ParseError where
  cause : ParseCause
  token : Token
  deriving DecidableEq, Repr

def Expectation.text : Expectation → String
  | symbol text => "'" ++ text ++ "'"
  | className name => name
  | type => "a type"
  | comparison => "a comparison operator"

def ParseCause.code : ParseCause → ParseCode
  | expected _ code => code
  | unknownInExpression => .unexpectedToken
  | unknownType => .unknownType

namespace ParseError

def code (e : ParseError) : ParseCode := e.cause.code

def detail (e : ParseError) : String :=
  match e.cause with
  | .expected what _ => "Expected " ++ what.text ++ ", got " ++ e.token.shown
  | .unknownInExpression => "Unknown token in expression: " ++ e.token.shown
  | .unknownType => "Unknown type " ++ e.token.shown

end ParseError

end Keel
