import Keel.Syntax.ParseError
import Keel.Token.Stream

/-! Reading from a token stream, one token at a time. -/

namespace Keel

/-- A reading stops at an error, or when its bound on the depth of recursion is used up. -/
inductive Halt where
  | error (e : ParseError)
  | exhausted
  deriving DecidableEq, Repr

abbrev Reader := EStateM Halt TokenStream

namespace Reader

def exhausted {α : Type} : Reader α := throw .exhausted

def head : Reader Token := return (← get).head

def finished : Reader Bool := return (← get).finished

def look (offset : Int) : Reader Token := return (← get).look offset

def next : Reader Token := do
  let t ← head
  modify .next
  return t

def fail {α : Type} (cause : ParseCause) : Reader α := do
  throw (.error ⟨cause, ← head⟩)

def punctuation (symbol : String) (code : ParseCode := .unexpectedToken) : Reader Token := do
  if (← head).is (.punctuation symbol) then next
  else fail (.expected (.symbol symbol) code)

def tokenOf (name : String) (code : ParseCode := .unexpectedToken) : Reader Token := do
  if (← head).kind.className = name then next
  else fail (.expected (.className name) code)

def identifier (code : ParseCode := .unexpectedToken) : Reader String := do
  match (← head).kind with
  | .identifier name => do
    let _ ← next
    return name
  | _ => fail (.expected (.className "identifier") code)

def stringLiteral : Reader String := do
  match (← head).kind with
  | .string value => do
    let _ ← next
    return value
  | _ => fail (.expected (.className "string") .unexpectedToken)

def valueType : Reader ValueType := do
  match (← head).kind with
  | .identifier _ => fail .unknownType
  | .typeKeyword name =>
    match ValueType.ofKeyword? name with
    | some type => do
      let _ ← next
      return type
    | none => fail .unknownType
  | _ => fail (.expected .type .unexpectedToken)

end Reader

end Keel
