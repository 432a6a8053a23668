import Keel.Floating.Arithmetic
import Keel.Floating.Decimal
import Keel.Syntax
import Keel.Text.Json
import Keel.Token

/-! Tokens and programs for a reader of the intermediate stages. -/

namespace Keel.Dump

open Text (Json)

def natural (n : Nat) : Json := .number (toString n)

def position (p : Position) : Json :=
  .object [("line", natural p.line), ("column", natural p.column), ("offset", natural p.offset)]

def number (x : Double) : Json :=
  if !x.isFinite then .null
  else if x.eq (.zero false) then .number "0"
  else .number x.toText

def kindValue? : TokenKind → Option Json
  | .int value | .float value => some (number value)
  | .bool value => some (.bool value)
  | .string value | .identifier value | .typeKeyword value | .keyword value | .punctuation value
  | .operator value => some (.string value)
  | .endOfInput => none

def token (t : Token) : Json :=
  .object (("type", .string t.kind.className) :: ((kindValue? t.kind).map ("value", ·)).toList ++
    [("lexeme", .string t.lexeme), ("position", position t.position)])

def tokens (ts : List Token) : Json := .array (ts.map token)

def node (type : String) (fields : List (String × Json)) (place : Position) : Json :=
  .object (("type", .string type) :: fields ++ [("position", position place)])

def valueType (t : ValueType) : Json := .string t.keyword

def strings (texts : List String) : Json := .array (texts.map .string)

def types (ts : List ValueType) : Json := .array (ts.map valueType)

def prototype (p : Prototype) : Json :=
  node "prototype"
    [("name", .string p.name), ("argNames", strings p.parameterNames),
      ("argTypes", types p.parameterTypes), ("returnType", valueType p.result)] p.position

def call (callee : String) (args : List Json) (place : Position) : Json :=
  node "call" [("callee", .string callee), ("args", .array args)] place

mutual

def expression : Expr → Json
  | .number place value type => node "number" [("value", number value), ("varType", valueType type)] place
  | .reference place name => node "variable" [("name", .string name)] place
  | .binary place op lhs rhs =>
    node "binary" [("op", .string op), ("lhs", expression lhs), ("rhs", expression rhs)] place
  | .call place callee args => call callee (expressions args) place
  | .cast place target value =>
    node "type-cast" [("value", expression value), ("target", valueType target)] place
  | .assign place name value => node "assignment" [("name", .string name), ("value", expression value)] place
  | .string place value => node "string" [("value", .string value)] place
  | .conditional place cs separators body =>
    node "if" [("conditions", .array (conditions cs)), ("separators", strings separators),
      ("body", .array (statements body))] place
  | .importFile place path => node "import" [("path", .string path)] place

def expressions : List Expr → List Json
  | [] => []
  | e :: es => expression e :: expressions es

def condition : Condition → Json
  | .compare lhs op rhs => .object [("lhs", expression lhs), ("op", .string op), ("rhs", expression rhs)]

def conditions : List Condition → List Json
  | [] => []
  | c :: cs => condition c :: conditions cs

def statement : Stmt → Json
  | .expression value => node "expression" [("expression", expression value)] value.position
  | .call place callee args => call callee (expressions args) place
  | .declare place type name value =>
    node "variable-declaration"
      [("name", .string name), ("varType", valueType type), ("value", expression value)] place
  | .function signature parameterTypes body =>
    node "function" [("prototype", prototype signature), ("body", .array (statements body)),
      ("argTypes", types parameterTypes)] signature.position
  | .prototype signature => prototype signature
  | .ret place value => node "return" [("value", expression value)] place

def statements : List Stmt → List Json
  | [] => []
  | s :: ss => statement s :: statements ss

end

def program (p : Program) : Json := .array (statements p)

end Keel.Dump
