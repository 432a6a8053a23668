import Keel.Syntax.Precedence
import Keel.Syntax.Reader

/-! Recursive descent for statements and precedence climbing for expressions. -/

namespace Keel

namespace Parser

open Reader

def defaultType : ValueType := .i32

def returnContext (result : ValueType) : ValueType :=
  if result = .void then defaultType else result

def separator? (t : Token) : Option String :=
  match t.kind with
  | .operator op => if op = "&&" || op = "||" then some op else none
  | _ => none

def comparison : Reader String := do
  match (← head).kind with
  | .operator op =>
    if yieldsTruth op then do
      let _ ← next
      return op
    else fail (.expected .comparison .malformedIf)
  | _ => fail (.expected .comparison .malformedIf)

def power (table : Precedences) : Reader Double := return table.power (← head).lexeme

def parameters : Nat → Reader (List ValueType × List String)
  | 0 => exhausted
  | depth + 1 => do
    let type ← valueType
    let name ← identifier .malformedPrototype
    if (← head).is (.punctuation ",") then
      let _ ← next
      let (types, names) ← parameters depth
      return (type :: types, name :: names)
    else return ([type], [name])

def prototype (depth : Nat) : Reader Prototype := do
  let fn ← next
  let name ← identifier .malformedPrototype
  let _ ← punctuation "(" .malformedPrototype
  let (types, names) ← if (← head).is (.punctuation ")") then pure ([], []) else parameters depth
  let _ ← punctuation ")" .malformedPrototype
  let _ ← punctuation "->" .malformedPrototype
  let result ← valueType
  return ⟨fn.position, name, names, types, result⟩

def importPath : Reader Expr := do
  let t ← next
  let path ← stringLiteral
  return .importFile t.position path

def literal (value : Double) (type : ValueType) : Reader Expr := do
  let t ← next
  return .number t.position value type

def statementOf : Expr → Stmt
  | .call position callee args => .call position callee args
  | e => .expression e

variable (table : Precedences)

mutual

def statement : Nat → ValueType → Reader Stmt
  | 0, _ => exhausted
  | depth + 1, result => do
    let t ← head
    match t.kind with
    | .keyword "fn" => function depth
    | .keyword "return" => do
      let _ ← next
      let value ← expression depth result (returnContext result)
      let _ ← punctuation ";"
      return .ret t.position value
    | .keyword "if" => return .expression (← conditional depth result defaultType)
    | .typeKeyword _ =>
      if (← look 1).is (.punctuation "(") then expressionStatement depth result
      else declaration depth result
    | _ => expressionStatement depth result

def expressionStatement : Nat → ValueType → Reader Stmt
  | 0, _ => exhausted
  | depth + 1, result => do
    let e ← expression depth result defaultType
    let _ ← punctuation ";"
    return statementOf e

def declaration : Nat → ValueType → Reader Stmt
  | 0, _ => exhausted
  | depth + 1, result => do
    let start ← head
    let type ← valueType
    let name ← identifier
    if (← head).is (.operator "=") then
      let _ ← next
      let value ← expression depth result type
      let _ ← punctuation ";"
      return .declare start.position type name value
    else fail (.expected (.symbol "=") .unexpectedToken)

def function : Nat → Reader Stmt
  | 0 => exhausted
  | depth + 1 => do
    let p ← prototype depth
    if (← head).is (.punctuation ";") then
      let _ ← next
      return .prototype p
    else
      let _ ← punctuation "\x7b"
      return .function p p.parameterTypes (← body depth p.result)

def body : Nat → ValueType → Reader (List Stmt)
  | 0, _ => exhausted
  | depth + 1, result => do
    let t ← head
    if t.is (.punctuation "\x7d") then
      let _ ← next
      return []
    else if ← finished then fail (.expected (.symbol "\x7d") .unexpectedToken)
    else
      let first ← statement depth result
      return first :: (← body depth result)

def expression : Nat → ValueType → ValueType → Reader Expr
  | 0, _, _ => exhausted
  | depth + 1, result, context => do
    let lhs ← primary depth result context
    climb depth result context (.zero false) lhs

def primary : Nat → ValueType → ValueType → Reader Expr
  | 0, _, _ => exhausted
  | depth + 1, result, context => do
    let t ← head
    match t.kind with
    | .int value => literal value context
    | .float value => literal value .double
    | .bool value => literal (.ofInt value.toInt) .bool
    | .string value => do
      let _ ← next
      return .string t.position value
    | .identifier name => do
      let _ ← next
      let after ← head
      if after.is (.punctuation "(") then
        let _ ← next
        let args ← if (← head).is (.punctuation ")") then pure [] else arguments depth result
        let _ ← punctuation ")"
        return .call t.position name args
      else if after.is (.operator "=") then
        let _ ← next
        return .assign t.position name (← expression depth result context)
      else return .reference t.position name
    | .punctuation "(" => do
      let _ ← next
      let e ← expression depth result context
      let _ ← punctuation ")"
      return e
    | .typeKeyword _ =>
      if (← look 1).is (.punctuation "(") then
        let target ← valueType
        let _ ← punctuation "("
        let value ← expression depth result defaultType
        let _ ← punctuation ")"
        return .cast t.position target value
      else fail .unknownInExpression
    | .keyword "if" => conditional depth result context
    | .keyword "import" => importPath
    | _ => fail .unknownInExpression

def arguments : Nat → ValueType → Reader (List Expr)
  | 0, _ => exhausted
  | depth + 1, result => do
    let first ← expression depth result defaultType
    if (← head).is (.punctuation ",") then
      let _ ← next
      return first :: (← arguments depth result)
    else return [first]

def climb : Nat → ValueType → ValueType → Double → Expr → Reader Expr
  | 0, _, _, _, _ => exhausted
  | depth + 1, result, context, least, lhs => do
    let own ← power table
    if own.lt least then return lhs
    else
      let op ← next
      let first ← primary depth result context
      let rhs ←
        if own.lt (← power table) then climb depth result context (Precedences.above own) first
        else pure first
      climb depth result context least (.binary lhs.position op.lexeme lhs rhs)

def conditional : Nat → ValueType → ValueType → Reader Expr
  | 0, _, _ => exhausted
  | depth + 1, result, context => do
    let start ← next
    let _ ← punctuation "("
    let first ← condition depth result context
    let (separators, conditions) ← moreConditions depth result context
    let _ ← punctuation ")" .malformedIf
    let _ ← punctuation "\x7b" .malformedIf
    let stmts ← body depth result
    return .conditional start.position (first :: conditions) separators stmts

def moreConditions : Nat → ValueType → ValueType → Reader (List String × List Condition)
  | 0, _, _ => exhausted
  | depth + 1, result, context => do
    match separator? (← head) with
    | none => return ([], [])
    | some separator => do
      let _ ← next
      let second ← condition depth result context
      let (separators, conditions) ← moreConditions depth result context
      return (separator :: separators, second :: conditions)

def condition : Nat → ValueType → ValueType → Reader Condition
  | 0, _, _ => exhausted
  | depth + 1, result, context => do
    let lhs ← operand depth result context
    let op ← comparison
    let rhs ← operand depth result context
    return .compare lhs op rhs

/-- Only operators that bind tighter than every comparison, which is left to the condition. -/
def operand : Nat → ValueType → ValueType → Reader Expr
  | 0, _, _ => exhausted
  | depth + 1, result, context => do
    let lhs ← primary depth result context
    climb depth result context (Precedences.above table.ceiling) lhs

end

def program : Nat → Reader Program
  | 0 => exhausted
  | depth + 1 => do
    if ← finished then return []
    else
      let first ← statement table depth defaultType
      return first :: (← program depth)

/-- Each token takes less than eight levels of recursion. -/
def depthFor (tokens : List Token) : Nat := 8 * tokens.length + 8

end Parser

def parse (tokens : List Token) (table : Precedences := .standard) : Except Halt Program :=
  match Parser.program table (Parser.depthFor tokens) (.ofTokens tokens) with
  | .ok p _ => .ok p
  | .error e _ => .error e

end Keel
