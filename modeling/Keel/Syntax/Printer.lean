import Keel.Syntax.Literal
import Keel.Syntax.Precedence

/-! Programs as source text that reads back as the same program. -/

namespace Keel

structure PrintStyle where
  table : Precedences := .standard
  indent : String := "  "

namespace Printer

def missing : String := "undefined"

def parameters : List String → List ValueType → List String
  | [], _ => []
  | name :: names, [] => (missing ++ " " ++ name) :: parameters names []
  | name :: names, type :: types => (type.keyword ++ " " ++ name) :: parameters names types

def prototype (p : Prototype) : String :=
  "fn " ++ p.name ++ "(" ++ ", ".intercalate (parameters p.parameterNames p.parameterTypes) ++ ") -> " ++
    p.result.keyword

def lines (texts : List String) : String := "\n".intercalate texts

def call (callee : String) (args : List String) : String :=
  callee ++ "(" ++ ", ".intercalate args ++ ")"

def isConditional : Expr → Bool
  | .conditional _ _ _ _ => true
  | _ => false

def enclosed (parens : Bool) (text : String) : String :=
  if parens then "(" ++ text ++ ")" else text

variable (style : PrintStyle)

def pad (depth : Nat) : String := String.join (List.replicate depth style.indent)

def needsParens (loose : Double → Bool) : Expr → Bool
  | .assign _ _ _ | .conditional _ _ _ _ => true
  | .binary _ op _ _ => loose (style.table.level op)
  | _ => false

mutual

def expression (depth : Nat) (result context : ValueType) : Expr → String
  | .number _ value type => Literal.text value type context
  | .reference _ name => name
  | .string _ value => Literal.quoted value
  | .importFile _ path => "import " ++ Literal.quoted path
  | .call _ callee args => call callee (arguments depth result args)
  | .cast _ target value => target.keyword ++ "(" ++ expression depth result .i32 value ++ ")"
  | .assign _ name value => name ++ " = " ++ expression depth result context value
  | .conditional _ conditions separators body =>
    lines (("if (" ++ " ".intercalate (conditionList depth result context conditions separators) ++ ") \x7b") ::
      statements (depth + 1) result body ++ [pad style depth ++ "\x7d"])
  | .binary _ op lhs rhs =>
    let power := style.table.level op
    enclosed (needsParens style (·.lt power) lhs) (expression depth result context lhs) ++ " " ++ op ++ " " ++
      enclosed (needsParens style (·.le power) rhs) (expression depth result context rhs)

def arguments (depth : Nat) (result : ValueType) : List Expr → List String
  | [] => []
  | e :: es => expression depth result .i32 e :: arguments depth result es

def condition (depth : Nat) (result context : ValueType) : Condition → String
  | .compare lhs op rhs =>
    let loose (power : Double) := power.le style.table.ceiling
    enclosed (needsParens style loose lhs) (expression depth result context lhs) ++ " " ++ op ++ " " ++
      enclosed (needsParens style loose rhs) (expression depth result context rhs)

def conditionList (depth : Nat) (result context : ValueType) : List Condition → List String → List String
  | [], _ => []
  | c :: cs, separators => condition depth result context c :: joined depth result context cs separators

def joined (depth : Nat) (result context : ValueType) : List Condition → List String → List String
  | [], _ => []
  | c :: cs, [] =>
    (missing ++ " " ++ condition depth result context c) :: joined depth result context cs []
  | c :: cs, separator :: separators =>
    (separator ++ " " ++ condition depth result context c) :: joined depth result context cs separators

def statement (depth : Nat) (result : ValueType) : Stmt → String
  | .expression value =>
    pad style depth ++ expression depth result .i32 value ++ (if isConditional value then "" else ";")
  | .call _ callee args => pad style depth ++ call callee (arguments depth result args) ++ ";"
  | .declare _ type name value =>
    pad style depth ++ type.keyword ++ " " ++ name ++ " = " ++ expression depth result type value ++ ";"
  | .ret _ value =>
    let context := if result = .void then .i32 else result
    pad style depth ++ "return " ++ expression depth result context value ++ ";"
  | .prototype signature => pad style depth ++ prototype signature ++ ";"
  | .function signature _ body =>
    lines ((pad style depth ++ prototype signature ++ " \x7b") ::
      statements (depth + 1) signature.result body ++ [pad style depth ++ "\x7d"])

def statements (depth : Nat) (result : ValueType) : List Stmt → List String
  | [] => []
  | s :: ss => statement depth result s :: statements depth result ss

end

end Printer

def print (p : Program) (style : PrintStyle) : String :=
  Printer.lines (Printer.statements style 0 .i32 p) ++ "\n"

end Keel
