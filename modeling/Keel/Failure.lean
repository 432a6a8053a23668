import Keel.Syntax.Reader
import Keel.Token.Lexer
import Keel.ValueType
import Keel.Wasm.Value

/-! All ways in which a source text fails to become a module. -/

namespace Keel

inductive CompileCause where
  | functionDefined (name : String)
  | variableDefined (name : String)
  | voidVariable (name : String)
  | voidLiteral
  | literalRange (type : ValueType)
  | unknownVariable (name : String)
  | unknownTarget (name : String)
  | noTarget
  | unknownOperator (op : String)
  | unknownComparison (op : String)
  | unknownFunction (name : String)
  | argumentCount (name : String) (expected given : Nat)
  | conditionList
  | voidOperand
  | conversion (source target : ValueType)
  | representation (source target : Wasm.ResultType)
  | importNotFound (path reason : String)
  | invalidModule
  deriving DecidableEq, Repr

structure CompileError where
  cause : CompileCause
  position : Option Position
  deriving DecidableEq, Repr

inductive ErrorCode where
  | unknownCharacter | unterminatedString
  | unexpectedToken | unknownType | malformedPrototype | malformedIf
  | unknownVariable | unknownFunction | argumentCount | invalidOperator | invalidType
  | duplicateDefinition | importNotFound | invalidModule
  deriving DecidableEq, Repr

def ErrorCode.name : ErrorCode → String
  | unknownCharacter => "LEX_UNKNOWN_CHARACTER"
  | unterminatedString => "LEX_UNTERMINATED_STRING"
  | unexpectedToken => "UNEXPECTED_TOKEN"
  | unknownType => "UNKNOWN_TYPE"
  | malformedPrototype => "MALFORMED_PROTOTYPE"
  | malformedIf => "MALFORMED_IF"
  | unknownVariable => "UNKNOWN_VARIABLE"
  | unknownFunction => "UNKNOWN_FUNCTION"
  | argumentCount => "ARGUMENT_COUNT"
  | invalidOperator => "INVALID_OPERATOR"
  | invalidType => "INVALID_TYPE"
  | duplicateDefinition => "DUPLICATE_DEFINITION"
  | importNotFound => "IMPORT_NOT_FOUND"
  | invalidModule => "INVALID_MODULE"

def LexCause.code : LexCause → ErrorCode
  | .unterminatedString => .unterminatedString
  | .unknownCharacter _ | .malformedNumber _ | .unknownEscape _ => .unknownCharacter

def ParseCode.code : ParseCode → ErrorCode
  | .unexpectedToken => .unexpectedToken
  | .unknownType => .unknownType
  | .malformedPrototype => .malformedPrototype
  | .malformedIf => .malformedIf

namespace CompileCause

def code : CompileCause → ErrorCode
  | functionDefined _ | variableDefined _ => .duplicateDefinition
  | voidVariable _ | voidLiteral | literalRange _ | voidOperand | conversion _ _
  | representation _ _ => .invalidType
  | unknownVariable _ | unknownTarget _ => .unknownVariable
  | noTarget | unknownOperator _ | unknownComparison _ | conditionList => .invalidOperator
  | unknownFunction _ => .unknownFunction
  | argumentCount _ _ _ => .argumentCount
  | importNotFound _ _ => .importNotFound
  | invalidModule => .invalidModule

def detail : CompileCause → String
  | functionDefined name => "Function " ++ name ++ " is already defined"
  | variableDefined name => "Variable " ++ name ++ " is already defined"
  | voidVariable name => "Variable " ++ name ++ " cannot be void"
  | voidLiteral => "A number cannot be void"
  | literalRange type => "Number literal out of range for " ++ type.keyword
  | unknownVariable name => "Unrecognized identifier " ++ name
  | unknownTarget name => "Cannot assign to unknown variable " ++ name
  | noTarget => "Can only assign to a variable"
  | unknownOperator op => "Unknown operator " ++ op
  | unknownComparison op => "Unknown comparison " ++ op
  | unknownFunction name => "Function " ++ name ++ " not found"
  | argumentCount name expected given =>
    "Function " ++ name ++ " takes " ++ toString expected ++ " arguments, got " ++ toString given
  | conditionList => "Malformed condition list"
  | voidOperand => "A void value cannot be used as an operand"
  | conversion source target => "Cannot convert " ++ source.keyword ++ " to " ++ target.keyword
  | representation source target => "Cannot convert " ++ source.name ++ " to " ++ target.name
  | importNotFound path reason => "Cannot import " ++ path ++ ": " ++ reason
  | invalidModule => "Generated module failed validation"

end CompileCause

/-- A search that used up its bound is no error of the source text. -/
inductive Failure where
  | lex (e : LexError)
  | parse (e : ParseError)
  | compile (e : CompileError)
  | exhausted
  deriving DecidableEq, Repr

namespace Failure

def ofHalt : Halt → Failure
  | .error e => parse e
  | .exhausted => exhausted

def detail : Failure → String
  | lex e => e.cause.detail
  | parse e => e.detail
  | compile e => e.cause.detail
  | exhausted => "Recursion bound used up"

def position? : Failure → Option Position
  | lex e => some e.position
  | parse e => some e.token.position
  | compile e => e.position
  | exhausted => none

def code? : Failure → Option ErrorCode
  | lex e => some e.cause.code
  | parse e => some e.code.code
  | compile e => some e.cause.code
  | exhausted => none

def message (f : Failure) : String :=
  match f.position? with
  | some p => f.detail ++ " at " ++ p.toText
  | none => f.detail

end Failure

end Keel
