import Keel.Floating.Decimal
import Keel.Token

/-! Reading a text as tokens, the longest lexeme first. -/

namespace Keel

inductive LexCause where
  | unknownCharacter (c : Char)
  | malformedNumber (word : String)
  | unknownEscape (c : Option Char)
  | unterminatedString
  deriving DecidableEq, Repr

structure LexError where
  cause : LexCause
  position : Position
  deriving DecidableEq, Repr

def LexCause.detail : LexCause → String
  | .unknownCharacter c => "Unknown character: " ++ Text.unitText c
  | .malformedNumber word => "Malformed number: " ++ word
  | .unknownEscape none => "Unknown escape sequence: \\"
  | .unknownEscape (some c) => "Unknown escape sequence: \\" ++ Text.unitText c
  | .unterminatedString => "Unterminated string"

namespace Lexer

def isBlank (c : Char) : Bool := c = ' ' || c = '\n' || c = '\t' || c = '\r'

def isDigit (c : Char) : Bool := '0' ≤ c && c ≤ '9'

def isNumberPart (c : Char) : Bool := isDigit c || c = '.'

def isWordStart (c : Char) : Bool :=
  ('a' ≤ c && c ≤ 'z') || ('A' ≤ c && c ≤ 'Z') || c = '_'

def isWordPart (c : Char) : Bool := isWordStart c || isDigit c

def reservedWords : List String := ["fn", "return", "if", "import"]

def operatorSymbols : List String :=
  ["=", "+", "-", "*", "/", "<", ">", "<=", ">=", "==", "!=", "&&", "||"]

def punctuationSymbols : List String := ["(", ")", "\x7b", "\x7d", ",", ";", "->"]

def digitsValue (digits : List Char) : Nat :=
  digits.foldl (fun n c => 10 * n + (c.toNat - '0'.toNat)) 0

def numberKind? (word : List Char) : Option TokenKind :=
  match word.span isDigit with
  | (whole, []) => some (.int (Decimal.toFloating false ⟨digitsValue whole, 0⟩))
  | (whole, _ :: fraction) =>
    if fraction.isEmpty || !fraction.all isDigit then none
    else some (.float (Decimal.toFloating false ⟨digitsValue (whole ++ fraction), -fraction.length⟩))

def wordKind (word : String) : TokenKind :=
  if (ValueType.ofKeyword? word).isSome then .typeKeyword word
  else if reservedWords.contains word then .keyword word
  else if word = "true" then .bool true
  else if word = "false" then .bool false
  else .identifier word

def symbolKind? (symbol : String) : Option TokenKind :=
  if punctuationSymbols.contains symbol then some (.punctuation symbol)
  else if operatorSymbols.contains symbol then some (.operator symbol)
  else none

def escape? : Char → Option Char
  | 'n' => some '\n'
  | 't' => some '\t'
  | '"' => some '"'
  | '\\' => some '\\'
  | _ => none

def quoted (start : Position) : Position → List Char → Nat → List Char → Except LexError (List Char × Nat)
  | _, _, _, [] => .error ⟨.unterminatedString, start⟩
  | _, value, length, '"' :: _ => .ok (value.reverse, length + 1)
  | _, _, _, '\n' :: _ => .error ⟨.unterminatedString, start⟩
  | place, _, _, ['\\'] => .error ⟨.unknownEscape none, place⟩
  | place, value, length, '\\' :: c :: cs =>
    match escape? c with
    | none => .error ⟨.unknownEscape (some c), place⟩
    | some v => quoted start (place.advanceAll ['\\', c]) (v :: value) (length + 2) cs
  | place, value, length, c :: cs => quoted start (place.advance c) (c :: value) (length + 1) cs

inductive Piece where
  | blank (more : Nat)
  | lexeme (kind : TokenKind) (more : Nat)
  deriving DecidableEq, Repr

def symbol (place : Position) (c : Char) (cs : List Char) : Except LexError Piece :=
  let pair := match cs with
    | [] => none
    | d :: _ => symbolKind? (String.ofList [c, d])
  match pair with
  | some kind => .ok (.lexeme kind 1)
  | none =>
    match symbolKind? c.toString with
    | some kind => .ok (.lexeme kind 0)
    | none => .error ⟨.unknownCharacter c, place⟩

def piece (place : Position) (c : Char) (cs : List Char) : Except LexError Piece :=
  if isBlank c then .ok (.blank 0)
  else if c = '/' && cs.head? == some '/' then .ok (.blank (cs.takeWhile (· ≠ '\n')).length)
  else if c = '"' then
    (quoted place (place.advance c) [] 0 cs).map fun (value, length) =>
      .lexeme (.string (String.ofList value)) length
  else if isDigit c then
    let word := c :: cs.takeWhile isNumberPart
    match numberKind? word with
    | some kind => .ok (.lexeme kind (word.length - 1))
    | none => .error ⟨.malformedNumber (String.ofList word), place⟩
  else if isWordStart c then
    let word := c :: cs.takeWhile isWordPart
    .ok (.lexeme (wordKind (String.ofList word)) (word.length - 1))
  else symbol place c cs

def scan : Nat → Position → List Char → Except LexError (List Token)
  | _, place, [] => .ok [Token.endOfInput place]
  | skip + 1, place, c :: cs => scan skip (place.advance c) cs
  | 0, place, c :: cs =>
    match piece place c cs with
    | .error e => .error e
    | .ok (.blank more) => scan more (place.advance c) cs
    | .ok (.lexeme kind more) =>
      (scan more (place.advance c) cs).map fun rest =>
        ⟨kind, String.ofList (c :: cs.take more), place⟩ :: rest

end Lexer

def lex (source : String) : Except LexError (List Token) :=
  Lexer.scan 0 .start source.toList

end Keel
