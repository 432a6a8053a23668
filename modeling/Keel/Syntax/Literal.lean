import Keel.Floating.Arithmetic
import Keel.Floating.Decimal
import Keel.ValueType

/-! Number literals and quoted strings, spelt so that they read back as they were. -/

namespace Keel

-- Powers are the core library's, whatever other powers are in scope.
attribute [local instance (high)] instPowNat

namespace Literal

def negativePower? : List Char → Option (List Char)
  | 'e' :: '-' :: power => if power.isEmpty || !power.all Char.isDigit then none else some power
  | _ => none

def scaledDown? : List Char → Option (List Char × List Char)
  | lead :: '.' :: cs =>
    let fraction := cs.takeWhile Char.isDigit
    if !lead.isDigit || fraction.isEmpty then none
    else (negativePower? (cs.dropWhile Char.isDigit)).map fun power => (lead :: fraction, power)
  | lead :: cs => if !lead.isDigit then none else (negativePower? cs).map fun power => ([lead], power)
  | [] => none

def withZeros (text : List Char) : List Char :=
  match scaledDown? text with
  | some (digits, power) => '0' :: '.' :: (Decimal.zeros (Nat.ofDigitChars 10 power 0 - 1) ++ digits)
  | none => text

def spelledOut (text : String) : String :=
  match text.toList with
  | '-' :: cs => String.ofList ('-' :: withZeros cs)
  | cs => String.ofList (withZeros cs)

end Literal

namespace Floating

/-- Without an exponent: whole numbers exactly, with no sign on zero, fractions in the fewest digits. -/
def plainText : Double → String
  | .finite negative m e =>
    if (Floating.finite (f := .binary64) negative m e).isInteger then
      let n := m * 2 ^ e.toNat / 2 ^ (-e).toNat
      signText (negative && n ≠ 0) (Nat.toDigits 10 n)
    else Literal.spelledOut (Floating.finite (f := .binary64) negative m e).toText
  | x => Literal.spelledOut x.toText

end Floating

namespace Literal

/-- A literal of a type other than its context's shows its type. -/
def text (value : Double) (type context : ValueType) : String :=
  if type = .bool ∧ value.eq (.ofInt 0) then "false"
  else if type = .bool ∧ value.eq (.ofInt 1) then "true"
  else if type = context then value.plainText
  else if type = .double then
    if value.isInteger then value.plainText ++ ".0" else value.plainText
  else type.keyword ++ "(" ++ value.plainText ++ ")"

def escaped : Char → List Char
  | '\\' => ['\\', '\\']
  | '"' => ['\\', '"']
  | '\n' => ['\\', 'n']
  | '\t' => ['\\', 't']
  | c => [c]

def quoted (value : String) : String :=
  String.ofList ('"' :: value.toList.flatMap escaped ++ ['"'])

end Literal

end Keel
