import Keel.Floating.Format

/-! Decimal text of floating-point numbers: the fewest digits that read back as the number. -/

namespace Keel

-- Powers are the core library's, whatever other powers are in scope.
attribute [local instance (high)] instPowNat

structure Decimal where
  digits : Nat
  exponent : Int
  deriving DecidableEq, Repr

namespace Decimal

def toFloating {f : Format} (negative : Bool) (d : Decimal) : Floating f :=
  Floating.round negative (d.digits * 10 ^ d.exponent.toNat) (10 ^ (-d.exponent).toNat)

def length (n : Nat) : Nat :=
  if n = 0 then 0 else (Nat.toDigits 10 n).length

def pointPosition (num den : Nat) : Int :=
  if den ≤ num then length (num / den) else 1 - length ((den - 1) / num)

def neighbours (num den : Nat) (exponent : Int) : Decimal × Decimal :=
  let n := num * 10 ^ (-exponent).toNat
  let d := den * 10 ^ exponent.toNat
  let low := n / d
  let r := n % d
  if 2 * r < d ∨ (2 * r = d ∧ low % 2 = 0) then (⟨low, exponent⟩, ⟨low + 1, exponent⟩)
  else (⟨low + 1, exponent⟩, ⟨low, exponent⟩)

def carried (d : Decimal) : Decimal :=
  if d.digits = 10 then ⟨1, d.exponent + 1⟩ else d

def search {f : Format} (x : Floating f) (num den : Nat) : Nat → Int → Decimal
  | 0, exponent => (neighbours num den exponent).1
  | fuel + 1, exponent =>
    let (near, far) := neighbours num den exponent
    if near.toFloating false = x then near.carried
    else if far.toFloating false = x then far.carried
    else search x num den fuel (exponent - 1)

def shortest (f : Format) (m : Nat) (e : Int) : Decimal :=
  if m = 0 then ⟨0, 0⟩ else
    let s := Floating.scaled m 1 e
    let top := pointPosition s.1 s.2
    search (Floating.finite (f := f) false m e) s.1 s.2 (top - 1 - min e 0).toNat (top - 1)

def zeros (n : Nat) : List Char := List.replicate n '0'

def plain (d : Decimal) : List Char :=
  let ds := Nat.toDigits 10 d.digits
  let point : Int := ds.length + d.exponent
  if 0 ≤ d.exponent then ds ++ zeros d.exponent.toNat
  else if 0 < point then ds.take point.toNat ++ '.' :: ds.drop point.toNat
  else '0' :: '.' :: zeros (-point).toNat ++ ds

def scientific (d : Decimal) : List Char :=
  let ds := Nat.toDigits 10 d.digits
  let power : Int := ds.length + d.exponent - 1
  let fraction := if ds.length ≤ 1 then [] else '.' :: ds.drop 1
  ds.take 1 ++ fraction ++ 'e' :: (if power < 0 then '-' else '+') :: Nat.toDigits 10 power.natAbs

def general (d : Decimal) : List Char :=
  let point : Int := (Nat.toDigits 10 d.digits).length + d.exponent
  if -6 < point ∧ point ≤ 21 then d.plain else d.scientific

end Decimal

namespace Floating

variable {f : Format}

def signText (negative : Bool) (text : List Char) : String :=
  String.ofList (if negative then '-' :: text else text)

def toText : Floating f → String
  | .finite negative m e => signText negative (Decimal.shortest f m e).general
  | .infinite negative => signText negative "Infinity".toList
  | .nan => "NaN"

end Floating

end Keel
