/-! Binary floating-point numbers of a given format and the rounding of a quotient to the nearest of them. -/

namespace Keel

-- Powers are the core library's, whatever other powers are in scope.
attribute [local instance (high)] instPowNat

structure Format where
  precision : Nat
  minExponent : Int
  maxExponent : Int
  deriving DecidableEq, Repr

namespace Format

def binary32 : Format := ⟨24, -149, 104⟩

def binary64 : Format := ⟨53, -1074, 971⟩

end Format

inductive Floating (f : Format) where
  | finite (negative : Bool) (significand : Nat) (exponent : Int)
  | infinite (negative : Bool)
  | nan
  deriving DecidableEq, Repr

abbrev Single := Floating .binary32

abbrev Double := Floating .binary64

namespace Floating

variable {f : Format}

/-- The one spelling of each number: a full significand, or the least exponent. -/
def Canonical : Floating f → Prop
  | .finite _ m e =>
    m < 2 ^ f.precision ∧ f.minExponent ≤ e ∧ e ≤ f.maxExponent ∧
      (2 ^ (f.precision - 1) ≤ m ∨ e = f.minExponent)
  | .infinite _ | .nan => True

instance : DecidablePred (Canonical (f := f))
  | .finite _ _ _ => inferInstanceAs (Decidable (_ ∧ _ ∧ _ ∧ (_ ∨ _)))
  | .infinite _ | .nan => inferInstanceAs (Decidable True)

def zero (negative : Bool) : Floating f :=
  .finite negative 0 f.minExponent

instance : Inhabited (Floating f) := ⟨zero false⟩

def roundQuotient (num den : Nat) : Nat :=
  let q := num / den
  let r := num % den
  if den < 2 * r ∨ (2 * r = den ∧ q % 2 = 1) then q + 1 else q

def scaled (num den : Nat) (e : Int) : Nat × Nat :=
  (num * 2 ^ e.toNat, den * 2 ^ (-e).toNat)

def binaryExponent (num den : Nat) : Int :=
  let e : Int := num.log2 - den.log2
  let s := scaled num den (-e)
  if s.1 < s.2 then e - 1 else e

def pack (negative : Bool) (m : Nat) (e : Int) : Floating f :=
  if f.maxExponent < e then .infinite negative else .finite negative m e

def round (negative : Bool) (num den : Nat) : Floating f :=
  if num = 0 then zero negative else
    let e := max f.minExponent (binaryExponent num den - (f.precision - 1))
    let s := scaled num den (-e)
    let m := roundQuotient s.1 s.2
    if m = 2 ^ f.precision then pack negative (2 ^ (f.precision - 1)) (e + 1)
    else pack negative m e

def ofScaled (negative : Bool) (m : Nat) (e : Int) : Floating f :=
  let s := scaled m 1 e
  round negative s.1 s.2

def ofInt (i : Int) : Floating f :=
  round (i < 0) i.natAbs 1

def isFinite : Floating f → Bool
  | .finite .. => true
  | .infinite _ | .nan => false

def isInteger : Floating f → Bool
  | .finite _ m e => m % 2 ^ (-e).toNat = 0
  | .infinite _ | .nan => false

def truncate? : Floating f → Option Int
  | .finite negative m e =>
    let n := m * 2 ^ e.toNat / 2 ^ (-e).toNat
    some (if negative then -n else n)
  | .infinite _ | .nan => none

end Floating

end Keel
