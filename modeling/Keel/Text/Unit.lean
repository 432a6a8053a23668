/-! The 16-bit units in which places in a text are counted. -/

namespace Keel.Text

-- Powers are the core library's, whatever other powers are in scope.
attribute [local instance (high)] instPowNat

def width (c : Char) : Nat :=
  if c.toNat < 0x10000 then 1 else 2

def firstUnit (c : Char) : Nat :=
  if c.toNat < 0x10000 then c.toNat else 0xD800 + (c.toNat - 0x10000) / 0x400

def hexDigits (digits : Nat) (n : Nat) : List Char :=
  (List.range digits).reverse.map fun i => Nat.digitChar (n / 16 ^ i % 16)

def unitText (c : Char) : String :=
  if c.toNat < 0x10000 then c.toString
  else String.ofList ("<U+".toList ++ (hexDigits 4 (firstUnit c)).map Char.toUpper ++ ['>'])

end Keel.Text
