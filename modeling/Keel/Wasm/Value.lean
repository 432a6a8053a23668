import Keel.Floating.Arithmetic

/-! Numbers that a module computes with. -/

namespace Keel

namespace Floating

def toBits {f : Format} (w : Nat) (x : Floating f) : BitVec w :=
  BitVec.ofInt w (x.truncate?.getD 0)

end Floating

namespace Wasm

inductive NumType where
  | i32 | i64 | f32 | f64
  deriving DecidableEq, Repr, Inhabited

abbrev ResultType := Option NumType

inductive Value where
  | i32 (bits : BitVec 32)
  | i64 (bits : BitVec 64)
  | f32 (number : Single)
  | f64 (number : Double)
  deriving DecidableEq, Repr, Inhabited

namespace NumType

def name : NumType → String
  | i32 => "i32"
  | i64 => "i64"
  | f32 => "f32"
  | f64 => "f64"

def zero : NumType → Value
  | i32 => .i32 0
  | i64 => .i64 0
  | f32 => .f32 (.zero false)
  | f64 => .f64 (.zero false)

end NumType

def ResultType.name : ResultType → String
  | some t => t.name
  | none => "none"

namespace Value

def type : Value → NumType
  | i32 _ => .i32
  | i64 _ => .i64
  | f32 _ => .f32
  | f64 _ => .f64

def isTrue : Value → Bool
  | i32 b => b ≠ 0
  | i64 b => b ≠ 0
  | f32 _ | f64 _ => false

end Value

end Wasm

end Keel
