import Keel.Wasm.Value

/-! Operators on numbers: wrapping integers, correctly rounded floating-point numbers. -/

namespace Keel.Wasm

-- Powers are the core library's, whatever other powers are in scope.
attribute [local instance (high)] instPowNat

inductive Trap where
  | divideByZero
  | divideOverflow
  | truncation
  deriving DecidableEq, Repr

def Trap.message : Trap → String
  | divideByZero => "divide by zero"
  | divideOverflow => "divide result unrepresentable"
  | truncation => "float unrepresentable in integer range"

/-- Why code does not run to its end. Code that is ill typed is stuck. -/
inductive Stop where
  | trap (t : Trap)
  | branch (label : String)
  | stuck
  | exhausted
  deriving DecidableEq, Repr

inductive ArithOp where
  | add | sub | mul | div
  deriving DecidableEq, Repr

inductive CompareOp where
  | lt | gt | le | ge | eq | ne
  deriving DecidableEq, Repr

inductive BinaryOp where
  | arith (type : NumType) (op : ArithOp)
  | compare (type : NumType) (op : CompareOp)
  | shiftLeft
  | shiftRight
  deriving DecidableEq, Repr

inductive Conversion where
  | i32WrapI64 | i64ExtendI32
  | i32TruncF32 | i32TruncF64 | i64TruncF32 | i64TruncF64
  | f32ConvertI32 | f32ConvertI64 | f64ConvertI32 | f64ConvertI64
  | f64PromoteF32 | f32DemoteF64
  deriving DecidableEq, Repr

namespace ArithOp

def onBits {w : Nat} (op : ArithOp) (x y : BitVec w) : Except Stop (BitVec w) :=
  match op with
  | add => .ok (x + y)
  | sub => .ok (x - y)
  | mul => .ok (x * y)
  | div =>
    if y = 0 then .error (.trap .divideByZero)
    else if x = BitVec.intMin w ∧ y = -1 then .error (.trap .divideOverflow)
    else .ok (x.sdiv y)

def onFloating {f : Format} (op : ArithOp) (x y : Floating f) : Floating f :=
  match op with
  | add => x.add y
  | sub => x.sub y
  | mul => x.mul y
  | div => x.div y

end ArithOp

namespace CompareOp

def onBits {w : Nat} (op : CompareOp) (x y : BitVec w) : Bool :=
  match op with
  | lt => x.slt y
  | gt => y.slt x
  | le => x.sle y
  | ge => y.sle x
  | eq => x == y
  | ne => x != y

def onFloating {f : Format} (op : CompareOp) (x y : Floating f) : Bool :=
  match op with
  | lt => x.lt y
  | gt => y.lt x
  | le => x.le y
  | ge => y.le x
  | eq => x.eq y
  | ne => !x.eq y

end CompareOp

def truth (b : Bool) : Value := .i32 (if b then 1 else 0)

namespace BinaryOp

def apply : BinaryOp → Value → Value → Except Stop Value
  | arith .i32 op, .i32 x, .i32 y => (op.onBits x y).map .i32
  | arith .i64 op, .i64 x, .i64 y => (op.onBits x y).map .i64
  | arith .f32 op, .f32 x, .f32 y => .ok (.f32 (op.onFloating x y))
  | arith .f64 op, .f64 x, .f64 y => .ok (.f64 (op.onFloating x y))
  | compare .i32 op, .i32 x, .i32 y => .ok (truth (op.onBits x y))
  | compare .i64 op, .i64 x, .i64 y => .ok (truth (op.onBits x y))
  | compare .f32 op, .f32 x, .f32 y => .ok (truth (op.onFloating x y))
  | compare .f64 op, .f64 x, .f64 y => .ok (truth (op.onFloating x y))
  | shiftLeft, .i32 x, .i32 y => .ok (.i32 (x <<< (y.toNat % 32)))
  | shiftRight, .i32 x, .i32 y => .ok (.i32 (x.sshiftRight (y.toNat % 32)))
  | _, _, _ => .error .stuck

def operandType : BinaryOp → NumType
  | arith t _ | compare t _ => t
  | shiftLeft | shiftRight => .i32

def resultType : BinaryOp → NumType
  | arith t _ => t
  | compare _ _ | shiftLeft | shiftRight => .i32

def isInteger : NumType → Bool
  | .i32 | .i64 => true
  | .f32 | .f64 => false

def arithName (t : NumType) : ArithOp → String
  | .add => "add"
  | .sub => "sub"
  | .mul => "mul"
  | .div => if isInteger t then "div_s" else "div"

def compareName (t : NumType) (op : CompareOp) : String :=
  let signed := if isInteger t then "_s" else ""
  match op with
  | .lt => "lt" ++ signed
  | .gt => "gt" ++ signed
  | .le => "le" ++ signed
  | .ge => "ge" ++ signed
  | .eq => "eq"
  | .ne => "ne"

def name : BinaryOp → String
  | arith t op => t.name ++ "." ++ arithName t op
  | compare t op => t.name ++ "." ++ compareName t op
  | shiftLeft => "i32.shl"
  | shiftRight => "i32.shr_s"

end BinaryOp

def truncated {f : Format} (w : Nat) (x : Floating f) : Except Stop (BitVec w) :=
  match x.truncate? with
  | some i =>
    if -2 ^ (w - 1) ≤ i ∧ i < 2 ^ (w - 1) then .ok (BitVec.ofInt w i) else .error (.trap .truncation)
  | none => .error (.trap .truncation)

namespace Conversion

def apply : Conversion → Value → Except Stop Value
  | i32WrapI64, .i64 x => .ok (.i32 (x.setWidth 32))
  | i64ExtendI32, .i32 x => .ok (.i64 (x.signExtend 64))
  | i32TruncF32, .f32 x => (truncated 32 x).map .i32
  | i32TruncF64, .f64 x => (truncated 32 x).map .i32
  | i64TruncF32, .f32 x => (truncated 64 x).map .i64
  | i64TruncF64, .f64 x => (truncated 64 x).map .i64
  | f32ConvertI32, .i32 x => .ok (.f32 (.ofInt x.toInt))
  | f32ConvertI64, .i64 x => .ok (.f32 (.ofInt x.toInt))
  | f64ConvertI32, .i32 x => .ok (.f64 (.ofInt x.toInt))
  | f64ConvertI64, .i64 x => .ok (.f64 (.ofInt x.toInt))
  | f64PromoteF32, .f32 x => .ok (.f64 x.convert)
  | f32DemoteF64, .f64 x => .ok (.f32 x.convert)
  | _, _ => .error .stuck

def sourceType : Conversion → NumType
  | i64ExtendI32 | f32ConvertI32 | f64ConvertI32 => .i32
  | i32WrapI64 | f32ConvertI64 | f64ConvertI64 => .i64
  | i32TruncF32 | i64TruncF32 | f64PromoteF32 => .f32
  | i32TruncF64 | i64TruncF64 | f32DemoteF64 => .f64

def targetType : Conversion → NumType
  | i32WrapI64 | i32TruncF32 | i32TruncF64 => .i32
  | i64ExtendI32 | i64TruncF32 | i64TruncF64 => .i64
  | f32ConvertI32 | f32ConvertI64 | f32DemoteF64 => .f32
  | f64ConvertI32 | f64ConvertI64 | f64PromoteF32 => .f64

def between? : NumType → NumType → Option Conversion
  | .i64, .i32 => some i32WrapI64
  | .f32, .i32 => some i32TruncF32
  | .f64, .i32 => some i32TruncF64
  | .i32, .i64 => some i64ExtendI32
  | .f32, .i64 => some i64TruncF32
  | .f64, .i64 => some i64TruncF64
  | .i32, .f32 => some f32ConvertI32
  | .i64, .f32 => some f32ConvertI64
  | .f64, .f32 => some f32DemoteF64
  | .i32, .f64 => some f64ConvertI32
  | .i64, .f64 => some f64ConvertI64
  | .f32, .f64 => some f64PromoteF32
  | .i32, .i32 | .i64, .i64 | .f32, .f32 | .f64, .f64 => none

def name : Conversion → String
  | i32WrapI64 => "i32.wrap_i64"
  | i64ExtendI32 => "i64.extend_i32_s"
  | i32TruncF32 => "i32.trunc_f32_s"
  | i32TruncF64 => "i32.trunc_f64_s"
  | i64TruncF32 => "i64.trunc_f32_s"
  | i64TruncF64 => "i64.trunc_f64_s"
  | f32ConvertI32 => "f32.convert_i32_s"
  | f32ConvertI64 => "f32.convert_i64_s"
  | f64ConvertI32 => "f64.convert_i32_s"
  | f64ConvertI64 => "f64.convert_i64_s"
  | f64PromoteF32 => "f64.promote_f32"
  | f32DemoteF64 => "f32.demote_f64"

end Conversion

end Keel.Wasm
