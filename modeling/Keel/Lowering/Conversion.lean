import Keel.Failure
import Keel.Syntax
import Keel.Wasm.Module

/-! How values of the language's types are held in a module's types, and changed from one to another. -/

namespace Keel

open Wasm (NumType Instr)

namespace ValueType

/-- Small integers and truth values are held in 32 bits, sign extended. -/
def numType? : ValueType → Wasm.ResultType
  | i64 => some .i64
  | float => some .f32
  | double => some .f64
  | void => none
  | bool | i8 | i16 | i32 => some .i32

end ValueType

namespace Lowering

structure Lowered where
  code : Instr
  type : ValueType

def i32Const (n : Int) : Instr := .const (.i32 (BitVec.ofInt 32 n))

def signExtended (bits : Nat) (code : Instr) : Instr :=
  let distance := i32Const (32 - bits)
  .binary .shiftRight (.binary .shiftLeft code distance) distance

def wrapped (type : ValueType) (code : Instr) : Instr :=
  match type with
  | .i8 => signExtended 8 code
  | .i16 => signExtended 16 code
  | .i64 | .i32 | .float | .double | .bool | .void => code

def changed? (source target : Wasm.ResultType) (code : Instr) : Option Instr :=
  if source = target then some code
  else match source, target with
    | some s, some t => (Wasm.Conversion.between? s t).map fun op => .convert op code
    | _, _ => none

def nonzero (t : NumType) (code : Instr) : Instr := .binary (.compare t .ne) code (.const t.zero)

def coerce (value : Lowered) (target : ValueType) (place : Position) : Except CompileError Lowered :=
  if value.type = target then .ok value
  else if value.type = .void ∨ target = .void then .error ⟨.conversion value.type target, some place⟩
  else if target = .bool then .ok ⟨nonzero (value.type.numType?.getD .i32) value.code, target⟩
  else match changed? value.type.numType? target.numType? value.code with
    | some code => .ok ⟨if target.rank < value.type.rank then wrapped target code else code, target⟩
    | none => .error ⟨.representation value.type.numType? target.numType?, none⟩

def commonType (a b : ValueType) (place : Position) : Except CompileError ValueType :=
  if a = .void ∨ b = .void then .error ⟨.voidOperand, some place⟩
  else .ok (if b.rank ≤ a.rank then a else b)

def operator? (type : ValueType) (op : String) : Option Wasm.BinaryOp :=
  type.numType?.bind fun t =>
    [("+", .arith t .add), ("-", .arith t .sub), ("*", .arith t .mul), ("/", .arith t .div),
      ("<", .compare t .lt), (">", .compare t .gt), ("<=", .compare t .le), (">=", .compare t .ge),
      ("==", .compare t .eq), ("!=", .compare t .ne)].lookup op

def dropped (value : Lowered) : Instr :=
  if value.type = .void then value.code else .drop value.code

def literal (value : Double) (type : ValueType) (place : Position) : Except CompileError Lowered :=
  if type = .void then .error ⟨.voidLiteral, some place⟩
  else if !value.isFinite then .error ⟨.literalRange type, some place⟩
  else
    let number : Wasm.Value := match type with
      | .float => .f32 value.convert
      | .double => .f64 value
      | .i64 => .i64 (value.toBits 64)
      | .i8 => .i32 ((value.toBits 8).signExtend 32)
      | .i16 => .i32 ((value.toBits 16).signExtend 32)
      | .i32 | .bool | .void => .i32 (value.toBits 32)
    .ok ⟨.const number, type⟩

end Lowering

end Keel
