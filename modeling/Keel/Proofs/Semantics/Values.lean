import Keel.ValueType
import Keel.Wasm.Operator
import Mathlib.Tactic.Common
import Mathlib.Tactic.SplitIfs

namespace Keel.Semantics

open Wasm (Stop ArithOp CompareOp truncated)

/-- Small integers and truth values keep all 32 bits, since a caller may pass any. -/
inductive Value where
  | i64 (bits : BitVec 64)
  | i32 (bits : BitVec 32)
  | i16 (bits : BitVec 32)
  | i8 (bits : BitVec 32)
  | float (number : Single)
  | double (number : Double)
  | bool (bits : BitVec 32)
  | void
  deriving DecidableEq, Repr

namespace Value

def type : Value → ValueType
  | i64 _ => .i64
  | i32 _ => .i32
  | i16 _ => .i16
  | i8 _ => .i8
  | float _ => .float
  | double _ => .double
  | bool _ => .bool
  | void => .void

def zero : ValueType → Value
  | .i64 => i64 0
  | .i32 => i32 0
  | .i16 => i16 0
  | .i8 => i8 0
  | .float => float (.zero false)
  | .double => double (.zero false)
  | .bool => bool 0
  | .void => void

def held : Value → Option Wasm.Value
  | i64 b => some (.i64 b)
  | i32 b | i16 b | i8 b | bool b => some (.i32 b)
  | float x => some (.f32 x)
  | double x => some (.f64 x)
  | void => none

def ofHeld? : ValueType → Option Wasm.Value → Option Value
  | .i64, some (.i64 b) => some (i64 b)
  | .i32, some (.i32 b) => some (i32 b)
  | .i16, some (.i32 b) => some (i16 b)
  | .i8, some (.i32 b) => some (i8 b)
  | .float, some (.f32 x) => some (float x)
  | .double, some (.f64 x) => some (double x)
  | .bool, some (.i32 b) => some (bool b)
  | .void, none => some void
  | _, _ => none

def ofBool (b : Bool) : Value := bool (if b then 1 else 0)

def narrowed (width : Nat) (b : BitVec 32) : BitVec 32 := (b.setWidth width).signExtend 32

def literal (value : Double) : ValueType → Value
  | .i64 => i64 (value.toBits 64)
  | .i32 => i32 (value.toBits 32)
  | .i16 => i16 ((value.toBits 16).signExtend 32)
  | .i8 => i8 ((value.toBits 8).signExtend 32)
  | .float => float value.convert
  | .double => double value
  | .bool => bool (value.toBits 32)
  | .void => void

def toWord : Value → Except Stop (BitVec 32)
  | i32 b | i16 b | i8 b | bool b => .ok b
  | i64 b => .ok (b.setWidth 32)
  | float x => truncated 32 x
  | double x => truncated 32 x
  | void => .error .stuck

def toLong : Value → Except Stop (BitVec 64)
  | i64 b => .ok b
  | i32 b | i16 b | i8 b | bool b => .ok (b.signExtend 64)
  | float x => truncated 64 x
  | double x => truncated 64 x
  | void => .error .stuck

def toSingle : Value → Except Stop Single
  | i64 b => .ok (.ofInt b.toInt)
  | i32 b | i16 b | i8 b | bool b => .ok (.ofInt b.toInt)
  | float x => .ok x
  | double x => .ok x.convert
  | void => .error .stuck

def toDouble : Value → Except Stop Double
  | i64 b => .ok (.ofInt b.toInt)
  | i32 b | i16 b | i8 b | bool b => .ok (.ofInt b.toInt)
  | float x => .ok x.convert
  | double x => .ok x
  | void => .error .stuck

def toTruth : Value → Except Stop Bool
  | i64 b => .ok (b != 0)
  | i32 b | i16 b | i8 b | bool b => .ok (b != 0)
  | float x => .ok !(x.eq (.zero false))
  | double x => .ok !(x.eq (.zero false))
  | void => .error .stuck

def wrapped : Value → Value
  | i16 b => i16 (narrowed 16 b)
  | i8 b => i8 (narrowed 8 b)
  | v => v

def retyped (v : Value) : ValueType → Except Stop Value
  | .i64 => v.toLong.map i64
  | .i32 => v.toWord.map i32
  | .i16 => v.toWord.map i16
  | .i8 => v.toWord.map i8
  | .float => v.toSingle.map float
  | .double => v.toDouble.map double
  | .bool => v.toTruth.map ofBool
  | .void => .error .stuck

def convert (v : Value) (t : ValueType) : Except Stop Value :=
  if v.type = t then .ok v
  else if t.rank < v.type.rank then (v.retyped t).map wrapped
  else v.retyped t

def arith (op : ArithOp) : Value → Value → Except Stop Value
  | i64 x, i64 y => (op.onBits x y).map i64
  | i32 x, i32 y => (op.onBits x y).map i32
  | i16 x, i16 y => (op.onBits x y).map i16
  | i8 x, i8 y => (op.onBits x y).map i8
  | float x, float y => .ok (float (op.onFloating x y))
  | double x, double y => .ok (double (op.onFloating x y))
  | _, _ => .error .stuck

def compare (op : CompareOp) : Value → Value → Except Stop Bool
  | i64 x, i64 y => .ok (op.onBits x y)
  | i32 x, i32 y | i16 x, i16 y | i8 x, i8 y | bool x, bool y => .ok (op.onBits x y)
  | float x, float y => .ok (op.onFloating x y)
  | double x, double y => .ok (op.onFloating x y)
  | _, _ => .error .stuck

end Value

def arithOp? (symbol : String) : Option ArithOp :=
  [("+", ArithOp.add), ("-", .sub), ("*", .mul), ("/", .div)].lookup symbol

def compareOp? (symbol : String) : Option CompareOp :=
  [("<", CompareOp.lt), (">", .gt), ("<=", .le), (">=", .ge), ("==", .eq), ("!=", .ne)].lookup symbol

def wider (a b : ValueType) : ValueType := if b.rank ≤ a.rank then a else b

def test (symbol : String) (v w : Value) : Except Stop Bool := do
  match compareOp? symbol with
  | some op =>
    let x ← v.convert (wider v.type w.type)
    let y ← w.convert (wider v.type w.type)
    x.compare op y
  | none => .error .stuck

def numeric (t : ValueType) : ValueType := if t = .bool then .i32 else t

def operate (symbol : String) (v w : Value) : Except Stop Value :=
  match arithOp? symbol with
  | some op => do
    let x ← v.convert (numeric (wider v.type w.type))
    let y ← w.convert (numeric (wider v.type w.type))
    (x.arith op y).map Value.wrapped
  | none => (test symbol v w).map Value.ofBool

section Typing

variable {v w : Value} {t : ValueType}

lemma Value.eq_void (h : v.type = .void) : v = .void := by
  cases v <;> first | rfl | cases h

lemma Value.type_zero : (Value.zero t).type = t := by cases t <;> rfl

lemma Value.type_literal (value : Double) : (Value.literal value t).type = t := by
  cases t <;> simp only [Value.literal, Value.type]

lemma Value.type_ofHeld? {n : Option Wasm.Value} (h : Value.ofHeld? t n = some v) : v.type = t ∧ v.held = n := by
  rcases n with _ | (b | b | x | x) <;> cases t <;> cases h <;> exact ⟨rfl, rfl⟩

lemma except_map_ok {ε α β : Type} {f : α → β} {x : Except ε α} {b : β} (h : x.map f = .ok b) :
    ∃ a, x = .ok a ∧ b = f a := by
  cases x with
  | error e => cases h
  | ok a =>
    cases h
    exact ⟨a, rfl, rfl⟩

lemma Value.type_wrapped (v : Value) : v.wrapped.type = v.type := by cases v <;> rfl

lemma Value.type_retyped (h : v.retyped t = .ok w) : w.type = t := by
  cases t with
  | void => cases h
  | _ =>
    obtain ⟨a, -, rfl⟩ := except_map_ok h
    rfl

lemma Value.eq_of_held (htype : v.type = w.type) (h : v.held = w.held) : v = w := by
  cases v <;> cases w <;> cases htype <;> simp_all [held]

lemma Value.type_convert (h : v.convert t = .ok w) : w.type = t := by
  unfold Value.convert at h
  split_ifs at h with heq hrank
  · cases h
    exact heq
  · obtain ⟨a, ha, rfl⟩ := except_map_ok h
    rw [type_wrapped, type_retyped ha]
  · exact type_retyped h

lemma Value.convert_widens (hv : v.type ≠ .void) (ht : t ≠ .void) (h : v.type.rank ≤ t.rank) :
    ∃ x, v.convert t = .ok x := by
  cases v <;> cases t <;> first
    | exact ⟨_, rfl⟩
    | exact absurd rfl hv
    | exact absurd rfl ht
    | simp [Value.type, ValueType.rank] at h

lemma rank_le_wider (a b : ValueType) : a.rank ≤ (wider a b).rank ∧ b.rank ≤ (wider a b).rank := by
  unfold wider
  split_ifs with h
  · exact ⟨Int.le_refl _, h⟩
  · exact ⟨Int.le_of_lt (Int.not_le.mp h), Int.le_refl _⟩

lemma rank_le_numeric (t : ValueType) : t.rank ≤ (numeric t).rank := by cases t <;> decide

end Typing

def IsFinal : Stop → Prop
  | .branch _ => False
  | .trap _ | .stuck | .exhausted => True

def Ends {α : Type} (x : Except Stop α) : Prop := ∀ e, x = .error e → IsFinal e

section Ends

variable {α β : Type} {x : Except Stop α} {v w : Value}

lemma Ends.ok (a : α) : Ends (.ok a : Except Stop α) := by
  intro e h
  cases h

lemma Ends.error {e : Stop} (h : IsFinal e) : Ends (.error e : Except Stop α) := by
  rintro _ ⟨⟩
  exact h

lemma Ends.map {f : α → β} (h : Ends x) : Ends (x.map f) := by
  cases x with
  | error e => exact .error (h e rfl)
  | ok a => exact .ok _

lemma Ends.bind {f : α → Except Stop β} (h : Ends x) (hf : ∀ a, Ends (f a)) : Ends (x >>= f) := by
  cases x with
  | error e => exact .error (h e rfl)
  | ok a => exact hf a

lemma ends_truncated {f : Format} (n : Nat) (x : Floating f) : Ends (truncated n x) := by
  unfold truncated
  split
  · split_ifs
    · exact .ok _
    · exact .error trivial
  · exact .error trivial

lemma ends_onBits {n : Nat} (o : ArithOp) (x y : BitVec n) : Ends (o.onBits x y) := by
  cases o with
  | div =>
    unfold ArithOp.onBits
    split_ifs
    · exact .error trivial
    · exact .error trivial
    · exact .ok _
  | _ => exact .ok _

lemma ends_toWord (v : Value) : Ends v.toWord := by
  cases v with
  | float x => exact ends_truncated 32 x
  | double x => exact ends_truncated 32 x
  | void => exact .error trivial
  | _ => exact .ok _

lemma ends_toLong (v : Value) : Ends v.toLong := by
  cases v with
  | float x => exact ends_truncated 64 x
  | double x => exact ends_truncated 64 x
  | void => exact .error trivial
  | _ => exact .ok _

lemma ends_retyped (v : Value) (t : ValueType) : Ends (v.retyped t) := by
  cases t with
  | i64 => exact .map (ends_toLong v)
  | i32 => exact .map (ends_toWord v)
  | i16 => exact .map (ends_toWord v)
  | i8 => exact .map (ends_toWord v)
  | void => exact .error trivial
  | _ => cases v <;> first | exact .ok _ | exact .error trivial

lemma ends_convert (v : Value) (t : ValueType) : Ends (v.convert t) := by
  unfold Value.convert
  split_ifs
  · exact .ok _
  · exact .map (ends_retyped v t)
  · exact ends_retyped v t

lemma ends_arith (o : ArithOp) (v w : Value) : Ends (v.arith o w) := by
  unfold Value.arith
  split
  case h_5 | h_6 => exact .ok _
  case h_7 => exact .error trivial
  all_goals exact .map (ends_onBits _ _ _)

lemma ends_compare (o : CompareOp) (v w : Value) : Ends (v.compare o w) := by
  unfold Value.compare
  split <;> first | exact .ok _ | exact .error trivial

lemma ends_test (op : String) (v w : Value) : Ends (test op v w) := by
  unfold test
  split
  · exact .bind (ends_convert _ _) fun x => .bind (ends_convert _ _) fun y => ends_compare _ _ _
  · exact .error trivial

lemma ends_operate (op : String) (v w : Value) : Ends (operate op v w) := by
  unfold operate
  split
  · exact .bind (ends_convert _ _) fun x => .bind (ends_convert _ _) fun y => .map (ends_arith _ _ _)
  · exact .map (ends_test _ _ _)

end Ends

end Keel.Semantics
