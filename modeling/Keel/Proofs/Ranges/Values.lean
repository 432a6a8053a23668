import Keel.Floating.Format
import Keel.Lowering.Conversion
import Keel.Proofs.Semantics.Values
import Keel.Wasm.Execution
import Mathlib.Algebra.Group.Int.Defs
import Mathlib.Tactic.Common
import Mathlib.Tactic.SplitIfs

namespace Keel

namespace ValueType

def least : ValueType → Int
  | i32 => -2 ^ 31
  | i16 => -2 ^ 15
  | i8 => -2 ^ 7
  | bool | i64 | float | double | void => 0

def greatest : ValueType → Int
  | i32 => 2 ^ 31 - 1
  | i16 => 2 ^ 15 - 1
  | i8 => 2 ^ 7 - 1
  | bool => 1
  | i64 | float | double | void => 0

end ValueType

namespace Ranges

open Wasm (NumType BinaryOp Conversion Stop)

/-- What code may leave for a value of a type. Numbers in 32 bits stay between the bounds of their type. -/
def InRange (type : ValueType) : Option Wasm.Value → Prop
  | some (.i32 b) => type.numType? = some .i32 ∧ type.least ≤ b.toInt ∧ b.toInt ≤ type.greatest
  | some (.i64 _) => type.numType? = some .i64
  | some (.f32 _) => type.numType? = some .f32
  | some (.f64 _) => type.numType? = some .f64
  | none => type.numType? = none

instance (type : ValueType) : (v : Option Wasm.Value) → Decidable (InRange type v)
  | some (.i32 b) =>
    inferInstanceAs (Decidable (type.numType? = some .i32 ∧ type.least ≤ b.toInt ∧ b.toInt ≤ type.greatest))
  | some (.i64 _) => inferInstanceAs (Decidable (type.numType? = some .i64))
  | some (.f32 _) => inferInstanceAs (Decidable (type.numType? = some .f32))
  | some (.f64 _) => inferInstanceAs (Decidable (type.numType? = some .f64))
  | none => inferInstanceAs (Decidable (type.numType? = none))

def AllInRange (types : List ValueType) (vs : List Wasm.Value) : Prop :=
  List.Forall₂ (fun type v => InRange type (some v)) types vs

instance (types : List ValueType) (vs : List Wasm.Value) : Decidable (AllInRange types vs) :=
  inferInstanceAs (Decidable (List.Forall₂ _ types vs))

def Narrower (a b : ValueType) : Prop := a.numType? = b.numType? ∧ a.rank ≤ b.rank

def full : NumType → ValueType
  | .i32 => .i32
  | .i64 => .i64
  | .f32 => .float
  | .f64 => .double

def width? : ValueType → Option Nat
  | .i8 => some 8
  | .i16 => some 16
  | .i64 | .i32 | .float | .double | .bool | .void => none

variable {a b type : ValueType} {v w u : Wasm.Value} {o : Option Wasm.Value} {t : NumType}

lemma narrower_full (h : type.numType? = some t) : Narrower type (full t) := by
  cases type <;> cases h <;> exact ⟨rfl, by decide⟩

lemma Narrower.bounds (h : Narrower a b) (ha : a.numType? = some .i32) :
    b.least ≤ a.least ∧ a.greatest ≤ b.greatest := by
  obtain ⟨hnum, hrank⟩ := h
  rw [ha] at hnum
  cases a <;> cases ha <;> cases b <;> cases hnum <;> revert hrank <;> decide

lemma InRange.widen (h : InRange a o) (hab : Narrower a b) : InRange b o := by
  rcases o with _ | (x | x | x | x)
  case some.i32 =>
    obtain ⟨hnum, hleast, hgreatest⟩ := h
    obtain ⟨hl, hg⟩ := hab.bounds hnum
    exact ⟨hab.1 ▸ hnum, Int.le_trans hl hleast, Int.le_trans hgreatest hg⟩
  all_goals exact hab.1.symm.trans h

lemma inRange_full (v : Wasm.Value) : InRange (full v.type) (some v) := by
  cases v with
  | i32 b =>
    have hleast := b.le_toInt
    have hgreatest := b.toInt_lt
    refine ⟨rfl, ?_, ?_⟩ <;> simp [Wasm.Value.type, full, ValueType.least, ValueType.greatest] at * <;> omega
  | _ => rfl

lemma inRange_zero (type : ValueType) : InRange type (Wasm.zeroOf type.numType?) := by
  cases type <;> decide

lemma inRange_truth (b : Bool) : InRange .bool (some (Wasm.truth b)) := by
  cases b <;> decide

lemma inRange_shiftRight {bits : Nat} (hbits : width? type = some bits)
    (h : BinaryOp.shiftRight.apply v (.i32 (BitVec.ofInt 32 (32 - bits))) = .ok u) : InRange type (some u) := by
  cases v with
  | i32 b =>
    have hleast := b.le_toInt
    have hgreatest := b.toInt_lt
    cases type <;> cases hbits <;> cases h <;> refine ⟨rfl, ?_⟩ <;>
      rw [BitVec.toInt_sshiftRight, Int.shiftRight_eq_div_pow] <;>
      simp [ValueType.least, ValueType.greatest] at * <;> omega
  | _ => cases h

lemma inRange_signExtend {bits : Nat} (hbits : width? type = some bits) (b : BitVec bits) :
    InRange type (some (.i32 (b.signExtend 32))) := by
  have hleast := b.le_toInt
  have hgreatest := b.toInt_lt
  cases type <;> cases hbits <;> refine ⟨rfl, ?_⟩ <;>
    rw [BitVec.toInt_signExtend_of_le (by decide)] <;>
    simp [ValueType.least, ValueType.greatest] at * <;> omega

lemma type_binary {op : BinaryOp} (h : op.apply v w = .ok u) : u.type = op.resultType := by
  unfold BinaryOp.apply at h
  split at h
  case h_1 | h_2 =>
    obtain ⟨x, -, rfl⟩ := Semantics.except_map_ok h
    rfl
  all_goals cases h
  all_goals rfl

lemma compare_ok {t : NumType} {op : Wasm.CompareOp} (h : (BinaryOp.compare t op).apply v w = .ok u) :
    ∃ b, u = Wasm.truth b := by
  cases t <;> cases v <;> cases w <;> cases h <;> exact ⟨_, rfl⟩

lemma type_convert {op : Conversion} (h : op.apply v = .ok u) : u.type = op.targetType := by
  unfold Conversion.apply at h
  split at h
  case h_3 | h_4 | h_5 | h_6 =>
    obtain ⟨x, -, rfl⟩ := Semantics.except_map_ok h
    rfl
  all_goals cases h
  all_goals rfl

end Ranges

end Keel
