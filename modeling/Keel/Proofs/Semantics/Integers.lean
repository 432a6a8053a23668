import Keel.Proofs.Semantics.Values
import Mathlib.Data.BitVec

namespace Keel

namespace ValueType

def isInteger : ValueType → Bool
  | i64 | i32 | i16 | i8 | bool => true
  | float | double | void => false

def bits : ValueType → ℕ
  | i64 => 64
  | i32 => 32
  | i16 => 16
  | i8 => 8
  | bool => 1
  | float | double | void => 0

def wrap (t : ValueType) (n : ℤ) : ℤ :=
  if t = .bool then if n = 0 then 0 else 1 else n.bmod (2 ^ t.bits)

def Contains (t : ValueType) (n : ℤ) : Prop :=
  if t = .bool then n = 0 ∨ n = 1 else -2 ^ (t.bits - 1) ≤ n ∧ n < 2 ^ (t.bits - 1)

variable {s t : ValueType} {n : ℤ}

lemma Contains.widen (h : s.Contains n) (hs : s.isInteger = true) (ht : t.isInteger = true) (hrank : s.rank ≤ t.rank) :
    t.Contains n := by
  cases s <;> cases hs <;> cases t <;> cases ht <;> simp [Contains, bits, rank] at h hrank ⊢ <;> omega

lemma Contains.wrap_eq (h : t.Contains n) (ht : t.isInteger = true) : t.wrap n = n := by
  cases t <;> cases ht <;> simp [Contains, bits, wrap] at h ⊢
  case bool => omega
  all_goals exact Int.bmod_eq_of_le (by omega) (by omega)

lemma contains_wrap (ht : t.isInteger = true) (n : ℤ) : t.Contains (t.wrap n) := by
  cases t <;> cases ht <;> simp only [Contains, bits, wrap, reduceCtorEq, if_true, if_false]
  case bool => split_ifs <;> simp
  all_goals
    refine ⟨?_, ?_⟩
    · exact (Int.le_bmod (by decide)).trans' (by decide)
    · exact (Int.bmod_lt (by decide)).trans_le (by decide)

lemma Contains.bmod_word (h : t.Contains n) (ht : t.isInteger = true) (hlong : t ≠ .i64) : n.bmod (2 ^ 32) = n :=
  (h.widen ht rfl (t := .i32) (by cases t <;> cases ht <;> simp [rank] at hlong ⊢)).wrap_eq rfl

lemma Contains.bmod_long (h : t.Contains n) (ht : t.isInteger = true) : n.bmod (2 ^ 64) = n :=
  (h.widen ht rfl (t := .i64) (by cases t <;> cases ht <;> simp [rank])).wrap_eq rfl

end ValueType

namespace Semantics

open Wasm (ArithOp CompareOp Trap Stop)

def exactly (t : ValueType) (op : ArithOp) (x y : ℤ) : Except Trap ℤ :=
  match op with
  | .add => .ok (t.wrap (x + y))
  | .sub => .ok (t.wrap (x - y))
  | .mul => .ok (t.wrap (x * y))
  | .div =>
    if y = 0 then .error .divideByZero
    else if (t = .i32 ∨ t = .i64) ∧ x = -2 ^ (t.bits - 1) ∧ y = -1 then .error .divideOverflow
    else .ok (t.wrap (x.tdiv y))

def compared (op : CompareOp) (x y : ℤ) : Bool :=
  match op with
  | .lt => x < y
  | .gt => y < x
  | .le => x ≤ y
  | .ge => y ≤ x
  | .eq => x = y
  | .ne => x ≠ y

def operationType (symbol : String) (s t : ValueType) : ValueType :=
  if (arithOp? symbol).isSome then numeric (wider s t) else .bool

def exactOperation (symbol : String) (s t : ValueType) (x y : ℤ) : Except Trap ℤ :=
  match arithOp? symbol with
  | some op => exactly (numeric (wider s t)) op x y
  | none => .ok (if (compareOp? symbol).any fun op => compared op x y then 1 else 0)

/-! Words that stand for integers. -/

section Words

variable {v w : ℕ} {x y n : ℤ}

lemma ofInt_congr (h : x.bmod (2 ^ w) = y.bmod (2 ^ w)) : BitVec.ofInt w x = BitVec.ofInt w y :=
  BitVec.toInt_inj.mp (by rw [BitVec.toInt_ofInt, BitVec.toInt_ofInt, h])

lemma ofInt_bmod (h : v ≤ w) (n : ℤ) : BitVec.ofInt v (n.bmod (2 ^ w)) = BitVec.ofInt v n :=
  ofInt_congr (Int.bmod_bmod_of_dvd (Nat.pow_dvd_pow 2 h))

lemma ofInt_eq_iff (hx : x.bmod (2 ^ w) = x) (hy : y.bmod (2 ^ w) = y) :
    BitVec.ofInt w x = BitVec.ofInt w y ↔ x = y := by
  rw [← BitVec.toInt_inj, BitVec.toInt_ofInt, BitVec.toInt_ofInt, hx, hy]

lemma signExtend_ofInt (h : w ≤ v) (n : ℤ) : (BitVec.ofInt w n).signExtend v = BitVec.ofInt v (n.bmod (2 ^ w)) := by
  rw [← BitVec.toInt_ofInt, ← BitVec.toInt_signExtend_of_le h, BitVec.ofInt_toInt]

lemma setWidth_ofInt (h : v ≤ w) (n : ℤ) : (BitVec.ofInt w n).setWidth v = BitVec.ofInt v n := by
  rw [← BitVec.signExtend_eq_setWidth_of_le _ h, ← BitVec.toInt_inj, BitVec.toInt_signExtend, Nat.min_eq_left h,
    BitVec.toInt_ofInt, BitVec.toInt_ofInt, Int.bmod_bmod_of_dvd (Nat.pow_dvd_pow 2 h)]

lemma ofInt_sub (x y : ℤ) : BitVec.ofInt w (x - y) = BitVec.ofInt w x - BitVec.ofInt w y := by
  rw [Int.sub_eq_add_neg, BitVec.ofInt_add, BitVec.ofInt_neg, BitVec.sub_eq_add_neg]

lemma narrowed_ofInt (h : v ≤ 32) (n : ℤ) :
    Value.narrowed v (BitVec.ofInt 32 n) = BitVec.ofInt 32 (n.bmod (2 ^ v)) := by
  rw [Value.narrowed, setWidth_ofInt h, signExtend_ofInt h]

lemma toInt_intMin (hw : 0 < w) : (BitVec.intMin w).toInt = -2 ^ (w - 1) := by
  have hlt : 2 ^ (w - 1) < 2 ^ w := Nat.pow_lt_pow_right (by decide) (by omega)
  rw [BitVec.toInt_intMin, Nat.mod_eq_of_lt hlt]
  norm_cast

lemma neg_one_bmod (hw : 0 < w) : (-1 : ℤ).bmod (2 ^ w) = -1 := by
  have hle : 2 ^ 1 ≤ 2 ^ w := Nat.pow_le_pow_right Nat.two_pos hw
  exact Int.bmod_eq_of_le (by omega) (by omega)

lemma ofInt_neg_one : BitVec.ofInt w (-1) = -1 := BitVec.ofInt_neg

def unwrapped (w : ℕ) (op : ArithOp) (x y : ℤ) : Except Trap ℤ :=
  match op with
  | .add => .ok (x + y)
  | .sub => .ok (x - y)
  | .mul => .ok (x * y)
  | .div =>
    if y = 0 then .error .divideByZero
    else if x = -2 ^ (w - 1) ∧ y = -1 then .error .divideOverflow
    else .ok (x.tdiv y)

section Operators

variable (hx : x.bmod (2 ^ w) = x) (hy : y.bmod (2 ^ w) = y)
include hx hy

lemma compare_ofInt (op : CompareOp) : op.onBits (BitVec.ofInt w x) (BitVec.ofInt w y) = compared op x y := by
  have heq := ofInt_eq_iff hx hy
  cases op <;> simp only [CompareOp.onBits, compared, BitVec.slt_eq_decide, BitVec.sle_eq_decide, BitVec.toInt_ofInt,
    hx, hy]
  case eq => exact decide_eq_decide.mpr heq
  case ne =>
    rw [Bool.eq_iff_iff, bne_iff_ne, decide_eq_true_eq]
    exact not_congr heq

lemma div_ofInt : (BitVec.ofInt w x).sdiv (BitVec.ofInt w y) = BitVec.ofInt w (x.tdiv y) := by
  rw [← BitVec.toInt_inj, BitVec.toInt_sdiv, BitVec.toInt_ofInt, BitVec.toInt_ofInt, BitVec.toInt_ofInt, hx, hy]

lemma onBits_ofInt (hw : 0 < w) (op : ArithOp) : op.onBits (BitVec.ofInt w x) (BitVec.ofInt w y) =
    ((unwrapped w op x y).mapError Stop.trap).map (BitVec.ofInt w) := by
  cases op with
  | add => exact congrArg Except.ok (BitVec.ofInt_add x y).symm
  | sub => exact congrArg Except.ok (ofInt_sub x y).symm
  | mul => exact congrArg Except.ok (BitVec.ofInt_mul x y).symm
  | div =>
    have hzero : BitVec.ofInt w y = 0 ↔ y = 0 := ofInt_eq_iff hy Int.zero_bmod
    have hleast : BitVec.ofInt w x = BitVec.intMin w ↔ x = -2 ^ (w - 1) := by
      rw [← BitVec.toInt_inj, BitVec.toInt_ofInt, hx, toInt_intMin hw]
    have hone : BitVec.ofInt w y = -1 ↔ y = -1 := by
      rw [← ofInt_neg_one]
      exact ofInt_eq_iff hy (neg_one_bmod hw)
    simp only [ArithOp.onBits, unwrapped, hzero, hleast, hone, div_ofInt hx hy]
    split_ifs <;> rfl

end Operators

end Words

namespace Value

def ofInteger (t : ValueType) (n : ℤ) : Value :=
  match t with
  | .i64 => i64 (BitVec.ofInt 64 n)
  | .i32 => i32 (BitVec.ofInt 32 n)
  | .i16 => i16 (BitVec.ofInt 32 n)
  | .i8 => i8 (BitVec.ofInt 32 n)
  | .bool => bool (BitVec.ofInt 32 n)
  | .float | .double | .void => void

variable {s t : ValueType} {x y n : ℤ}

lemma type_ofInteger (ht : t.isInteger = true) : (ofInteger t n).type = t := by
  cases t <;> cases ht <;> rfl

lemma literal_ofInteger {value : Double} (ht : t.isInteger = true)
    (hbool : t = .bool → t.Contains (value.truncate?.getD 0)) :
    literal value t = ofInteger t (t.wrap (value.truncate?.getD 0)) := by
  cases t with
  | i64 => exact congrArg i64 (ofInt_bmod le_rfl _).symm
  | i32 => exact congrArg i32 (ofInt_bmod le_rfl _).symm
  | i16 => exact congrArg i16 (signExtend_ofInt (by decide) _)
  | i8 => exact congrArg i8 (signExtend_ofInt (by decide) _)
  | bool =>
    rw [(hbool rfl).wrap_eq rfl]
    rfl
  | float | double | void => cases ht

lemma wrapped_ofInteger (ht : t.isInteger = true) (hbool : t ≠ .bool) :
    (ofInteger t n).wrapped = ofInteger t (t.wrap n) := by
  cases t with
  | i64 => exact congrArg i64 (ofInt_bmod le_rfl n).symm
  | i32 => exact congrArg i32 (ofInt_bmod le_rfl n).symm
  | i16 => exact congrArg i16 (narrowed_ofInt (by decide) n)
  | i8 => exact congrArg i8 (narrowed_ofInt (by decide) n)
  | bool => exact absurd rfl hbool
  | _ => cases ht

lemma retyped_ofInteger (hs : s.isInteger = true) (ht : t.isInteger = true) (hbool : t ≠ .bool) (hn : s.Contains n) :
    (ofInteger s n).retyped t = .ok (ofInteger t n) := by
  have hword : (ofInteger s n).toWord = .ok (BitVec.ofInt 32 n) := by
    cases s with
    | i64 => exact congrArg Except.ok (setWidth_ofInt (by decide) n)
    | float | double | void => cases hs
    | _ => rfl
  have hlong : (ofInteger s n).toLong = .ok (BitVec.ofInt 64 n) := by
    have hextend : ∀ h : s ≠ .i64, (BitVec.ofInt 32 n).signExtend 64 = BitVec.ofInt 64 n := fun h => by
      rw [signExtend_ofInt (by decide), hn.bmod_word hs h]
    cases s with
    | i64 => rfl
    | float | double | void => cases hs
    | _ => exact congrArg Except.ok (hextend nofun)
  cases t with
  | i64 => rw [retyped, hlong]; rfl
  | bool => exact absurd rfl hbool
  | float | double | void => cases ht
  | _ => rw [retyped, hword]; rfl

lemma toTruth_ofInteger (hs : s.isInteger = true) (hn : s.Contains n) :
    (ofInteger s n).toTruth = .ok (decide (n ≠ 0)) := by
  have htruth : ∀ w, n.bmod (2 ^ w) = n → (BitVec.ofInt w n != 0) = decide (n ≠ 0) := fun w h =>
    compare_ofInt h Int.zero_bmod .ne
  cases s with
  | i64 => exact congrArg Except.ok (htruth 64 (hn.bmod_long hs))
  | float | double | void => cases hs
  | _ => exact congrArg Except.ok (htruth 32 (hn.bmod_word hs nofun))

lemma convert_ofInteger (hs : s.isInteger = true) (ht : t.isInteger = true) (hn : s.Contains n) :
    (ofInteger s n).convert t = .ok (ofInteger t (t.wrap n)) := by
  unfold convert
  rw [type_ofInteger hs]
  by_cases hsame : s = t
  · subst hsame
    rw [if_pos rfl, hn.wrap_eq hs]
  rw [if_neg hsame]
  by_cases hbool : t = .bool
  · subst hbool
    have hrank : ValueType.bool.rank < s.rank := by cases s <;> cases hs <;> simp [ValueType.rank] at hsame ⊢
    rw [if_pos hrank, retyped, toTruth_ofInteger hs hn]
    by_cases hzero : n = 0 <;> simp [hzero, ValueType.wrap] <;> rfl
  · rw [retyped_ofInteger hs ht hbool hn]
    split_ifs with hrank
    · exact congrArg Except.ok (wrapped_ofInteger ht hbool)
    · rw [(hn.widen hs ht (not_lt.mp hrank)).wrap_eq ht]

lemma exactly_eq (ht : t.isInteger = true) (hbool : t ≠ .bool) (hx : t.Contains x) (op : ArithOp) :
    exactly t op x y = (unwrapped (if t = .i64 then 64 else 32) op x y).map t.wrap := by
  -- small integers are too far from the least word for their quotient to overflow
  cases op with
  | div =>
    have hoverflow : ((t = .i32 ∨ t = .i64) ∧ x = -2 ^ (t.bits - 1) ∧ y = -1) ↔
        x = -2 ^ ((if t = .i64 then 64 else 32) - 1) ∧ y = -1 := by
      cases t <;> cases ht <;> simp [ValueType.Contains, ValueType.bits] at hx hbool ⊢ <;> omega
    simp only [exactly, unwrapped, hoverflow]
    split_ifs <;> rfl
  | _ => rfl

lemma arith_ofInteger (ht : t.isInteger = true) (hbool : t ≠ .bool) (hx : t.Contains x) (hy : t.Contains y)
    (op : ArithOp) : ((ofInteger t x).arith op (ofInteger t y)).map wrapped =
      ((exactly t op x y).mapError Stop.trap).map (ofInteger t) := by
  have hexact := exactly_eq (y := y) ht hbool hx op
  cases t with
  | i64 =>
    rw [hexact, if_pos rfl]
    simp only [ofInteger, arith, onBits_ofInt (hx.bmod_long rfl) (hy.bmod_long rfl) (by decide : 0 < 64)]
    cases unwrapped 64 op x y with
    | error trap => rfl
    | ok n => exact congrArg Except.ok (wrapped_ofInteger rfl hbool)
  | bool => exact absurd rfl hbool
  | float | double | void => cases ht
  | _ =>
    rw [hexact, if_neg nofun]
    simp only [ofInteger, arith, onBits_ofInt (hx.bmod_word rfl nofun) (hy.bmod_word rfl nofun) (by decide : 0 < 32)]
    cases unwrapped 32 op x y with
    | error trap => rfl
    | ok n => exact congrArg Except.ok (wrapped_ofInteger rfl hbool)

lemma compare_ofInteger (ht : t.isInteger = true) (hx : t.Contains x) (hy : t.Contains y) (op : CompareOp) :
    (ofInteger t x).compare op (ofInteger t y) = .ok (compared op x y) := by
  cases t with
  | i64 => exact congrArg Except.ok (compare_ofInt (hx.bmod_long rfl) (hy.bmod_long rfl) op)
  | float | double | void => cases ht
  | _ => exact congrArg Except.ok (compare_ofInt (hx.bmod_word rfl nofun) (hy.bmod_word rfl nofun) op)

end Value

section Operations

variable {s t : ValueType} {x y n : ℤ} {symbol : String}

lemma wider_isInteger (hs : s.isInteger = true) (ht : t.isInteger = true) : (wider s t).isInteger = true := by
  unfold wider
  split_ifs
  · exact hs
  · exact ht

lemma numeric_isInteger (ht : t.isInteger = true) : (numeric t).isInteger = true := by
  unfold numeric
  split_ifs
  · rfl
  · exact ht

lemma numeric_ne_bool (t : ValueType) : numeric t ≠ .bool := by
  unfold numeric
  split_ifs with h
  · nofun
  · exact h

lemma operationType_isInteger (hs : s.isInteger = true) (ht : t.isInteger = true) :
    (operationType symbol s t).isInteger = true := by
  unfold operationType
  split_ifs
  · exact numeric_isInteger (wider_isInteger hs ht)
  · rfl

lemma exactly_contains (ht : t.isInteger = true) {op : ArithOp} (h : exactly t op x y = .ok n) : t.Contains n := by
  cases op with
  | div =>
    rw [exactly] at h
    split_ifs at h
    cases h
    exact ValueType.contains_wrap ht _
  | _ =>
    cases h
    exact ValueType.contains_wrap ht _

lemma exactOperation_contains (hs : s.isInteger = true) (ht : t.isInteger = true)
    (h : exactOperation symbol s t x y = .ok n) : (operationType symbol s t).Contains n := by
  unfold exactOperation at h
  unfold operationType
  cases hop : arithOp? symbol with
  | some op =>
    rw [hop] at h
    exact exactly_contains (numeric_isInteger (wider_isInteger hs ht)) h
  | none =>
    rw [hop] at h
    cases h
    simp only [Option.isSome_none, Bool.false_eq_true, if_false]
    split_ifs <;> simp [ValueType.Contains]

lemma operate_ofInteger (hs : s.isInteger = true) (ht : t.isInteger = true) (hx : s.Contains x) (hy : t.Contains y)
    (hop : (arithOp? symbol).isSome = true ∨ (compareOp? symbol).isSome = true) :
    operate symbol (.ofInteger s x) (.ofInteger t y) =
      ((exactOperation symbol s t x y).mapError Stop.trap).map (.ofInteger (operationType symbol s t)) := by
  have hu := wider_isInteger hs ht
  have hrank := rank_le_wider s t
  have hx' := hx.widen hs hu hrank.1
  have hy' := hy.widen ht hu hrank.2
  cases harith : arithOp? symbol with
  | some op =>
    have hnumeric := numeric_isInteger hu
    have hn := rank_le_numeric (wider s t)
    have hx'' := hx'.widen hu hnumeric hn
    have hy'' := hy'.widen hu hnumeric hn
    simp only [operate, exactOperation, operationType, harith, Value.type_ofInteger hs, Value.type_ofInteger ht,
      Value.convert_ofInteger hs hnumeric hx, Value.convert_ofInteger ht hnumeric hy, hx''.wrap_eq hnumeric,
      hy''.wrap_eq hnumeric]
    exact Value.arith_ofInteger hnumeric (numeric_ne_bool _) hx'' hy'' op
  | none =>
    rw [harith] at hop
    obtain ⟨op, hcompare⟩ := Option.isSome_iff_exists.mp (hop.resolve_left nofun)
    simp only [operate, test, exactOperation, operationType, harith, hcompare, Value.type_ofInteger hs,
      Value.type_ofInteger ht, Value.convert_ofInteger hs hu hx, Value.convert_ofInteger ht hu hy, hx'.wrap_eq hu,
      hy'.wrap_eq hu]
    refine (congrArg (Except.map Value.ofBool) (Value.compare_ofInteger hu hx' hy' op)).trans ?_
    cases hb : compared op x y <;> simp [hb] <;> rfl

end Operations

end Semantics

end Keel
