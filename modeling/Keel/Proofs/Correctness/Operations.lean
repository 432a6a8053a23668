import Keel.Proofs.Lowering.Signatures
import Keel.Proofs.Semantics.Evaluation

namespace Keel.Lowering

open Wasm (Instr Run Stop Caller NumType BinaryOp ArithOp CompareOp Conversion)
open Semantics

section Held

variable {v w : Value} {t : ValueType}

lemma held_zero (t : ValueType) : (Value.zero t).held = Wasm.zeroOf t.numType? := by
  cases t <;> rfl

lemma exists_held (h : v.type ≠ .void) : ∃ n, v.held = some n := by
  cases v with
  | void => exact absurd rfl h
  | _ => exact ⟨_, rfl⟩

lemma ofHeld?_typed {n : Option Wasm.Value} (h : n.map Wasm.Value.type = t.numType?) :
    ∃ v, Value.ofHeld? t n = some v := by
  rcases n with _ | (b | b | x | x) <;> cases t <;> first | exact ⟨_, rfl⟩ | cases h

lemma shifted_eq_narrowed (b : BitVec 32) {width : Nat} (hpos : 0 < width) (h : width ≤ 32) :
    (b <<< (32 - width)).sshiftRight (32 - width) = Value.narrowed width b := by
  apply BitVec.eq_of_getLsbD_eq
  intro i hi
  simp only [Value.narrowed, BitVec.getLsbD_sshiftRight, BitVec.getLsbD_signExtend, BitVec.getLsbD_shiftLeft,
    BitVec.getLsbD_setWidth, BitVec.msb_eq_getLsbD_last]
  have hi' : ¬ 32 ≤ i := by omega
  by_cases hlow : i < width
  · have hsum : 32 - width + i < 32 := by omega
    have hsub : 32 - width + i - (32 - width) = i := by omega
    simp [hi, hi', hlow, hsum, hsub]
  · have hsum : ¬ 32 - width + i < 32 := by omega
    have hsub : 31 - (32 - width) = width - 1 := by omega
    have hlast : width - 1 < width := by omega
    have hbound : 32 - width ≤ 31 := by omega
    simp [hi, hi', hlow, hsum, hsub, hlast, hbound]

end Held

section Conversions

variable {m n : NumType} {x y z : Instr} {f g : Option Wasm.Value → Run (Option Wasm.Value)}

def Extends (x y : Instr) (f : Option Wasm.Value → Run (Option Wasm.Value)) : Prop :=
  ∀ call, y.run call = x.run call >>= f

lemma Extends.refl (x : Instr) : Extends x x pure := by
  intro call
  rw [bind_pure]

lemma Extends.trans (h : Extends x y f) (h' : Extends y z g) : Extends x z fun o => f o >>= g := by
  intro call
  rw [h' call, h call, bind_assoc]

def conveyed : Except Stop Value → Run (Option Wasm.Value)
  | .ok v => pure v.held
  | .error e => throw e

def carried : Except Stop Wasm.Value → Run (Option Wasm.Value)
  | .ok n => pure (some n)
  | .error e => throw e

def numberOf (v : Value) : NumType → Except Stop Wasm.Value
  | .i32 => v.toWord.map .i32
  | .i64 => v.toLong.map .i64
  | .f32 => v.toSingle.map .f32
  | .f64 => v.toDouble.map .f64

lemma some_ofExcept (x : Except Stop Wasm.Value) : some <$> ofExcept x = carried x := by
  cases x <;> rfl

lemma extends_convert (op : Conversion) (x : Instr) :
    Extends x (.convert op x) fun o => Run.operand o >>= fun a => carried (op.apply a) := by
  intro call
  simp [Instr.run, some_ofExcept]

lemma extends_const (op : BinaryOp) (x : Instr) (b : Wasm.Value) :
    Extends x (.binary op x (.const b)) fun o => Run.operand o >>= fun a => carried (op.apply a b) := by
  intro call
  simp [Instr.run, some_ofExcept, Run.operand]

lemma extends_changed? {x changed : Instr} (h : changed? (some m) (some n) x = some changed) :
    ∃ f, Extends x changed f ∧ ∀ v : Value, v.type.numType? = some m → f v.held = carried (numberOf v n) := by
  obtain ⟨rfl, rfl⟩ | ⟨op, hop, rfl⟩ := changed?_ok h
  · refine ⟨_, .refl _, ?_⟩
    intro v hv
    cases v <;> cases hv <;> rfl
  · refine ⟨_, extends_convert op x, ?_⟩
    intro v hv
    cases v <;> cases hv <;> cases n <;> cases hop <;> rfl

lemma extends_signExtended {width : Nat} (hpos : 0 < width) (h : width ≤ 32) (x : Instr) :
    ∃ f, Extends x (signExtended width x) f ∧
      ∀ b, f (some (.i32 b)) = pure (some (.i32 (Value.narrowed width b))) := by
  refine ⟨_, Extends.trans (extends_const _ _ _) (extends_const _ _ _), ?_⟩
  intro b
  have hdistance : (BitVec.ofInt 32 (32 - width)).toNat % 32 = 32 - width := by
    rw [BitVec.toNat_ofInt]
    omega
  rw [← shifted_eq_narrowed b hpos h, ← hdistance]
  rfl

lemma extends_wrapped (t : ValueType) (x : Instr) : ∃ f, Extends x (wrapped t x) f ∧
    ∀ v : Value, v.type = t → f v.held = pure v.wrapped.held := by
  cases t with
  | i8 =>
    obtain ⟨f, hf, hb⟩ := extends_signExtended (by decide : 0 < 8) (by decide) x
    refine ⟨f, hf, ?_⟩
    intro v hv
    cases v with
    | i8 b => exact hb b
    | _ => cases hv
  | i16 =>
    obtain ⟨f, hf, hb⟩ := extends_signExtended (by decide : 0 < 16) (by decide) x
    refine ⟨f, hf, ?_⟩
    intro v hv
    cases v with
    | i16 b => exact hb b
    | _ => cases hv
  | _ =>
    refine ⟨pure, .refl x, ?_⟩
    intro v hv
    cases v <;> first | rfl | cases hv

lemma carried_numberOf {v : Value} {target : ValueType} (hbool : target ≠ .bool) (hn : target.numType? = some n) :
    carried (numberOf v n) = conveyed (v.retyped target) := by
  cases target <;> cases hn
  case bool => exact absurd rfl hbool
  case i64 => cases h : v.toLong <;> simp only [numberOf, Value.retyped, h] <;> rfl
  case float => cases h : v.toSingle <;> simp only [numberOf, Value.retyped, h] <;> rfl
  case double => cases h : v.toDouble <;> simp only [numberOf, Value.retyped, h] <;> rfl
  all_goals cases h : v.toWord <;> simp only [numberOf, Value.retyped, h] <;> rfl

lemma conveyed_bind {x : Except Stop Value} {k : Value → Value}
    (h : ∀ v, x = .ok v → f v.held = pure (k v).held) : conveyed x >>= f = conveyed (x.map k) := by
  cases x with
  | error e => rfl
  | ok v => exact h v rfl

lemma extends_coerce {a b : Lowered} {target : ValueType} {place : Position} (h : coerce a target place = .ok b) :
    b.type = target ∧ ∃ f, Extends a.code b.code f ∧
      ∀ v : Value, v.type = a.type → f v.held = conveyed (v.convert target) := by
  obtain ⟨htype, rfl⟩ | ⟨hne, m, n, hm, hn, h⟩ := coerce_ok h
  · refine ⟨htype, pure, .refl _, ?_⟩
    intro v hv
    rw [Value.convert, if_pos (hv.trans htype)]
    rfl
  · obtain ⟨rfl, rfl⟩ | ⟨hbool, changed, hchanged, rfl⟩ := h
    · refine ⟨rfl, _, extends_const _ _ _, ?_⟩
      intro v hv
      rw [← hv] at hm hne
      simp only [Value.convert, if_neg hne]
      cases v <;> cases hm <;> rfl
    · obtain ⟨f, hf, hnumber⟩ := extends_changed? hchanged
      refine ⟨rfl, ?_⟩
      have hretyped : ∀ v : Value, v.type = a.type → f v.held = conveyed (v.retyped target) := by
        intro v hv
        rw [hnumber v (hv ▸ hm), carried_numberOf hbool hn]
      split_ifs with hrank
      · obtain ⟨g, hg, hwrapped⟩ := extends_wrapped target changed
        refine ⟨_, hf.trans hg, ?_⟩
        intro v hv
        rw [Value.convert, if_neg (hv ▸ hne), if_pos (hv ▸ hrank), hretyped v hv]
        exact conveyed_bind fun w hw => hwrapped w (Value.type_retyped hw)
      · refine ⟨f, hf, ?_⟩
        intro v hv
        rw [Value.convert, if_neg (hv ▸ hne), if_neg (hv ▸ hrank), hretyped v hv]

end Conversions

section Operators

variable {v w : Value} {type : ValueType} {t : NumType} {op : String} {operator : BinaryOp} {a b x : Lowered}
  {place : Position} {c d : Wasm.Value}

lemma operator?_ok (h : operator? type op = some operator) : ∃ t, type.numType? = some t ∧
    ((yieldsTruth op = false ∧ ∃ o, arithOp? op = some o ∧ operator = .arith t o) ∨
      (yieldsTruth op = true ∧ arithOp? op = none ∧ ∃ o, compareOp? op = some o ∧ operator = .compare t o)) := by
  unfold operator? at h
  rw [Option.bind_eq_some_iff] at h
  obtain ⟨t, ht, h⟩ := h
  have hmem := mem_of_lookup h
  simp only [List.mem_cons, Prod.mk.injEq, List.not_mem_nil, or_false] at hmem
  refine ⟨t, ht, ?_⟩
  rcases hmem with ⟨rfl, rfl⟩ | ⟨rfl, rfl⟩ | ⟨rfl, rfl⟩ | ⟨rfl, rfl⟩ | ⟨rfl, rfl⟩ | ⟨rfl, rfl⟩ | ⟨rfl, rfl⟩ |
    ⟨rfl, rfl⟩ | ⟨rfl, rfl⟩ | ⟨rfl, rfl⟩
  iterate 4 exact .inl ⟨rfl, _, rfl, rfl⟩
  iterate 6 exact .inr ⟨rfl, rfl, _, rfl, rfl⟩

lemma commonType_ok {s t : ValueType} (h : commonType s t place = .ok type) :
    s ≠ .void ∧ t ≠ .void ∧ type = wider s t := by
  unfold commonType at h
  split_ifs at h with hvoid hrank
  · cases h
    exact ⟨fun hs => hvoid (.inl hs), fun ht => hvoid (.inr ht), (if_pos hrank).symm⟩
  · cases h
    exact ⟨fun hs => hvoid (.inl hs), fun ht => hvoid (.inr ht), (if_neg hrank).symm⟩

lemma carried_arith {o : ArithOp} (hv : v.type = type) (hw : w.type = type) (ht : type.numType? = some t)
    (hbool : type ≠ .bool) (hc : v.held = some c) (hd : w.held = some d) :
    carried ((BinaryOp.arith t o).apply c d) = conveyed (v.arith o w) := by
  subst hv
  cases v <;> cases w <;> cases hw <;> cases ht <;> cases hc <;> cases hd
  case bool => exact absurd rfl hbool
  case i64 x y => cases h : o.onBits x y <;> simp only [BinaryOp.apply, Value.arith, h] <;> rfl
  case float => rfl
  case double => rfl
  all_goals rename_i x y; cases h : o.onBits x y <;> simp only [BinaryOp.apply, Value.arith, h] <;> rfl

lemma carried_compare {o : CompareOp} (hv : v.type = type) (hw : w.type = type) (ht : type.numType? = some t)
    (hc : v.held = some c) (hd : w.held = some d) :
    carried ((BinaryOp.compare t o).apply c d) = conveyed ((v.compare o w).map Value.ofBool) := by
  subst hv
  cases v <;> cases w <;> cases hw <;> cases ht <;> cases hc <;> cases hd <;> rfl

def Combines (a b : Lowered) (z : Instr) (r : Value → Value → Except Stop Value) : Prop :=
  ∃ (f : Option Wasm.Value → Run Wasm.Value) (g : Wasm.Value → Option Wasm.Value → Run (Option Wasm.Value)),
    (∀ call, z.run call = a.code.run call >>= fun n => f n >>= fun c => b.code.run call >>= g c) ∧
    ∀ v : Value, v.type = a.type → ∃ c, f v.held = pure c ∧
      ∀ w : Value, w.type = b.type → g c w.held = conveyed (r v w)

lemma combines_binary {l r : Lowered} {k : Value → Value → Except Stop Value} (ha : a.type ≠ .void)
    (hb : b.type ≠ .void) (htype : type ≠ .void) (hra : a.type.rank ≤ type.rank) (hrb : b.type.rank ≤ type.rank)
    (hl : coerce a type place = .ok l) (hr : coerce b type place = .ok r)
    (hk : ∀ v w c d, v.type = type → w.type = type → v.held = some c → w.held = some d →
      carried (operator.apply c d) = conveyed (k v w)) :
    Combines a b (.binary operator l.code r.code) fun v w => (v.convert type).bind fun x =>
      (w.convert type).bind (k x) := by
  obtain ⟨-, f, hf, hvf⟩ := extends_coerce hl
  obtain ⟨-, g, hg, hvg⟩ := extends_coerce hr
  refine ⟨fun o => f o >>= Run.operand,
    fun c o => g o >>= fun o => Run.operand o >>= fun d => carried (operator.apply c d), ?_, ?_⟩
  · intro call
    simp only [Instr.run, hf call, hg call, bind_assoc, some_ofExcept]
  · intro v hv
    obtain ⟨x, hx⟩ := Value.convert_widens (v := v) (hv ▸ ha) htype (hv ▸ hra)
    have hxt := Value.type_convert hx
    obtain ⟨c, hc⟩ := exists_held (v := x) (hxt ▸ htype)
    refine ⟨c, ?_, ?_⟩
    · simp only [hvf v hv, hx, conveyed, pure_bind, hc]
      rfl
    · intro w hw
      obtain ⟨y, hy⟩ := Value.convert_widens (v := w) (hw ▸ hb) htype (hw ▸ hrb)
      have hyt := Value.type_convert hy
      obtain ⟨d, hd⟩ := exists_held (v := y) (hyt ▸ htype)
      simp only [hvg w hw, hx, hy, conveyed, pure_bind, hd]
      exact hk x y c d hxt hyt hc hd

section Combines

variable {y z : Instr} {r r' : Value → Value → Except Stop Value}

lemma Combines.congr (h : Combines a b z r)
    (hr : ∀ v w : Value, v.type = a.type → w.type = b.type → r v w = r' v w) : Combines a b z r' := by
  obtain ⟨f, g, hz, hv⟩ := h
  refine ⟨f, g, hz, ?_⟩
  intro v ht
  obtain ⟨c, hc, hw⟩ := hv v ht
  refine ⟨c, hc, ?_⟩
  intro w hu
  rw [hw w hu, hr v w ht hu]

lemma Combines.extend {f : Option Wasm.Value → Run (Option Wasm.Value)} {k : Value → Value} (h : Combines a b y r)
    (hz : Extends y z f) (hk : ∀ v w u : Value, v.type = a.type → w.type = b.type → r v w = .ok u →
      f u.held = pure (k u).held) : Combines a b z fun v w => (r v w).map k := by
  obtain ⟨f', g, hy, hv⟩ := h
  refine ⟨f', fun c o => g c o >>= f, ?_, ?_⟩
  · intro call
    simp only [hz call, hy call, bind_assoc]
  · intro v ht
    obtain ⟨c, hc, hw⟩ := hv v ht
    refine ⟨c, hc, ?_⟩
    intro w hu
    dsimp only
    rw [hw w hu]
    exact conveyed_bind fun u hr => hk v w u ht hu hr

end Combines

lemma Value.type_arith {o : ArithOp} {u : Value} (h : v.arith o w = .ok u) : u.type = v.type := by
  unfold Value.arith at h
  split at h
  case h_5 | h_6 | h_7 =>
    cases h
    try rfl
  all_goals
    obtain ⟨x, -, rfl⟩ := except_map_ok h
    rfl

lemma type_convert_arith {o : ArithOp} {u : Value}
    (h : ((v.convert type).bind fun x => (w.convert type).bind (x.arith o)) = .ok u) : u.type = type := by
  cases hv : v.convert type with
  | error e => simp [hv, Except.bind] at h
  | ok x =>
    cases hw : w.convert type with
    | error e => simp [hv, hw, Except.bind] at h
    | ok y =>
      simp only [hv, hw, Except.bind] at h
      rw [Value.type_arith h, Value.type_convert hv]

lemma compare_combines {l r : Lowered} (hop : yieldsTruth op = true) (htype : commonType a.type b.type place = .ok type)
    (ho : operator? type op = some operator) (hl : coerce a type place = .ok l) (hr : coerce b type place = .ok r) :
    Combines a b (.binary operator l.code r.code) fun v w => (test op v w).map Value.ofBool := by
  obtain ⟨ha, hb, rfl⟩ := commonType_ok htype
  obtain ⟨t, ht, ⟨hyields, -⟩ | ⟨-, -, o, hcompare, rfl⟩⟩ := operator?_ok ho
  · rw [hop] at hyields
    cases hyields
  · have hvoid : wider a.type b.type ≠ .void := by
      intro hw
      rw [hw] at ht
      cases ht
    have hrank := rank_le_wider a.type b.type
    have hbinary := combines_binary (k := fun v w => (v.compare o w).map Value.ofBool) ha hb hvoid hrank.1 hrank.2
      hl hr fun v w c d hv hw hc hd => carried_compare hv hw ht hc hd
    refine hbinary.congr ?_
    intro v w hv hw
    simp only [test, hcompare, hv, hw]
    cases v.convert (wider a.type b.type) with
    | error e => rfl
    | ok x => cases w.convert (wider a.type b.type) <;> rfl

lemma arith_combines {l r : Lowered} (hop : yieldsTruth op = false) (htype : commonType a.type b.type place = .ok type)
    (ho : operator? (numeric type) op = some operator) (hl : coerce a (numeric type) place = .ok l)
    (hr : coerce b (numeric type) place = .ok r) :
    Combines a b (wrapped (numeric type) (.binary operator l.code r.code)) (operate op) ∧
      ∀ v w u, v.type = a.type → w.type = b.type → operate op v w = .ok u → u.type = numeric type := by
  obtain ⟨ha, hb, rfl⟩ := commonType_ok htype
  obtain ⟨t, ht, ⟨-, o, harith, rfl⟩ | ⟨hyields, -⟩⟩ := operator?_ok ho
  · have hvoid : numeric (wider a.type b.type) ≠ .void := by
      intro hw
      rw [hw] at ht
      cases ht
    have hbool : numeric (wider a.type b.type) ≠ .bool := by
      unfold numeric
      split_ifs with hw
      · simp
      · exact hw
    have hrank := rank_le_wider a.type b.type
    have hnumeric := rank_le_numeric (wider a.type b.type)
    have hbinary := combines_binary ha hb hvoid (Int.le_trans hrank.1 hnumeric)
      (Int.le_trans hrank.2 hnumeric)
      hl hr fun v w c d hv hw hc hd => carried_arith (o := o) hv hw ht hbool hc hd
    obtain ⟨f, hf, hwrapped⟩ := extends_wrapped (numeric (wider a.type b.type)) (.binary (.arith t o) l.code r.code)
    have hoperate : ∀ v w : Value, v.type = a.type → w.type = b.type →
        Except.map Value.wrapped ((v.convert (numeric (wider a.type b.type))).bind fun x =>
          (w.convert (numeric (wider a.type b.type))).bind (x.arith o)) = operate op v w := by
      intro v w hv hw
      simp only [operate, harith, hv, hw]
      cases v.convert (numeric (wider a.type b.type)) with
      | error e => rfl
      | ok x => cases w.convert (numeric (wider a.type b.type)) <;> rfl
    refine ⟨(hbinary.extend hf fun v w u _ _ hu => hwrapped u (type_convert_arith hu)).congr hoperate, ?_⟩
    intro v w u hv hw hu
    rw [← hoperate v w hv hw] at hu
    obtain ⟨x, hx, rfl⟩ := except_map_ok hu
    rw [Value.type_wrapped, type_convert_arith hx]
  · rw [hop] at hyields
    cases hyields

lemma comparison_combines {code : Instr} (hop : yieldsTruth op = true) (h : comparison place op a b = .ok code) :
    Combines a b code fun v w => (test op v w).map Value.ofBool := by
  obtain ⟨type, operator, l, r, htype, ho, hl, hr, rfl⟩ := comparison_ok h
  exact compare_combines hop htype ho hl hr

lemma operation_combines (h : operation place op a b = .ok x) : Combines a b x.code (operate op) ∧
    ∀ v w u, v.type = a.type → w.type = b.type → operate op v w = .ok u → u.type = x.type := by
  obtain ⟨wider, type, operator, l, r, hw, htype, ho, hl, hr, rfl⟩ := operation_ok h
  cases hop : yieldsTruth op with
  | true =>
    obtain ⟨t, -, ⟨hyields, -⟩ | ⟨-, harith, -⟩⟩ := operator?_ok ho
    · rw [hop] at hyields
      cases hyields
    · have hoperate : ∀ v w, (test op v w).map Value.ofBool = operate op v w := by
        intro v w
        simp only [operate, harith]
      rw [if_neg (by simp [hop])] at htype
      subst htype
      refine ⟨(compare_combines hop hw ho hl hr).congr fun v w _ _ => hoperate v w, ?_⟩
      intro v w u _ _ hu
      rw [← hoperate v w] at hu
      obtain ⟨b, -, rfl⟩ := except_map_ok hu
      rfl
  | false =>
    have hnumeric : type = numeric wider := by
      rw [htype, numeric]
      simp [hop]
    subst hnumeric
    exact arith_combines hop hw ho hl hr

end Operators

lemma literal_ok {value : Double} {type : ValueType} {place : Position} {x : Lowered}
    (h : literal value type place = .ok x) : ∃ n, x = ⟨.const n, type⟩ ∧ (Value.literal value type).held = some n := by
  unfold literal at h
  split_ifs at h with hvoid
  cases h
  cases type with
  | void => exact absurd rfl hvoid
  | _ => exact ⟨_, rfl, rfl⟩

end Keel.Lowering
