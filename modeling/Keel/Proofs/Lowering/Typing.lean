import Keel.Proofs.Lowering.Effects
import Keel.Proofs.Lowering.Signatures
import Keel.Proofs.Syntax.Definitions
import Keel.Proofs.Wasm.Typing

namespace Keel.Lowering

open Wasm

def Lowered.WellTyped (Γ : Context) (labels : Labels) (x : Lowered) : Prop :=
  HasType Γ labels x.code x.type.numType?

section Conversions

variable {Γ : Context} {labels : Labels} {x y : Lowered} {place : Position} {type target : ValueType} {code : Instr}

lemma isSome_numType? (h : type ≠ .void) : type.numType?.isSome := by
  obtain ⟨t, ht⟩ := exists_numType? h
  rw [ht]
  rfl

lemma literal_typed {value : Double} (h : literal value type place = .ok x) : x.WellTyped Γ labels := by
  unfold literal at h
  split_ifs at h with htype
  cases h
  cases type with
  | void => exact absurd rfl htype
  | _ => exact .const _

lemma wrapped_typed (h : HasType Γ labels code type.numType?) : HasType Γ labels (wrapped type code) type.numType? := by
  cases type with
  | i8 => exact .binary (.binary h (.const _)) (.const _)
  | i16 => exact .binary (.binary h (.const _)) (.const _)
  | _ => exact h

lemma changed?_typed {s t : NumType} {changed : Instr} (h : HasType Γ labels code (some s))
    (hchanged : changed? (some s) (some t) code = some changed) : HasType Γ labels changed (some t) := by
  obtain ⟨rfl, rfl⟩ | ⟨op, hop, rfl⟩ := changed?_ok hchanged
  · exact h
  · cases s <;> cases t <;> cases hop <;> exact .convert h

lemma nonzero_typed {t : NumType} (h : HasType Γ labels code (some t)) :
    HasType Γ labels (nonzero t code) (some .i32) := by
  cases t <;> exact .binary h (.const _)

lemma coerce_typed (hx : x.WellTyped Γ labels) (h : coerce x target place = .ok y) :
    y.WellTyped Γ labels ∧ y.type = target := by
  obtain ⟨htype, rfl⟩ | ⟨-, m, n, hm, hn, h⟩ := coerce_ok h
  · exact ⟨hx, htype⟩
  · unfold Lowered.WellTyped at hx ⊢
    rw [hm] at hx
    obtain ⟨rfl, rfl⟩ | ⟨-, changed, hchanged, rfl⟩ := h
    · exact ⟨nonzero_typed hx, rfl⟩
    · have hc : HasType Γ labels changed target.numType? := hn ▸ changed?_typed hx hchanged
      refine ⟨?_, rfl⟩
      dsimp only
      split_ifs
      · exact wrapped_typed hc
      · exact hc

lemma operator?_types {op : String} {operator : BinaryOp} (h : operator? type op = some operator) :
    ∃ t, type.numType? = some t ∧ operator.operandType = t ∧
      operator.resultType = if yieldsTruth op then .i32 else t := by
  unfold operator? at h
  rw [Option.bind_eq_some_iff] at h
  obtain ⟨t, ht, h⟩ := h
  have hmem := mem_of_lookup h
  simp only [List.mem_cons, Prod.mk.injEq, List.not_mem_nil, or_false] at hmem
  refine ⟨t, ht, ?_⟩
  rcases hmem with ⟨rfl, rfl⟩ | ⟨rfl, rfl⟩ | ⟨rfl, rfl⟩ | ⟨rfl, rfl⟩ | ⟨rfl, rfl⟩ | ⟨rfl, rfl⟩ | ⟨rfl, rfl⟩ |
    ⟨rfl, rfl⟩ | ⟨rfl, rfl⟩ | ⟨rfl, rfl⟩ <;> exact ⟨rfl, rfl⟩

lemma binary_typed {op : String} {operator : BinaryOp} (ho : operator? type op = some operator)
    (hx : HasType Γ labels x.code type.numType?) (hy : HasType Γ labels y.code type.numType?) :
    HasType Γ labels (.binary operator x.code y.code) (if yieldsTruth op then some .i32 else type.numType?) := by
  obtain ⟨t, ht, rfl, hresult⟩ := operator?_types ho
  rw [ht] at hx hy ⊢
  have := HasType.binary hx hy
  rw [hresult] at this
  split_ifs at this ⊢ <;> exact this

lemma operation_typed {op : String} {a b : Lowered} (ha : a.WellTyped Γ labels) (hb : b.WellTyped Γ labels)
    (h : operation place op a b = .ok x) : x.WellTyped Γ labels := by
  obtain ⟨wider, type, operator, l, r, -, -, ho, hl, hr, rfl⟩ := operation_ok h
  obtain ⟨hlt, rfl⟩ := coerce_typed ha hl
  obtain ⟨hrt, htype⟩ := coerce_typed hb hr
  unfold Lowered.WellTyped at hlt hrt ⊢
  rw [htype] at hrt
  have hbinary := binary_typed ho hlt hrt
  split_ifs at hbinary ⊢
  · exact hbinary
  · exact wrapped_typed hbinary

lemma comparison_typed {op : String} {a b : Lowered} (hop : yieldsTruth op = true) (ha : a.WellTyped Γ labels)
    (hb : b.WellTyped Γ labels) (h : comparison place op a b = .ok code) : HasType Γ labels code (some .i32) := by
  obtain ⟨type, operator, l, r, -, ho, hl, hr, rfl⟩ := comparison_ok h
  obtain ⟨hlt, rfl⟩ := coerce_typed ha hl
  obtain ⟨hrt, htype⟩ := coerce_typed hb hr
  unfold Lowered.WellTyped at hlt hrt
  rw [htype] at hrt
  have hbinary := binary_typed ho hlt hrt
  rwa [if_pos hop] at hbinary

lemma dropped_typed (hx : x.WellTyped Γ labels) : HasType Γ labels (dropped x) none := by
  unfold dropped Lowered.WellTyped at *
  split_ifs with htype
  · rwa [htype] at hx
  · obtain ⟨t, ht⟩ := exists_numType? htype
    rw [ht] at hx
    exact .drop hx

lemma joinedConditions_typed {codes : List Instr} {separators : List String}
    (hcodes : ∀ c ∈ codes, HasType Γ labels c (some .i32))
    (h : joinedConditions place codes separators = .ok code) : HasType Γ labels code (some .i32) :=
  joinedConditions_ok (fun _ _ _ => .ifElse) (fun _ => .const _) hcodes h

end Conversions

structure Accords (Γ : Context) (tables : Tables) (params : List ResultType) (scope : Scope) : Prop where
  functions : ∀ callee s, tables.functions.lookup callee = some s →
    Γ.functions.lookup callee = some ⟨s.parameters.map ValueType.numType?, s.result.numType?⟩ ∧
      ∀ t ∈ s.parameters, t ≠ .void
  globals : ∀ name type, tables.globals.lookup name = some type →
    ∃ t, type.numType? = some t ∧ Γ.globals.lookup name = some t
  locals : Γ.locals = params ++ scope.vars
  typed : scope.Typed params

section Code

variable {tables : Tables} {Γ : Context} {labels : Labels} {params : List ResultType} {scope : Scope}
  {table : Precedences}

lemma Accords.local_typed (hΓ : Accords Γ tables params scope) {name : String} {v : Local}
    (h : (name, v) ∈ scope.locals) : Γ.locals[v.index]? = some v.type.numType? := by
  rw [hΓ.locals]
  exact hΓ.typed.named _ h

lemma reference_typed (hΓ : Accords Γ tables params scope) {place : Position} {name : String} {s t : State}
    {x : Lowered}
    (h : reference tables place name s = .ok (x, t)) (hw : t.scope.Within scope) : x.WellTyped Γ labels := by
  obtain ⟨rfl, ⟨v, hv, rfl⟩ | ⟨-, type, htype, rfl⟩⟩ := reference_ok h
  · exact .localGet (hΓ.local_typed (hw.lookup hv))
  · obtain ⟨n, hn, hg⟩ := hΓ.globals name type htype
    unfold Lowered.WellTyped
    rw [hn]
    exact .globalGet hg

lemma assignment_typed (hΓ : Accords Γ tables params scope) {place : Position} {name : String} {value : Lower Lowered}
    {s t : State} {x : Lowered} (hs : s.scope.Within scope)
    (hvalue : ∀ y, value s = .ok (y, t) → y.WellTyped Γ labels)
    (h : assignment tables place name value s = .ok (x, t)) : x.WellTyped Γ labels := by
  obtain ⟨y, z, hy, ⟨v, hv, hz, rfl⟩ | ⟨-, type, htype, hz, rfl⟩⟩ := assignment_ok h
  · obtain ⟨hzt, hzv⟩ := coerce_typed (hvalue y hy) hz
    unfold Lowered.WellTyped at hzt ⊢
    rw [hzv] at hzt
    exact .localTee (hΓ.local_typed (hs.lookup hv)) hzt
  · obtain ⟨n, hn, hg⟩ := hΓ.globals name type htype
    obtain ⟨hzt, hzv⟩ := coerce_typed (hvalue y hy) hz
    unfold Lowered.WellTyped at hzt ⊢
    rw [hzv, hn] at hzt
    rw [hn]
    exact .block (.cons (.globalSet hg hzt) (.last (.globalGet hg)))

lemma returning_typed (hΓ : Accords Γ tables params scope) (hlabel : List.lookup endLabel labels = some none)
    {place : Position} {s t : State} {x : Lowered} {code : Instr} (hw : t.scope.Within scope)
    (hx : x.WellTyped Γ labels) (h : returning place x s = .ok (code, t)) : HasType Γ labels code none := by
  obtain ⟨rfl, ⟨-, rfl⟩ | ⟨slot, z, hslot, hz, rfl⟩⟩ := returning_ok h
  · exact .block (.cons (dropped_typed hx) (.last (.br hlabel)))
  · obtain ⟨hzt, hzv⟩ := coerce_typed hx hz
    unfold Lowered.WellTyped at hzt
    rw [hzv, hw.result] at hzt
    rw [hw.returnSlot] at hslot
    have hlocal := hΓ.typed.slot slot hslot
    rw [← hΓ.locals] at hlocal
    exact .block (.cons (.localSet hlocal hzt) (.last (.br hlabel)))

mutual

lemma expression_typed (hΓ : Accords Γ tables params scope) (hlabel : List.lookup endLabel labels = some none) :
    ∀ (e : Expr) ⦃result context : ValueType⦄ ⦃s t : State⦄ ⦃x : Lowered⦄,
    e.Shaped table result context → expression tables e s = .ok (x, t) → t.scope.Within scope →
    x.WellTyped Γ labels
  | .number place value type => by
    intro result context s t x _ h _
    exact literal_typed (expression_number h).1
  | .reference place name => by
    intro result context s t x _ h hw
    rw [expression] at h
    exact reference_typed hΓ h hw
  | .binary place op lhs rhs => by
    intro result context s t x hshape h hw
    by_cases hop : op = "="
    · obtain ⟨site, name, rfl, ha⟩ := expression_assignment hop h
      have hs := (adds_assignment (fun y u hy => adds_expression rhs hy) ha).within.trans hw
      exact assignment_typed hΓ hs (fun y hy => expression_typed hΓ hlabel rhs hshape.2.2 hy hw) ha
    · obtain ⟨a, u, b, ha, hb, ho⟩ := expression_operation hop h
      have hu := (adds_expression rhs hb).within.trans hw
      exact operation_typed (expression_typed hΓ hlabel lhs hshape.2.1 ha hu)
        (expression_typed hΓ hlabel rhs hshape.2.2 hb hw) ho
  | .call place callee args => by
    intro result context s t x hshape h hw
    rw [expression] at h
    obtain ⟨signature, codes, hs, hn, hc, rfl⟩ := call_ok h
    obtain ⟨hfunction, hvoid⟩ := hΓ.functions callee signature hs
    exact .call hfunction (arguments_typed hΓ hlabel args hshape.2 hn.symm hvoid hc hw)
  | .cast place target value => by
    intro result context s t x hshape h hw
    obtain ⟨y, hy, hc⟩ := expression_cast h
    exact (coerce_typed (expression_typed hΓ hlabel value hshape hy hw) hc).1
  | .assign place name value => by
    intro result context s t x hshape h hw
    rw [expression] at h
    have hs := (adds_assignment (fun y u hy => adds_expression value hy) h).within.trans hw
    exact assignment_typed hΓ hs (fun y hy => expression_typed hΓ hlabel value hshape.2 hy hw) h
  | .string place value => by
    intro result context s t x _ h _
    obtain ⟨rfl, -⟩ := expression_string h
    exact .const _
  | .conditional place conditions separators body => by
    intro result context s t x hshape h hw
    obtain ⟨codes, u, code, statements, hc, hj, hb, rfl⟩ := expression_conditional h
    have hu := (adds_block body hb).within.trans hw
    have hcodes := conditionList_typed hΓ hlabel conditions hshape.2.2.1 hc hu
    exact .ifThen (joinedConditions_typed hcodes hj) (.block (block_typed hΓ hlabel body hshape.2.2.2 hb hw))
  | .importFile place path => by
    intro result context s t x _ h _
    obtain ⟨rfl, -⟩ := expression_import h
    exact .nop

lemma arguments_typed (hΓ : Accords Γ tables params scope) (hlabel : List.lookup endLabel labels = some none)
    {place : Position} : ∀ (es : List Expr) ⦃types : List ValueType⦄ ⦃result : ValueType⦄
    ⦃s t : State⦄ ⦃codes : List Instr⦄, Expr.AllShaped table result es → es.length = types.length →
    (∀ type ∈ types, type ≠ .void) → arguments tables place es types s = .ok (codes, t) → t.scope.Within scope →
    ArgumentsHaveTypes Γ labels codes (types.map ValueType.numType?)
  | [] => by
    intro types result s t codes _ hn _ h _
    obtain ⟨rfl, -⟩ := arguments_nil h
    obtain rfl := List.length_eq_zero_iff.mp hn.symm
    exact .nil
  | e :: es => by
    intro types result s t codes hshape hn hvoid h hw
    cases types with
    | nil => cases hn
    | cons type types =>
      obtain ⟨y, u, z, rest, hy, hz, hr, rfl⟩ := arguments_cons h
      have hu := (adds_arguments es (Nat.succ.inj hn) hr).within.trans hw
      obtain ⟨hzt, hzv⟩ := coerce_typed (expression_typed hΓ hlabel e hshape.1 hy hu) hz
      obtain ⟨n, hnum⟩ := exists_numType? (hvoid type (List.mem_cons_self ..))
      unfold Lowered.WellTyped at hzt
      rw [hzv, hnum] at hzt
      rw [List.map_cons, hnum]
      exact .cons hzt (arguments_typed hΓ hlabel es hshape.2 (Nat.succ.inj hn)
        (fun t ht => hvoid t (List.mem_cons_of_mem _ ht)) hr hw)

lemma condition_typed (hΓ : Accords Γ tables params scope) (hlabel : List.lookup endLabel labels = some none)
    {place : Position} : ∀ (c : Condition) ⦃result context : ValueType⦄ ⦃s t : State⦄
    ⦃code : Instr⦄, c.Shaped table result context → condition tables place c s = .ok (code, t) →
    t.scope.Within scope → HasType Γ labels code (some .i32)
  | .compare lhs op rhs => by
    intro result context s t code hshape h hw
    obtain ⟨a, u, b, ha, hb, hc⟩ := condition_compare h
    have hu := (adds_expression rhs hb).within.trans hw
    exact comparison_typed hshape.1 (expression_typed hΓ hlabel lhs hshape.2.1 ha hu)
      (expression_typed hΓ hlabel rhs hshape.2.2 hb hw) hc

lemma conditionList_typed (hΓ : Accords Γ tables params scope) (hlabel : List.lookup endLabel labels = some none)
    {place : Position} : ∀ (cs : List Condition) ⦃result context : ValueType⦄
    ⦃s t : State⦄ ⦃codes : List Instr⦄, Condition.AllShaped table result context cs →
    conditionList tables place cs s = .ok (codes, t) → t.scope.Within scope →
    ∀ code ∈ codes, HasType Γ labels code (some .i32)
  | [] => by
    intro result context s t codes _ h _ code hcode
    obtain ⟨rfl, -⟩ := conditionList_nil h
    cases hcode
  | c :: cs => by
    intro result context s t codes hshape h hw code hcode
    obtain ⟨head, u, rest, hc, hr, rfl⟩ := conditionList_cons h
    have hu := (adds_conditionList cs hr).within.trans hw
    obtain rfl | hcode := List.mem_cons.mp hcode
    · exact condition_typed hΓ hlabel c hshape.1 hc hu
    · exact conditionList_typed hΓ hlabel cs hshape.2 hr hw code hcode

lemma statement_typed (hΓ : Accords Γ tables params scope) (hlabel : List.lookup endLabel labels = some none) :
    ∀ (st : Stmt) ⦃result : ValueType⦄ ⦃s t : State⦄ ⦃code : Instr⦄,
    st.Shaped table result → statement tables st s = .ok (code, t) → t.scope.Within scope →
    HasType Γ labels code none
  | .expression value => by
    intro result s t code hshape h hw
    obtain ⟨y, hy, rfl⟩ := statement_expression h
    exact dropped_typed (expression_typed hΓ hlabel value hshape.2 hy hw)
  | .call place callee args => by
    intro result s t code hshape h hw
    obtain ⟨y, hy, rfl⟩ := statement_call h
    rw [expression] at hy
    obtain ⟨signature, codes, hs, hn, hc, rfl⟩ := call_ok hy
    obtain ⟨hfunction, hvoid⟩ := hΓ.functions callee signature hs
    exact dropped_typed (.call hfunction (arguments_typed hΓ hlabel args hshape.2 hn.symm hvoid hc hw))
  | .declare place type name value => by
    intro result s t code hshape h hw
    obtain ⟨y, u, z, hy, hz, rfl, rfl⟩ := statement_declare h
    have hu := (Scope.within_declare u.scope name type).trans hw
    obtain ⟨hzt, hzv⟩ := coerce_typed (expression_typed hΓ hlabel value hshape.2 hy hu) hz
    unfold Lowered.WellTyped at hzt
    rw [hzv] at hzt
    exact .localSet (hΓ.local_typed hw.declared) hzt
  | .function signature types body => by
    intro result s t code _ h _
    obtain ⟨statements, u, -, rfl, -⟩ := statement_function h
    exact .nop
  | .prototype signature => by
    intro result s t code _ h _
    obtain ⟨rfl, -⟩ := statement_prototype h
    exact .nop
  | .ret place value => by
    intro result s t code hshape h hw
    obtain ⟨y, hy, hr⟩ := statement_ret h
    exact returning_typed hΓ hlabel hw (expression_typed hΓ hlabel value hshape hy hw) hr

lemma block_typed (hΓ : Accords Γ tables params scope) (hlabel : List.lookup endLabel labels = some none) :
    ∀ (ss : List Stmt) ⦃result : ValueType⦄ ⦃s t : State⦄ ⦃codes : List Instr⦄,
    Stmt.AllShaped table result ss → block tables ss s = .ok (codes, t) → t.scope.Within scope →
    SequenceHasType Γ labels codes none
  | [] => by
    intro result s t codes _ h _
    obtain ⟨rfl, -⟩ := block_nil h
    exact .nil
  | st :: ss => by
    intro result s t codes hshape h hw
    obtain ⟨code, u, rest, hc, hr, rfl⟩ := block_cons h
    have hu := (adds_block ss hr).within.trans hw
    exact .push (statement_typed hΓ hlabel st hshape.1 hc hu) (block_typed hΓ hlabel ss hshape.2 hr hw)

end

end Code

end Keel.Lowering
