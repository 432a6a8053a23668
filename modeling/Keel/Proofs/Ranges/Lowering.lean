import Keel.Proofs.Lowering.Programs
import Keel.Proofs.Ranges.Code

namespace Keel

mutual

def Expr.literals : Expr → List (Double × ValueType)
  | .number _ value type => [(value, type)]
  | .reference _ _ | .string _ _ | .importFile _ _ => []
  | .binary _ _ lhs rhs => lhs.literals ++ rhs.literals
  | .call _ _ args => Expr.literalsOfAll args
  | .cast _ _ value | .assign _ _ value => value.literals
  | .conditional _ conditions _ body => Condition.literalsOfAll conditions ++ Stmt.literalsOfAll body

def Expr.literalsOfAll : List Expr → List (Double × ValueType)
  | [] => []
  | e :: es => e.literals ++ Expr.literalsOfAll es

def Condition.literals : Condition → List (Double × ValueType)
  | .compare lhs _ rhs => lhs.literals ++ rhs.literals

def Condition.literalsOfAll : List Condition → List (Double × ValueType)
  | [] => []
  | c :: cs => c.literals ++ Condition.literalsOfAll cs

def Stmt.literals : Stmt → List (Double × ValueType)
  | .expression value | .declare _ _ _ value | .ret _ value => value.literals
  | .call _ _ args => Expr.literalsOfAll args
  | .function _ _ _ | .prototype _ => []

def Stmt.literalsOfAll : List Stmt → List (Double × ValueType)
  | [] => []
  | s :: ss => s.literals ++ Stmt.literalsOfAll ss

end

def Program.literals (p : Program) : List (Double × ValueType) :=
  Stmt.literalsOfAll p ++ p.definitions.flatMap fun d => Stmt.literalsOfAll d.body

namespace Ranges

open Lowering
open Wasm (Instr NumType Conversion)

/-- A literal of type `bool` stands for zero or one. -/
def IsTruth (l : Double × ValueType) : Prop := l.2 = .bool → l.1.toBits 32 = 0 ∨ l.1.toBits 32 = 1

instance (l : Double × ValueType) : Decidable (IsTruth l) :=
  inferInstanceAs (Decidable (l.2 = .bool → l.1.toBits 32 = 0 ∨ l.1.toBits 32 = 1))

def Lowered.Ranged (p : Program) (types : List ValueType) (x : Lowered) : Prop := HasRange p types x.code x.type

section Conversions

variable {p : Program} {types : List ValueType} {type target : ValueType} {t m n : NumType} {code : Instr}
  {x y : Lowered} {place : Position}

lemma literal_inRange {value : Double} (htruth : IsTruth (value, type)) :
    InRange type (Semantics.Value.literal value type).held := by
  cases type with
  | i8 => exact inRange_signExtend rfl _
  | i16 => exact inRange_signExtend rfl _
  | bool =>
    have hbits : value.toBits 32 = 0 ∨ value.toBits 32 = 1 := htruth rfl
    simp only [Semantics.Value.literal, Semantics.Value.held]
    obtain hbits | hbits := hbits <;> rw [hbits] <;> decide
  | i32 => exact inRange_full (.i32 _)
  | _ => rfl

lemma literal_ranged {value : Double} (htruth : IsTruth (value, type)) (h : literal value type place = .ok x) :
    Lowered.Ranged p types x := by
  obtain ⟨n, rfl, hn⟩ := literal_ok h
  have hrange := literal_inRange htruth
  rw [hn] at hrange
  exact .const hrange

lemma wrapped_ranged (ht : target.numType? = some t) (hbool : target ≠ .bool) (h : HasRange p types code (full t)) :
    HasRange p types (wrapped target code) target := by
  cases target with
  | void => cases ht
  | bool => exact absurd rfl hbool
  | i8 => exact .shifted rfl (.binary h (.const (inRange_full (.i32 _))))
  | i16 => exact .shifted rfl (.binary h (.const (inRange_full (.i32 _))))
  | _ =>
    cases ht
    exact h

lemma changed?_ranged {changed : Instr} (hm : type.numType? = some m) (h : HasRange p types code type)
    (hchanged : changed? (some m) (some n) code = some changed) : HasRange p types changed (full n) := by
  obtain ⟨rfl, rfl⟩ | ⟨op, hop, rfl⟩ := changed?_ok hchanged
  · exact .widen h (narrower_full hm)
  · obtain rfl : op.targetType = n := by cases m <;> cases n <;> cases hop <;> rfl
    exact .convert h

lemma changed?_widens {changed : Instr} (hm : type.numType? = some m) (hn : target.numType? = some n)
    (hrank : type.rank ≤ target.rank) (h : HasRange p types code type)
    (hchanged : changed? (some m) (some n) code = some changed) : HasRange p types changed target := by
  obtain ⟨rfl, rfl⟩ | ⟨op, hop, -⟩ := changed?_ok hchanged
  · exact .widen h ⟨hm.trans hn.symm, hrank⟩
  · have hfull : full n = target := by
      cases type <;> cases hm <;> cases target <;> cases hn <;>
        first | rfl | exact absurd hrank (by decide) | exact nomatch hop
    rw [← hfull]
    exact changed?_ranged hm h hchanged

lemma nonzero_ranged (h : HasRange p types code type) : HasRange p types (nonzero t code) .bool :=
  .compare h (.const (inRange_full _))

lemma coerce_ranged (hx : Lowered.Ranged p types x) (h : coerce x target place = .ok y) :
    HasRange p types y.code target ∧ y.type = target := by
  obtain ⟨rfl, rfl⟩ | ⟨-, m, n, hm, hn, h⟩ := coerce_ok h
  · exact ⟨hx, rfl⟩
  · obtain ⟨rfl, rfl⟩ | ⟨hbool, changed, hchanged, rfl⟩ := h
    · exact ⟨nonzero_ranged hx, rfl⟩
    · refine ⟨?_, rfl⟩
      dsimp only
      split_ifs with hrank
      · exact wrapped_ranged hn hbool (changed?_ranged hm hx hchanged)
      · exact changed?_widens hm hn (Int.not_lt.mp hrank) hx hchanged

lemma operation_ranged {op : String} {a b : Lowered} (ha : Lowered.Ranged p types a) (hb : Lowered.Ranged p types b)
    (h : operation place op a b = .ok x) : Lowered.Ranged p types x := by
  obtain ⟨wider, type, operator, l, r, -, htype, ho, hl, hr, rfl⟩ := operation_ok h
  obtain ⟨hlr, -⟩ := coerce_ranged ha hl
  obtain ⟨hrr, -⟩ := coerce_ranged hb hr
  obtain ⟨t, ht, ⟨hop, o, -, rfl⟩ | ⟨hop, -, o, -, rfl⟩⟩ := operator?_ok ho
  · rw [if_neg (by simp [hop])]
    have hbool : type ≠ .bool := by
      rw [htype]
      split_ifs with hwider
      · decide
      · exact fun h => hwider ⟨h, by simp [hop]⟩
    exact wrapped_ranged ht hbool (.binary hlr hrr)
  · rw [if_pos hop]
    exact .compare hlr hrr

lemma comparison_ranged {op : String} {a b : Lowered} (ha : Lowered.Ranged p types a) (hb : Lowered.Ranged p types b)
    (h : comparison place op a b = .ok code) : IsCondition p types code := by
  obtain ⟨type, operator, l, r, -, -, hl, hr, rfl⟩ := comparison_ok h
  exact .single (.binary (coerce_ranged ha hl).1 (coerce_ranged hb hr).1)

lemma dropped_ranged (hx : Lowered.Ranged p types x) : HasRange p types (dropped x) .void := by
  unfold dropped Lowered.Ranged at *
  split_ifs with htype
  · rwa [htype] at hx
  · exact .drop hx

lemma joinedConditions_ranged {codes : List Instr} {separators : List String}
    (hcodes : ∀ c ∈ codes, IsCondition p types c) (h : joinedConditions place codes separators = .ok code) :
    IsCondition p types code :=
  joinedConditions_ok (fun _ _ _ => .choice) (fun _ => .single (.const (inRange_full (.i32 _)))) hcodes h

end Conversions

structure Places (p : Program) (tables : Tables) (scope : Scope) (types : List ValueType) : Prop where
  functions : functionTable p = .ok tables.functions
  globals : globalTable p = .ok tables.globals
  named : ∀ b ∈ scope.locals, types[b.2.index]? = some b.2.type
  slot : ∀ i, scope.returnSlot = some i → types[i]? = some scope.result

section Code

variable {p : Program} {tables : Tables} {scope : Scope} {types : List ValueType} {place : Position} {name : String}
  {s t : State} {x : Lowered} {code : Instr}

lemma Places.global (hplaces : Places p tables scope types) {type : ValueType}
    (h : tables.globals.lookup name = some type) :
    p.globals.lookup name = some type := by
  rwa [← (globalTable_ok hplaces.globals).1]

lemma reference_ranged (hplaces : Places p tables scope types) (h : reference tables place name s = .ok (x, t))
    (hw : t.scope.Within scope) :
    Lowered.Ranged p types x := by
  obtain ⟨rfl, ⟨v, hv, rfl⟩ | ⟨-, type, htype, rfl⟩⟩ := reference_ok h
  · exact .localGet (hplaces.named _ (hw.lookup hv))
  · exact .globalGet (hplaces.global htype)

lemma assignment_ranged (hplaces : Places p tables scope types) {value : Lower Lowered} (hs : s.scope.Within scope)
    (hvalue : ∀ y, value s = .ok (y, t) → Lowered.Ranged p types y)
    (h : assignment tables place name value s = .ok (x, t)) : Lowered.Ranged p types x := by
  obtain ⟨y, z, hy, ⟨v, hv, hz, rfl⟩ | ⟨-, type, htype, hz, rfl⟩⟩ := assignment_ok h
  · exact .localTee (hplaces.named _ (hs.lookup hv)) (coerce_ranged (hvalue y hy) hz).1
  · have hname := hplaces.global htype
    exact .block (.cons (.globalSet hname (coerce_ranged (hvalue y hy) hz).1) (.last (.globalGet hname)))

lemma returning_ranged (hplaces : Places p tables scope types) (hw : t.scope.Within scope)
    (hx : Lowered.Ranged p types x)
    (h : returning place x s = .ok (code, t)) : HasRange p types code .void := by
  obtain ⟨rfl, ⟨-, rfl⟩ | ⟨slot, z, hslot, hz, rfl⟩⟩ := returning_ok h
  · exact .block (.cons (dropped_ranged hx) (.last .br))
  · obtain ⟨hzr, -⟩ := coerce_ranged hx hz
    rw [hw.returnSlot] at hslot
    rw [hw.result] at hzr
    exact .block (.cons (.localSet (hplaces.slot slot hslot) hzr) (.last .br))

mutual

lemma expression_ranged (hplaces : Places p tables scope types) : ∀ (e : Expr) ⦃s t : State⦄ ⦃x : Lowered⦄,
    (∀ l ∈ e.literals, IsTruth l) →
    expression tables e s = .ok (x, t) → t.scope.Within scope → Lowered.Ranged p types x
  | .number place value type => by
    intro s t x htruth h _
    exact literal_ranged (htruth _ (List.mem_singleton_self _)) (expression_number h).1
  | .reference place name => by
    intro s t x _ h hw
    rw [expression] at h
    exact reference_ranged hplaces h hw
  | .binary place op lhs rhs => by
    intro s t x htruth h hw
    have hrhs := fun l hl => htruth l (List.mem_append_right _ hl)
    by_cases hop : op = "="
    · obtain ⟨site, name, rfl, ha⟩ := expression_assignment hop h
      have hs := (adds_assignment (fun y u hy => adds_expression rhs hy) ha).within.trans hw
      exact assignment_ranged hplaces hs (fun y hy => expression_ranged hplaces rhs hrhs hy hw) ha
    · obtain ⟨a, u, b, ha, hb, ho⟩ := expression_operation hop h
      have hu := (adds_expression rhs hb).within.trans hw
      have hlhs := fun l hl => htruth l (List.mem_append_left _ hl)
      exact operation_ranged (expression_ranged hplaces lhs hlhs ha hu) (expression_ranged hplaces rhs hrhs hb hw) ho
  | .call place callee args => by
    intro s t x htruth h hw
    rw [expression] at h
    obtain ⟨signature, codes, hs, hn, hc, rfl⟩ := call_ok h
    exact .call ⟨_, hplaces.functions, hs⟩ (arguments_ranged hplaces args htruth hn.symm hc hw)
  | .cast place target value => by
    intro s t x htruth h hw
    obtain ⟨y, hy, hc⟩ := expression_cast h
    obtain ⟨hx, rfl⟩ := coerce_ranged (expression_ranged hplaces value htruth hy hw) hc
    exact hx
  | .assign place name value => by
    intro s t x htruth h hw
    rw [expression] at h
    have hs := (adds_assignment (fun y u hy => adds_expression value hy) h).within.trans hw
    exact assignment_ranged hplaces hs (fun y hy => expression_ranged hplaces value htruth hy hw) h
  | .string place value => by
    intro s t x _ h _
    obtain ⟨rfl, -⟩ := expression_string h
    exact .const (inRange_full (.i32 _))
  | .conditional place conditions separators body => by
    intro s t x htruth h hw
    obtain ⟨codes, u, code, statements, hc, hj, hb, rfl⟩ := expression_conditional h
    have hu := (adds_block body hb).within.trans hw
    have hcodes := conditionList_ranged hplaces conditions (fun l hl => htruth l (List.mem_append_left _ hl)) hc hu
    have hbody := block_ranged hplaces body (fun l hl => htruth l (List.mem_append_right _ hl)) hb hw
    exact .ifThen (joinedConditions_ranged hcodes hj) (.block hbody)
  | .importFile place path => by
    intro s t x _ h _
    obtain ⟨rfl, -⟩ := expression_import h
    exact .nop

lemma arguments_ranged (hplaces : Places p tables scope types) {place : Position} :
    ∀ (es : List Expr) ⦃as : List ValueType⦄ ⦃s t : State⦄
    ⦃codes : List Instr⦄, (∀ l ∈ Expr.literalsOfAll es, IsTruth l) → es.length = as.length →
    arguments tables place es as s = .ok (codes, t) → t.scope.Within scope → ArgumentsHaveRanges p types codes as
  | [] => by
    intro as s t codes _ hn h _
    obtain ⟨rfl, -⟩ := arguments_nil h
    obtain rfl := List.length_eq_zero_iff.mp hn.symm
    exact .nil
  | e :: es => by
    intro as s t codes htruth hn h hw
    cases as with
    | nil => cases hn
    | cons a as =>
      obtain ⟨y, u, z, rest, hy, hz, hr, rfl⟩ := arguments_cons h
      have hu := (adds_arguments es (Nat.succ.inj hn) hr).within.trans hw
      have he := expression_ranged hplaces e (fun l hl => htruth l (List.mem_append_left _ hl)) hy hu
      have hes := arguments_ranged hplaces es (fun l hl => htruth l (List.mem_append_right _ hl))
        (Nat.succ.inj hn) hr hw
      exact .cons (coerce_ranged he hz).1 hes

lemma condition_ranged (hplaces : Places p tables scope types) {place : Position} :
    ∀ (c : Condition) ⦃s t : State⦄ ⦃code : Instr⦄,
    (∀ l ∈ c.literals, IsTruth l) → condition tables place c s = .ok (code, t) → t.scope.Within scope →
    IsCondition p types code
  | .compare lhs op rhs => by
    intro s t code htruth h hw
    obtain ⟨a, u, b, ha, hb, hc⟩ := condition_compare h
    have hu := (adds_expression rhs hb).within.trans hw
    have hlhs := expression_ranged hplaces lhs (fun l hl => htruth l (List.mem_append_left _ hl)) ha hu
    have hrhs := expression_ranged hplaces rhs (fun l hl => htruth l (List.mem_append_right _ hl)) hb hw
    exact comparison_ranged hlhs hrhs hc

lemma conditionList_ranged (hplaces : Places p tables scope types) {place : Position} :
    ∀ (cs : List Condition) ⦃s t : State⦄ ⦃codes : List Instr⦄,
    (∀ l ∈ Condition.literalsOfAll cs, IsTruth l) → conditionList tables place cs s = .ok (codes, t) →
    t.scope.Within scope → ∀ code ∈ codes, IsCondition p types code
  | [] => by
    intro s t codes _ h _ code hcode
    obtain ⟨rfl, -⟩ := conditionList_nil h
    cases hcode
  | c :: cs => by
    intro s t codes htruth h hw code hcode
    obtain ⟨head, u, rest, hc, hr, rfl⟩ := conditionList_cons h
    have hu := (adds_conditionList cs hr).within.trans hw
    obtain rfl | hcode := List.mem_cons.mp hcode
    · exact condition_ranged hplaces c (fun l hl => htruth l (List.mem_append_left _ hl)) hc hu
    · exact conditionList_ranged hplaces cs (fun l hl => htruth l (List.mem_append_right _ hl)) hr hw code hcode

lemma statement_ranged (hplaces : Places p tables scope types) : ∀ (st : Stmt) ⦃s t : State⦄ ⦃code : Instr⦄,
    (∀ l ∈ st.literals, IsTruth l) →
    statement tables st s = .ok (code, t) → t.scope.Within scope → HasRange p types code .void
  | .expression value => by
    intro s t code htruth h hw
    obtain ⟨y, hy, rfl⟩ := statement_expression h
    exact dropped_ranged (expression_ranged hplaces value htruth hy hw)
  | .call place callee args => by
    intro s t code htruth h hw
    obtain ⟨y, hy, rfl⟩ := statement_call h
    rw [expression] at hy
    obtain ⟨signature, codes, hs, hn, hc, rfl⟩ := call_ok hy
    exact dropped_ranged (.call ⟨_, hplaces.functions, hs⟩ (arguments_ranged hplaces args htruth hn.symm hc hw))
  | .declare place type name value => by
    intro s t code htruth h hw
    obtain ⟨y, u, z, hy, hz, rfl, rfl⟩ := statement_declare h
    have hu := (Scope.within_declare u.scope name type).trans hw
    exact .localSet (hplaces.named _ hw.declared) (coerce_ranged (expression_ranged hplaces value htruth hy hu) hz).1
  | .function signature types body => by
    intro s t code _ h _
    obtain ⟨statements, u, -, rfl, -⟩ := statement_function h
    exact .nop
  | .prototype signature => by
    intro s t code _ h _
    obtain ⟨rfl, -⟩ := statement_prototype h
    exact .nop
  | .ret place value => by
    intro s t code htruth h hw
    obtain ⟨y, hy, hr⟩ := statement_ret h
    exact returning_ranged hplaces hw (expression_ranged hplaces value htruth hy hw) hr

lemma block_ranged (hplaces : Places p tables scope types) : ∀ (ss : List Stmt) ⦃s t : State⦄ ⦃codes : List Instr⦄,
    (∀ l ∈ Stmt.literalsOfAll ss, IsTruth l) → block tables ss s = .ok (codes, t) → t.scope.Within scope →
    SequenceHasRange p types codes .void
  | [] => by
    intro s t codes _ h _
    obtain ⟨rfl, -⟩ := block_nil h
    exact .nil
  | st :: ss => by
    intro s t codes htruth h hw
    obtain ⟨code, u, rest, hc, hr, rfl⟩ := block_cons h
    have hu := (adds_block ss hr).within.trans hw
    have hst := statement_ranged hplaces st (fun l hl => htruth l (List.mem_append_left _ hl)) hc hu
    exact .push hst (block_ranged hplaces ss (fun l hl => htruth l (List.mem_append_right _ hl)) hr hw)

end

end Code

end Ranges

end Keel
