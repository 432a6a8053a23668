import Keel.Proofs.Correctness.Programs

namespace Keel

namespace Lowering

open Wasm (Instr)

open scoped List

def CallsListed (functions : FunctionTable) (code : Instr) : Prop :=
  ∀ callee ∈ code.callees, callee ∈ functions.map Prod.fst

def AllCallListed (functions : FunctionTable) (codes : List Instr) : Prop :=
  ∀ callee ∈ Wasm.calleesOf codes, callee ∈ functions.map Prod.fst

section Pieces

variable {functions : FunctionTable} {type : ValueType} {place : Position} {x y : Lowered} {code : Instr}
  {codes : List Instr}

lemma allCallListed_nil : AllCallListed functions [] := fun _ h => nomatch h

lemma AllCallListed.cons (h : CallsListed functions code) (hs : AllCallListed functions codes) :
    AllCallListed functions (code :: codes) :=
  List.forall_mem_append.mpr ⟨h, hs⟩

lemma AllCallListed.call (h : AllCallListed functions codes) {callee : String} {s : Signature}
    (hs : functions.lookup callee = some s) : CallsListed functions (.call callee codes) :=
  List.forall_mem_append.mpr ⟨h, by simpa using ⟨_, mem_of_lookup hs⟩⟩

lemma callees_wrapped (type : ValueType) (code : Instr) : (wrapped type code).callees = code.callees := by
  cases type <;> simp [wrapped, signExtended, i32Const, Instr.callees]

lemma callees_coerce (h : coerce x type place = .ok y) : y.code.callees = x.code.callees := by
  obtain ⟨-, rfl⟩ | ⟨-, m, n, -, -, ⟨-, rfl⟩ | ⟨-, changed, hchanged, rfl⟩⟩ := coerce_ok h
  · rfl
  · simp [nonzero, Instr.callees]
  · have hcallees : changed.callees = x.code.callees := by
      obtain ⟨-, rfl⟩ | ⟨op, -, rfl⟩ := changed?_ok hchanged <;> rfl
    dsimp only
    split_ifs
    · rw [callees_wrapped, hcallees]
    · exact hcallees

lemma CallsListed.coerce (h : CallsListed functions x.code) (hc : coerce x type place = .ok y) :
    CallsListed functions y.code := by
  unfold CallsListed
  rwa [callees_coerce hc]

lemma CallsListed.binary {operator : Wasm.BinaryOp} {a b : Instr} (ha : CallsListed functions a)
    (hb : CallsListed functions b) : CallsListed functions (.binary operator a b) :=
  List.forall_mem_append.mpr ⟨ha, hb⟩

lemma CallsListed.operation {op : String} {a b : Lowered} (ha : CallsListed functions a.code)
    (hb : CallsListed functions b.code) (h : operation place op a b = .ok x) : CallsListed functions x.code := by
  obtain ⟨wider, type, operator, l, r, -, -, -, hl, hr, rfl⟩ := operation_ok h
  have hlr : CallsListed functions (.binary operator l.code r.code) := (ha.coerce hl).binary (hb.coerce hr)
  split_ifs
  · exact hlr
  · unfold CallsListed
    rwa [callees_wrapped]

lemma CallsListed.comparison {op : String} {a b : Lowered} (ha : CallsListed functions a.code)
    (hb : CallsListed functions b.code) (h : comparison place op a b = .ok code) : CallsListed functions code := by
  obtain ⟨type, operator, l, r, -, -, hl, hr, rfl⟩ := comparison_ok h
  exact (ha.coerce hl).binary (hb.coerce hr)

lemma CallsListed.joinedConditions {separators : List String} (hcodes : ∀ c ∈ codes, CallsListed functions c)
    (h : joinedConditions place codes separators = .ok code) : CallsListed functions code := by
  have hchoice : ∀ c x y, CallsListed functions c → CallsListed functions x → CallsListed functions y →
      CallsListed functions (.ifElse c x y) := fun _ _ _ hc hx hy =>
    List.forall_mem_append.mpr ⟨List.forall_mem_append.mpr ⟨hc, hx⟩, hy⟩
  exact joinedConditions_ok hchoice (fun _ _ h => nomatch h) hcodes h

lemma CallsListed.dropped (h : CallsListed functions x.code) : CallsListed functions (dropped x) := by
  unfold Lowering.dropped
  split_ifs
  · exact h
  · exact h

end Pieces

section Code

variable {tables : Tables} {place : Position} {name : String} {s t : State} {x : Lowered} {code : Instr}

lemma reference_callsListed (h : reference tables place name s = .ok (x, t)) :
    CallsListed tables.functions x.code := by
  obtain ⟨-, ⟨v, -, rfl⟩ | ⟨-, type, -, rfl⟩⟩ := reference_ok h <;> exact fun _ h => nomatch h

lemma assignment_callsListed {value : Lower Lowered}
    (hvalue : ∀ y, value s = .ok (y, t) → CallsListed tables.functions y.code)
    (h : assignment tables place name value s = .ok (x, t)) : CallsListed tables.functions x.code := by
  obtain ⟨y, z, hy, ⟨v, -, hz, rfl⟩ | ⟨-, type, -, hz, rfl⟩⟩ := assignment_ok h
  · have hstored : CallsListed tables.functions (.localTee v.index z.code) := (hvalue y hy).coerce hz
    exact hstored
  · have hstored : CallsListed tables.functions (.globalSet name z.code) := (hvalue y hy).coerce hz
    exact AllCallListed.cons hstored fun _ h => nomatch h

lemma returning_callsListed (hx : CallsListed tables.functions x.code)
    (h : returning place x s = .ok (code, t)) : CallsListed tables.functions code := by
  obtain ⟨-, ⟨-, rfl⟩ | ⟨slot, z, -, hz, rfl⟩⟩ := returning_ok h
  · exact AllCallListed.cons (hx.dropped) fun _ h => nomatch h
  · have hstored : CallsListed tables.functions (.localSet slot z.code) := hx.coerce hz
    exact AllCallListed.cons hstored fun _ h => nomatch h

mutual

lemma expression_callsListed : ∀ (e : Expr) ⦃s t : State⦄ ⦃x : Lowered⦄, expression tables e s = .ok (x, t) →
    CallsListed tables.functions x.code
  | .number place value type => by
    intro s t x h
    obtain ⟨n, rfl, -⟩ := literal_ok (expression_number h).1
    exact fun _ h => nomatch h
  | .reference place name => by
    intro s t x h
    rw [expression] at h
    exact reference_callsListed h
  | .binary place op lhs rhs => by
    intro s t x h
    by_cases hop : op = "="
    · obtain ⟨site, name, rfl, ha⟩ := expression_assignment hop h
      exact assignment_callsListed (fun y hy => expression_callsListed rhs hy) ha
    · obtain ⟨a, u, b, ha, hb, ho⟩ := expression_operation hop h
      exact (expression_callsListed lhs ha).operation (expression_callsListed rhs hb) ho
  | .call place callee args => by
    intro s t x h
    rw [expression] at h
    obtain ⟨signature, codes, hs, hn, hc, rfl⟩ := call_ok h
    exact (arguments_callListed args hn.symm hc).call hs
  | .cast place target value => by
    intro s t x h
    obtain ⟨y, hy, hc⟩ := expression_cast h
    exact (expression_callsListed value hy).coerce hc
  | .assign place name value => by
    intro s t x h
    rw [expression] at h
    exact assignment_callsListed (fun y hy => expression_callsListed value hy) h
  | .string place value => by
    intro s t x h
    obtain ⟨rfl, -⟩ := expression_string h
    exact fun _ h => nomatch h
  | .conditional place conditions separators body => by
    intro s t x h
    obtain ⟨codes, u, code, statements, hc, hj, hb, rfl⟩ := expression_conditional h
    have hcode := CallsListed.joinedConditions (conditionList_callsListed conditions hc) hj
    exact List.forall_mem_append.mpr ⟨hcode, block_callListed body hb⟩
  | .importFile place path => by
    intro s t x h
    obtain ⟨rfl, -⟩ := expression_import h
    exact fun _ h => nomatch h

lemma arguments_callListed {place : Position} : ∀ (es : List Expr) ⦃types : List ValueType⦄ ⦃s t : State⦄
    ⦃codes : List Instr⦄, es.length = types.length → arguments tables place es types s = .ok (codes, t) →
    AllCallListed tables.functions codes
  | [] => by
    intro types s t codes _ h
    obtain ⟨rfl, -⟩ := arguments_nil h
    exact allCallListed_nil
  | e :: es => by
    intro types s t codes hn h
    cases types with
    | nil => cases hn
    | cons type types =>
      obtain ⟨y, u, z, rest, hy, hz, hr, rfl⟩ := arguments_cons h
      exact .cons ((expression_callsListed e hy).coerce hz) (arguments_callListed es (Nat.succ.inj hn) hr)

lemma condition_callsListed {place : Position} : ∀ (c : Condition) ⦃s t : State⦄ ⦃code : Instr⦄,
    condition tables place c s = .ok (code, t) → CallsListed tables.functions code
  | .compare lhs op rhs => by
    intro s t code h
    obtain ⟨a, u, b, ha, hb, hc⟩ := condition_compare h
    exact (expression_callsListed lhs ha).comparison (expression_callsListed rhs hb) hc

lemma conditionList_callsListed {place : Position} : ∀ (cs : List Condition) ⦃s t : State⦄ ⦃codes : List Instr⦄,
    conditionList tables place cs s = .ok (codes, t) → ∀ c ∈ codes, CallsListed tables.functions c
  | [] => by
    intro s t codes h
    obtain ⟨rfl, -⟩ := conditionList_nil h
    exact fun _ h => nomatch h
  | c :: cs => by
    intro s t codes h
    obtain ⟨code, u, rest, hc, hr, rfl⟩ := conditionList_cons h
    exact List.forall_mem_cons.mpr ⟨condition_callsListed c hc, conditionList_callsListed cs hr⟩

lemma statement_callsListed : ∀ (st : Stmt) ⦃s t : State⦄ ⦃code : Instr⦄, statement tables st s = .ok (code, t) →
    CallsListed tables.functions code
  | .expression value => by
    intro s t code h
    obtain ⟨y, hy, rfl⟩ := statement_expression h
    exact (expression_callsListed value hy).dropped
  | .call place callee args => by
    intro s t code h
    obtain ⟨y, hy, rfl⟩ := statement_call h
    rw [expression] at hy
    obtain ⟨signature, codes, hs, hn, hc, rfl⟩ := call_ok hy
    exact ((arguments_callListed args hn.symm hc).call hs).dropped
  | .declare place type name value => by
    intro s t code h
    obtain ⟨y, u, z, hy, hz, rfl, -⟩ := statement_declare h
    exact (expression_callsListed value hy).coerce hz
  | .function signature types body => by
    intro s t code h
    obtain ⟨statements, u, -, rfl, -⟩ := statement_function h
    exact fun _ h => nomatch h
  | .prototype signature => by
    intro s t code h
    obtain ⟨rfl, -⟩ := statement_prototype h
    exact fun _ h => nomatch h
  | .ret place value => by
    intro s t code h
    obtain ⟨y, hy, hr⟩ := statement_ret h
    exact returning_callsListed (expression_callsListed value hy) hr

lemma block_callListed : ∀ (ss : List Stmt) ⦃s t : State⦄ ⦃codes : List Instr⦄,
    block tables ss s = .ok (codes, t) → AllCallListed tables.functions codes
  | [] => by
    intro s t codes h
    obtain ⟨rfl, -⟩ := block_nil h
    exact allCallListed_nil
  | st :: ss => by
    intro s t codes h
    obtain ⟨code, u, rest, hc, hr, rfl⟩ := block_cons h
    exact .cons (statement_callsListed st hc) (block_callListed ss hr)

end

lemma topStatements_callListed {p : Program} {codes : List Instr} (h : topStatements tables p s = .ok (codes, t)) :
    AllCallListed tables.functions codes := by
  induction p generalizing s codes with
  | nil =>
    obtain ⟨rfl, -⟩ := topStatements_nil h
    exact allCallListed_nil
  | cons st p ih =>
    obtain ⟨code, u, rest, hc, hr, rfl⟩ := topStatements_cons h
    refine .cons ?_ (ih hr)
    by_cases hglobal : IsGlobal st
    · cases st with
      | declare place type name value =>
        obtain ⟨y, z, hy, hz, rfl⟩ := topStatement_declare hc
        exact (expression_callsListed value hy).coerce hz
      | _ => exact absurd hglobal id
    · rw [topStatement_eq hglobal] at hc
      exact statement_callsListed st hc

lemma Lowers.callsListed {strings : StringTable} {d : Definition} {f : Wasm.Function}
    (h : Lowers tables strings d f) : CallsListed tables.functions f.body := by
  obtain ⟨s, codes, t, hb, -, -, -, rfl⟩ := h
  refine AllCallListed.cons (block_callListed d.body hb) ?_
  cases t.scope.returnSlot <;> exact fun _ h => nomatch h

end Code

end Lowering

end Keel
