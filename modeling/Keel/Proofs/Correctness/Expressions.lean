import Keel.Proofs.Correctness.Constructs
import Keel.Proofs.Syntax.Shape

namespace Keel.Lowering

open Wasm (Instr Run Stop Caller)
open Semantics

variable {V : Variables} {tables : Tables} {last : Scope} {R : Representation V tables.globals last}
  {layout : StringTable} {hosts : List Prototype} {g : Setting} {call : Caller} {calls : Calls} {table : Precedences}

mutual

lemma expression_simulates (hlink : Linked tables layout hosts g call calls) (hlast : last.Complete) :
    ∀ (e : Expr) ⦃result context : ValueType⦄ ⦃s t : State⦄ ⦃x : Lowered⦄,
    e.Shaped table result context → expression tables e s = .ok (x, t) → t.scope.Within last →
    t.strings.Within layout →
    Simulates (Leaves tables.globals hosts last) (Agree R hosts s.scope) (x.code.run call)
      (evaluate V g calls last.result e) (Yields R hosts x.type t.scope)
  | .number place value type => by
    intro result context s t x _ h _ _
    obtain ⟨hx, rfl⟩ := expression_number h
    obtain ⟨n, rfl, hn⟩ := literal_ok hx
    intro a st hagree
    exact ⟨hn.symm, Value.type_literal value, hagree⟩
  | .reference place name => by
    intro result context s t x _ h hw _
    rw [expression] at h
    exact reference_simulates hlink h hw
  | .binary place op lhs rhs => by
    intro result context s t x hshape h hw hl
    by_cases hop : op = "="
    · obtain ⟨site, name, rfl, ha⟩ := expression_assignment hop h
      have hst := (adds_assignment (fun y u hy => adds_expression rhs hy) ha).within
      simp only [evaluate, if_pos hop]
      exact assignment_simulates hlink hlast ha hst hw fun y hy =>
        expression_simulates hlink hlast rhs hshape.2.2 hy hw hl
    · obtain ⟨a, u, b, ha, hb, ho⟩ := expression_operation hop h
      have hu := (adds_expression rhs hb).within.trans hw
      have hlu := (adds_expression rhs hb).strings_within.trans hl
      obtain ⟨hcode, htype⟩ := operation_combines ho
      simp only [evaluate, if_neg hop]
      refine Simulates.combine (o := id) (P := fun v => v.type = x.type) ?_
        (expression_simulates hlink hlast lhs hshape.2.1 ha hu hlu)
        (expression_simulates hlink hlast rhs hshape.2.2 hb hw hl) htype (ends_operate op)
      refine hcode.congr ?_
      intro v w _ _
      cases operate op v w <;> rfl
  | .call place callee args => by
    intro result context s t x hshape h hw hl
    rw [expression] at h
    rw [evaluate]
    refine call_simulates hlink h ?_
    intro types codes hn hc
    exact arguments_simulates hlink hlast args hshape.2 hn.symm hc hw hl
  | .cast place target value => by
    intro result context s t x hshape h hw hl
    obtain ⟨y, hy, hc⟩ := expression_cast h
    have hcast := (expression_simulates hlink hlast value hshape hy hw hl).coerce hc
    rw [evaluate, (extends_coerce hc).1]
    exact hcast
  | .assign place name value => by
    intro result context s t x hshape h hw hl
    rw [expression] at h
    rw [evaluate]
    have hst := (adds_assignment (fun y u hy => adds_expression value hy) h).within
    exact assignment_simulates hlink hlast h hst hw fun y hy => expression_simulates hlink hlast value hshape.2 hy hw hl
  | .string place value => by
    intro result context s t x _ h _ hl
    obtain ⟨rfl, rfl⟩ := expression_string h
    intro a st hagree
    have haddress := hlink.address value _ (hl.lookup (StringTable.lookup_intern _ _))
    refine ⟨?_, rfl, hagree⟩
    rw [haddress, Value.held, BitVec.ofInt_natCast]
  | .conditional place conditions separators body => by
    intro result context s t x hshape h hw hl
    obtain ⟨codes, u, code, statements, hc, hj, hb, rfl⟩ := expression_conditional h
    have hbody := adds_block body hb
    have hu := hbody.within.trans hw
    have hlu := hbody.strings_within.trans hl
    have hcondition := conditions_simulates hlink hlast conditions hshape.2.2.1 hc hj hu hlu
    have hstatements := block_simulates hlink hlast body hshape.2.2.2 hb hw hl
    rw [evaluate]
    refine hcondition.ifThen ?_ ?_
    · rw [Instr.run, catchBranch_none]
      refine hstatements.bind ?_
      rintro n - a st ⟨-, hagree⟩
      exact ⟨rfl, rfl, hagree⟩
    -- A body that is not run declares its variables all the same: the frame skips them.
    · intro a st hagree
      rw [hbody.scope] at hw ⊢
      exact ⟨rfl, rfl, hagree.skip hw⟩
  | .importFile place path => by
    intro result context s t x _ h _ _
    obtain ⟨rfl, rfl⟩ := expression_import h
    intro a st hagree
    exact ⟨rfl, rfl, hagree⟩

lemma arguments_simulates (hlink : Linked tables layout hosts g call calls) (hlast : last.Complete) {place : Position} :
    ∀ (es : List Expr) ⦃types : List ValueType⦄ ⦃result : ValueType⦄
    ⦃s t : State⦄ ⦃codes : List Instr⦄, Expr.AllShaped table result es → es.length = types.length →
    arguments tables place es types s = .ok (codes, t) → t.scope.Within last → t.strings.Within layout →
    Simulates (Leaves tables.globals hosts last) (Agree R hosts s.scope) (Wasm.runArguments call codes)
      (evaluateArguments V g calls last.result es types) (Passes R hosts types t.scope)
  | [] => by
    intro types result s t codes _ hn h _ _
    obtain ⟨rfl, rfl⟩ := arguments_nil h
    obtain rfl := List.length_eq_zero_iff.mp hn.symm
    intro a st hagree
    exact ⟨rfl, rfl, hagree⟩
  | e :: es => by
    intro types result s t codes hshape hn h hw hl
    cases types with
    | nil => cases hn
    | cons type types =>
      obtain ⟨y, u, z, rest, hy, hz, hr, rfl⟩ := arguments_cons h
      have hadds := adds_arguments es (Nat.succ.inj hn) hr
      have he := expression_simulates hlink hlast e hshape.1 hy (hadds.within.trans hw) (hadds.strings_within.trans hl)
      have hes := arguments_simulates hlink hlast es hshape.2 (Nat.succ.inj hn) hr hw hl
      rw [evaluateArguments, Wasm.runArguments, ← bind_assoc (evaluate V g calls last.result e)]
      refine (he.coerce hz).bind ?_
      rintro n v a st ⟨rfl, rfl, hagree⟩
      by_cases hvoid : v = .void
      · subst hvoid
        exact ⟨rfl, trivial, hagree.world⟩
      · obtain ⟨c, hc⟩ := exists_held (mt Value.eq_void hvoid)
        rw [passed, if_neg hvoid, hc]
        refine hes.bind ?_ a st hagree
        rintro ns vs b u ⟨htypes, hheld, hb⟩
        exact ⟨by rw [List.map_cons, htypes], by rw [List.map_cons, List.map_cons, hc, hheld], hb⟩

lemma condition_simulates (hlink : Linked tables layout hosts g call calls) (hlast : last.Complete) {place : Position} :
    ∀ (c : Condition) ⦃result context : ValueType⦄ ⦃s t : State⦄
    ⦃code : Instr⦄, c.Shaped table result context → condition tables place c s = .ok (code, t) →
    t.scope.Within last → t.strings.Within layout →
    Simulates (Leaves tables.globals hosts last) (Agree R hosts s.scope) (code.run call)
      (evaluateCondition V g calls last.result c) (Tells R hosts t.scope)
  | .compare lhs op rhs => by
    intro result context s t code hshape h hw hl
    obtain ⟨a, u, b, ha, hb, hc⟩ := condition_compare h
    have hadds := adds_expression rhs hb
    have hlhs := expression_simulates hlink hlast lhs hshape.2.1 ha (hadds.within.trans hw)
      (hadds.strings_within.trans hl)
    have hrhs := expression_simulates hlink hlast rhs hshape.2.2 hb hw hl
    rw [evaluateCondition]
    refine Simulates.mono (Simulates.combine (P := fun _ => True) (comparison_combines hshape.1 hc) hlhs hrhs
      (fun _ _ _ _ _ _ => trivial) (ends_test op)) (fun _ _ h => h) ?_
    rintro n b a st ⟨hn, -, hagree⟩
    exact ⟨hn, hagree⟩

lemma conditions_simulates (hlink : Linked tables layout hosts g call calls) (hlast : last.Complete)
    {place : Position} : ∀ (cs : List Condition) ⦃result context : ValueType⦄
    ⦃s t : State⦄ ⦃codes : List Instr⦄ ⦃separators : List String⦄ ⦃code : Instr⦄,
    Condition.AllShaped table result context cs → conditionList tables place cs s = .ok (codes, t) →
    joinedConditions place codes separators = .ok code → t.scope.Within last → t.strings.Within layout →
    Simulates (Leaves tables.globals hosts last) (Agree R hosts s.scope) (code.run call)
      (evaluateConditions V g calls last.result cs separators) (Tells R hosts t.scope)
  | [] => by
    intro result context s t codes separators code _ h hj _ _
    obtain ⟨rfl, -⟩ := conditionList_nil h
    cases hj
  | c :: cs => by
    intro result context s t codes separators code hshape h hj hw hl
    obtain ⟨head, u, rest, hc, hr, rfl⟩ := conditionList_cons h
    have hadds := adds_conditionList cs hr
    have hcondition := condition_simulates hlink hlast c hshape.1 hc (hadds.within.trans hw)
      (hadds.strings_within.trans hl)
    rw [evaluateConditions]
    unfold joinedConditions at hj
    dsimp only at hj
    cases hjoin : joined head rest separators with
    | none =>
      rw [hjoin] at hj
      cases hj
    | some joint =>
      rw [hjoin] at hj
      cases hj
      exact rest_simulates hlink hlast cs hshape.2 hr hjoin hw hl hcondition

lemma rest_simulates (hlink : Linked tables layout hosts g call calls) (hlast : last.Complete) {place : Position} :
    ∀ (cs : List Condition) ⦃result context : ValueType⦄
    ⦃s t : State⦄ ⦃codes : List Instr⦄ ⦃separators : List String⦄ ⦃first code : Instr⦄ ⦃f : Eval V.Frame Bool⦄
    ⦃pre : Activation V.Frame → Wasm.State → Prop⦄,
    Condition.AllShaped table result context cs → conditionList tables place cs s = .ok (codes, t) →
    joined first codes separators = some code → t.scope.Within last → t.strings.Within layout →
    Simulates (Leaves tables.globals hosts last) pre (first.run call) f (Tells R hosts s.scope) →
    Simulates (Leaves tables.globals hosts last) pre (code.run call)
      (f >>= fun b => evaluateRest V g calls last.result b cs separators) (Tells R hosts t.scope)
  | [] => by
    intro result context s t codes separators first code f pre _ h hj _ _ hf
    obtain ⟨rfl, rfl⟩ := conditionList_nil h
    cases separators with
    | nil =>
      cases hj
      simp only [evaluateRest, bind_pure]
      exact hf
    | cons => cases hj
  | c :: cs => by
    intro result context s t codes separators first code f pre hshape h hj hw hl hf
    obtain ⟨head, u, rest, hc, hr, rfl⟩ := conditionList_cons h
    cases separators with
    | nil => cases hj
    | cons separator separators =>
      have hadds := adds_conditionList cs hr
      have hu := hadds.within.trans hw
      have hcondition := condition_simulates hlink hlast c hshape.1 hc hu (hadds.strings_within.trans hl)
      have hscope := (adds_condition c hc).scope
      rw [hscope] at hcondition hu
      have hrest := rest_simulates hlink hlast cs hshape.2 hr hj hw hl (hscope ▸ hf.joint hcondition hu)
      have hskip : (f >>= fun b => evaluateRest V g calls last.result b (c :: cs) (separator :: separators)) =
          (f >>= fun b => if b = (separator == "&&") then evaluateCondition V g calls last.result c
            else onFrame (V.skip · (declaredAmong c.entities)) >>= fun _ => pure b) >>=
            fun b => evaluateRest V g calls last.result b cs separators := by
        rw [bind_assoc]
        congr 1
        funext b
        rw [evaluateRest]
        split_ifs
        · rfl
        · simp only [bind_assoc, pure_bind]
      rw [hskip]
      exact hrest

lemma statement_simulates (hlink : Linked tables layout hosts g call calls) (hlast : last.Complete) :
    ∀ (st : Stmt) ⦃result : ValueType⦄ ⦃s t : State⦄ ⦃code : Instr⦄,
    st.Shaped table result → statement tables st s = .ok (code, t) → t.scope.Within last →
    t.strings.Within layout →
    Simulates (Leaves tables.globals hosts last) (Agree R hosts s.scope) (code.run call)
      (execute V g calls last.result st) (Done R hosts t.scope)
  | .expression value => by
    intro result s t code hshape h hw hl
    obtain ⟨y, hy, rfl⟩ := statement_expression h
    rw [execute]
    exact (expression_simulates hlink hlast value hshape.2 hy hw hl).dropped
  | .call place callee args => by
    intro result s t code hshape h hw hl
    obtain ⟨y, hy, rfl⟩ := statement_call h
    rw [expression] at hy
    rw [execute]
    refine (call_simulates hlink hy ?_).dropped
    intro types codes hn hc
    exact arguments_simulates hlink hlast args hshape.2 hn.symm hc hw hl
  | .declare place type name value => by
    intro result s t code hshape h hw hl
    obtain ⟨y, u, z, hy, hz, rfl, rfl⟩ := statement_declare h
    have hu := (Scope.within_declare u.scope name type).trans hw
    rw [execute]
    exact declaration_simulates hlast hz hw (expression_simulates hlink hlast value hshape.2 hy hu hl)
  | .function signature types body => by
    intro result s t code _ h _ _
    obtain ⟨statements, u, -, rfl, rfl⟩ := statement_function h
    rw [execute]
    intro a st hagree
    exact ⟨rfl, hagree⟩
  | .prototype signature => by
    intro result s t code _ h _ _
    obtain ⟨rfl, rfl⟩ := statement_prototype h
    rw [execute]
    intro a st hagree
    exact ⟨rfl, hagree⟩
  | .ret place value => by
    intro result s t code hshape h hw hl
    obtain ⟨y, hy, hr⟩ := statement_ret h
    rw [execute]
    exact returning_simulates hlast hr hw (expression_simulates hlink hlast value hshape hy hw hl)

lemma block_simulates (hlink : Linked tables layout hosts g call calls) (hlast : last.Complete) :
    ∀ (ss : List Stmt) ⦃result : ValueType⦄ ⦃s t : State⦄ ⦃codes : List Instr⦄,
    Stmt.AllShaped table result ss → block tables ss s = .ok (codes, t) → t.scope.Within last →
    t.strings.Within layout →
    Simulates (Leaves tables.globals hosts last) (Agree R hosts s.scope) (Wasm.runSequence call codes)
      (executeAll V g calls last.result ss) (Done R hosts t.scope)
  | [] => by
    intro result s t codes _ h _ _
    obtain ⟨rfl, rfl⟩ := block_nil h
    intro a st hagree
    exact ⟨rfl, hagree⟩
  | st :: ss => by
    intro result s t codes hshape h hw hl
    obtain ⟨code, u, rest, hc, hr, rfl⟩ := block_cons h
    have hadds := adds_block ss hr
    rw [executeAll]
    exact (statement_simulates hlink hlast st hshape.1 hc (hadds.within.trans hw)
      (hadds.strings_within.trans hl)).sequence (block_simulates hlink hlast ss hshape.2 hr hw hl)

end

end Keel.Lowering
