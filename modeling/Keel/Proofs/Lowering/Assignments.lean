import Keel.Proofs.Lowering.Embedding

namespace Keel

def Expr.Targeted : Expr → Prop
  | .binary _ op lhs _ => op = "=" → lhs.isReference = true
  | _ => True

lemma Expr.Targeted.keepsTarget {style : PrintStyle} : ∀ {e : Expr}, e.Targeted → e.KeepsTarget style
  | .binary _ _ _ _, h => fun hop => .inl (h hop)
  | .number _ _ _, _ | .reference _ _, _ | .call _ _ _, _ | .cast _ _ _, _ | .assign _ _ _, _ | .string _ _, _
  | .conditional _ _ _ _, _ | .importFile _ _, _ => trivial

lemma Expr.length_settledAll (es : List Expr) : (Expr.settledAll es).length = es.length := by
  induction es with
  | nil => rfl
  | cons e es ih => rw [Expr.settledAll, List.length_cons, ih, List.length_cons]

lemma Stmt.settledAll_eq_map (ss : List Stmt) : Stmt.settledAll ss = ss.map Stmt.settled := by
  induction ss with
  | nil => rfl
  | cons st ss ih => rw [Stmt.settledAll, ih, List.map_cons]

namespace Lowering

section Tables

mutual

lemma addFunctions_settled : ∀ (st : Stmt) (table : FunctionTable),
    addFunctions table st.settled = addFunctions table st
  | .function _ _ body, table => by
    simp only [Stmt.settled, addFunctions, functionsOfAll_settled body]
  | .expression value, table => addNested_settled value table
  | .prototype _, _ | .call _ _ _, _ | .declare _ _ _ _, _ | .ret _ _, _ => rfl

lemma addNested_settled : ∀ (e : Expr) (table : FunctionTable), addNested table e.settled = addNested table e
  | .conditional _ _ _ body, table => by
    simp only [Expr.settled, addNested, functionsOfAll_settled body]
  | .binary place op lhs rhs, table => by
    by_cases hassign : (Expr.binary place op lhs rhs).IsAssignment
    · cases lhs with
      | reference target name =>
        obtain ⟨rfl, -⟩ := hassign
        rw [Expr.settled_target]
        rfl
      | _ => cases hassign.2
    · rw [Expr.settled_binary hassign]
      rfl
  | .number _ _ _, _ | .reference _ _, _ | .call _ _ _, _ | .cast _ _ _, _ | .assign _ _ _, _ | .string _ _, _
  | .importFile _ _, _ => rfl

lemma functionsOfAll_settled : ∀ (ss : List Stmt) (table : FunctionTable),
    functionsOfAll table (Stmt.settledAll ss) = functionsOfAll table ss
  | [], _ => rfl
  | st :: ss, table => by
    simp only [Stmt.settledAll, functionsOfAll, addFunctions_settled st, functionsOfAll_settled ss]

end

lemma globalTable_settled (p : Program) : globalTable p.settled = globalTable p := by
  unfold globalTable Program.settled
  rw [Stmt.settledAll_eq_map, List.foldlM_map]
  congr 1
  funext table st
  cases st <;> rfl

end Tables

section Code

variable (tables : Tables)

lemma expression_noTarget {place : Position} {lhs rhs : Expr} (h : lhs.isReference = false) :
    expression tables (.binary place "=" lhs rhs) = Lower.fail .noTarget place := by
  cases lhs with
  | reference => cases h
  | _ => simp only [expression, if_pos]

mutual

lemma expression_settled : ∀ e : Expr, expression tables e.settled = expression tables e
  | .binary place op lhs rhs => by
    by_cases hop : op = "="
    · subst hop
      cases href : lhs.isReference with
      | true =>
        cases lhs with
        | reference target name =>
          simp only [Expr.settled_target, expression, if_pos, expression_settled rhs]
        | _ => cases href
      | false =>
        rw [Expr.settled_binary (fun h => by simp [Expr.IsAssignment, href] at h), expression_noTarget tables href,
          expression_noTarget tables (by rw [Expr.isReference_settled, href])]
    · rw [Expr.settled_binary fun h => hop h.1]
      simp only [expression, if_neg hop, expression_settled lhs, expression_settled rhs]
  | .call place callee args => by
    simp only [Expr.settled, expression, Expr.length_settledAll, arguments_settled args]
  | .cast place target value => by
    simp only [Expr.settled, expression, expression_settled value]
  | .assign place name value => by
    simp only [Expr.settled, expression, expression_settled value]
  | .conditional place conditions separators body => by
    simp only [Expr.settled, expression, conditionList_settled conditions, block_settled body]
  | .number _ _ _ | .reference _ _ | .string _ _ | .importFile _ _ => rfl

lemma arguments_settled (es : List Expr) : ∀ place : Position,
    arguments tables place (Expr.settledAll es) = arguments tables place es := by
  match es with
  | [] => exact fun _ => rfl
  | e :: es =>
    intro place
    funext types
    cases types with
    | nil => rfl
    | cons type types => simp only [Expr.settledAll, arguments, expression_settled e, arguments_settled es]

lemma condition_settled : ∀ (c : Condition) (place : Position),
    condition tables place c.settled = condition tables place c
  | .compare lhs op rhs, place => by
    simp only [Condition.settled, condition, expression_settled lhs, expression_settled rhs]

lemma conditionList_settled : ∀ (cs : List Condition) (place : Position),
    conditionList tables place (Condition.settledAll cs) = conditionList tables place cs
  | [], _ => rfl
  | c :: cs, place => by
    simp only [Condition.settledAll, conditionList, condition_settled c, conditionList_settled cs]

lemma statement_settled : ∀ st : Stmt, statement tables st.settled = statement tables st
  | .expression value => by
    simp only [Stmt.settled, statement, expression_settled value]
  | .call place callee args => by
    simp only [Stmt.settled, statement, Expr.length_settledAll, arguments_settled args]
  | .declare place type name value => by
    simp only [Stmt.settled, statement, expression_settled value]
  | .function signature types body => by
    simp only [Stmt.settled, statement, block_settled body]
  | .prototype _ => rfl
  | .ret place value => by
    simp only [Stmt.settled, statement, expression_settled value]

lemma block_settled : ∀ ss : List Stmt, block tables (Stmt.settledAll ss) = block tables ss
  | [] => rfl
  | st :: ss => by
    simp only [Stmt.settledAll, block, statement_settled st, block_settled ss]

end

lemma topStatement_settled (st : Stmt) : topStatement tables st.settled = topStatement tables st := by
  cases st with
  | declare place type name value => simp only [Stmt.settled, topStatement, expression_settled]
  | _ => exact statement_settled tables _

lemma topStatements_settled (p : Program) : topStatements tables p.settled = topStatements tables p := by
  unfold Program.settled
  induction p with
  | nil => rfl
  | cons st p ih => simp only [Stmt.settledAll, topStatements, topStatement_settled, ih]

end Code

lemma expression_targeted {tables : Tables} {e : Expr} {s t : State} {x : Lowered}
    (h : expression tables e s = .ok (x, t)) : e.Targeted := by
  cases e with
  | binary place op lhs rhs =>
    intro hop
    obtain ⟨site, name, rfl, -⟩ := expression_assignment hop h
    rfl
  | _ => trivial

end Lowering

open Lowering

lemma hostFunction?_settled (p : Program) : p.settled.filterMap hostFunction? = p.filterMap hostFunction? := by
  unfold Program.settled
  rw [Stmt.settledAll_eq_map, List.filterMap_map]
  congr 1
  funext st
  cases st <;> rfl

lemma isDefinition_settled (p : Program) : p.settled.all isDefinition = p.all isDefinition := by
  unfold Program.settled
  rw [Stmt.settledAll_eq_map, List.all_map]
  congr 1
  funext st
  cases st <;> rfl

lemma compile_settled (p : Program) (exported : Bool) : compile p.settled exported = compile p exported := by
  have hfunctions : functionTable p.settled = functionTable p := functionsOfAll_settled p []
  have hstart : ∀ code scope, startFunction p.settled code scope = startFunction p code scope := by
    intro code scope
    unfold startFunction
    rw [isDefinition_settled]
  unfold compile lower
  simp only [hfunctions, globalTable_settled, topStatements_settled, hostFunction?_settled, hstart]

lemma compile_targeted {p : Program} {exported : Bool} {m : Wasm.Module} (h : compile p exported = .ok m) :
    ∀ e ∈ p.parts, e.Targeted := by
  obtain ⟨tables, code, s, hm⟩ := lower_ok (compile_ok h).1
  intro e he
  cases href : e.isReference with
  | true =>
    cases e with
    | reference => trivial
    | _ => cases href
  | false =>
    obtain ⟨r, x, u, hx, -⟩ := hm.holds he href
    exact expression_targeted hx

end Keel
