import Keel.Lowering.Program
import Keel.Proofs.Lowering.Assignments
import Keel.Proofs.Syntax.Contexts
import Keel.Proofs.Syntax.Sentences
import Keel.Proofs.Unit.Linking

/-! Why a program that is written as text is refused. -/

namespace Keel

open Precedences (standard)

def CompileError.Expected (xs : List Expr) (e : CompileError) : Prop :=
  match e.cause with
  | .conditionList | .unknownOperator _ | .unknownComparison _ | .representation _ _ => False
  | .noTarget => ∃ place lhs rhs, .binary place "=" lhs rhs ∈ xs ∧ lhs.isReference = false ∧ e.position = some place
  | _ => True

namespace Lowering

variable {α β : Type} {P : CompileError → Prop} {xs : List Expr} {e : CompileError} {place : Position}

def Refuses (P : CompileError → Prop) (x : Lower α) : Prop := ∀ ⦃s e⦄, x s = .error e → P e

namespace Lower

lemma refuses_pure (a : α) : Refuses P (pure a : Lower α) := fun _ _ h => nomatch h

lemma refuses_bind {x : Lower α} {f : α → Lower β} (hx : Refuses P x)
    (hf : ∀ ⦃s t a⦄, x s = .ok (a, t) → Refuses P (f a)) : Refuses P (x >>= f) := by
  intro s e h
  simp only [bind, StateT.bind, Except.bind] at h
  cases hr : x s with
  | error e' =>
    rw [hr] at h
    cases h
    exact hx hr
  | ok r =>
    rw [hr] at h
    exact hf hr h

lemma refuses_get {f : State → Lower β} (hf : ∀ s, Refuses P (f s)) : Refuses P (get >>= f) :=
  fun s _ h => hf s h

lemma refuses_fail {cause : CompileCause} (h : P ⟨cause, some place⟩) : Refuses P (fail cause place : Lower α) := by
  intro s e he
  cases he
  exact h

lemma refuses_lift {x : Except CompileError α} (hx : ∀ e, x = .error e → P e) : Refuses P (liftM x : Lower α) := by
  intro s e h
  cases x with
  | error e' =>
    cases h
    exact hx _ rfl
  | ok a => cases h

lemma refuses_modify {f : State → State} : Refuses P (modify f : Lower Unit) := fun _ _ h => nomatch h

lemma refuses_internString {value : String} : Refuses P (internString value) := fun _ _ h => nomatch h

lemma refuses_declareLocal {name : String} {type : ValueType} : Refuses P (declareLocal name type) :=
  fun _ _ h => nomatch h

lemma refuses_inScope {scope : Scope} {body : Lower α} (h : Refuses P body) : Refuses P (inScope scope body) := by
  refine refuses_get fun outer => refuses_bind refuses_modify fun _ _ _ _ => ?_
  refine refuses_bind h fun _ _ _ _ => refuses_get fun inner => ?_
  exact refuses_bind refuses_modify fun _ _ _ _ => refuses_pure _

end Lower

open Lower

/-! Conversions and operations. -/

lemma coerce_expected {x : Lowered} {target : ValueType} (h : coerce x target place = .error e) : e.Expected xs := by
  by_cases hvoid : x.type = .void ∨ target = .void
  · unfold coerce at h
    split_ifs at h
    cases h
    trivial
  · obtain ⟨y, hy⟩ := coerce_isOk (x := x) place (not_or.mp hvoid).1 (not_or.mp hvoid).2
    cases hy.symm.trans h

lemma commonType_expected {a b : ValueType} (h : commonType a b place = .error e) : e.Expected xs := by
  unfold commonType at h
  split_ifs at h
  cases h
  trivial

lemma literal_expected {value : Double} {type : ValueType} (h : literal value type place = .error e) :
    e.Expected xs := by
  unfold literal at h
  split_ifs at h
  · cases h
    trivial
  · cases h
    trivial

lemma commonType_type_ne_void {a b type : ValueType} (h : commonType a b place = .ok type) : type ≠ .void := by
  obtain ⟨ha, hb⟩ := commonType_ne_void h
  obtain rfl | rfl := commonType_eq h
  · exact ha
  · exact hb

lemma operator?_isSome {type : ValueType} {op : String} (htype : type ≠ .void) (hop : op ∈ joiningSymbols)
    (hne : op ≠ "=") : ∃ operator, operator? type op = some operator := by
  obtain ⟨t, ht⟩ := exists_numType? htype
  have hcases : op = "=" ∨ op ∈ comparisonSymbols ++ tightSymbols := by simpa [joiningSymbols] using hop
  rw [operator?, ht]
  simp only [comparisonSymbols, tightSymbols, List.cons_append, List.nil_append, List.mem_cons, List.not_mem_nil,
    or_false] at hcases
  rcases hcases with h | rfl | rfl | rfl | rfl | rfl | rfl | rfl | rfl | rfl | rfl
  · exact absurd h hne
  all_goals exact ⟨_, rfl⟩

lemma operation_expected {op : String} {x y : Lowered} (hop : op ∈ joiningSymbols) (hne : op ≠ "=")
    (h : operation place op x y = .error e) : e.Expected xs := by
  unfold operation at h
  obtain h | ⟨wider, hwider, h⟩ := except_bind_error.mp h
  · exact commonType_expected h
  have htype : (if wider = .bool ∧ !yieldsTruth op then .i32 else wider) ≠ .void := by
    split_ifs
    · decide
    · exact commonType_type_ne_void hwider
  obtain ⟨operator, hoperator⟩ := operator?_isSome htype hop hne
  simp only [hoperator] at h
  obtain h | ⟨l, -, h⟩ := except_bind_error.mp h
  · exact coerce_expected h
  obtain h | ⟨r, -, h⟩ := except_bind_error.mp h
  · exact coerce_expected h
  cases h

lemma comparison_expected {op : String} {x y : Lowered} (hop : op ∈ comparisonSymbols)
    (h : comparison place op x y = .error e) : e.Expected xs := by
  unfold comparison at h
  obtain h | ⟨type, htype, h⟩ := except_bind_error.mp h
  · exact commonType_expected h
  obtain ⟨operator, hoperator⟩ := operator?_isSome (commonType_type_ne_void htype)
    (List.mem_append_left tightSymbols (List.mem_cons_of_mem "=" hop)) (by rintro rfl; exact absurd hop (by decide))
  simp only [hoperator] at h
  obtain h | ⟨l, -, h⟩ := except_bind_error.mp h
  · exact coerce_expected h
  obtain h | ⟨r, -, h⟩ := except_bind_error.mp h
  · exact coerce_expected h
  cases h

lemma joined_isSome (first : Wasm.Instr) {rest : List Wasm.Instr} {separators : List String}
    (h : separators.length = rest.length) : ∃ code, joined first rest separators = some code := by
  induction rest generalizing first separators with
  | nil =>
    obtain rfl := List.eq_nil_of_length_eq_zero h
    exact ⟨first, rfl⟩
  | cons next rest ih =>
    obtain ⟨separator, separators, rfl⟩ := List.exists_cons_of_length_eq_add_one h
    rw [joined]
    exact ih _ (Nat.succ.inj h)

lemma joinedConditions_isOk {codes : List Wasm.Instr} {separators : List String}
    (h : separators.length + 1 = codes.length) : ∃ code, joinedConditions place codes separators = .ok code := by
  obtain ⟨first, rest, rfl⟩ := List.exists_cons_of_length_eq_add_one h.symm
  obtain ⟨code, hcode⟩ := joined_isSome first (Nat.succ.inj h)
  exact ⟨code, by rw [joinedConditions, hcode]⟩

/-! Statements and expressions. -/

variable {tables : Tables} {name : String}

lemma conditionList_length {cs : List Condition} {codes : List Wasm.Instr} {s t : State}
    (h : conditionList tables place cs s = .ok (codes, t)) : codes.length = cs.length := by
  induction cs generalizing s t codes with
  | nil =>
    obtain ⟨rfl, -⟩ := conditionList_nil h
    rfl
  | cons c cs ih =>
    obtain ⟨code, u, rest, -, hr, rfl⟩ := conditionList_cons h
    rw [List.length_cons, List.length_cons, ih hr]

lemma refuses_coerce (x : Lowered) (target : ValueType) :
    Refuses (CompileError.Expected xs) (liftM (coerce x target place) : Lower Lowered) :=
  refuses_lift fun _ h => coerce_expected h

lemma refuses_reference : Refuses (CompileError.Expected xs) (reference tables place name) := by
  refine refuses_get fun s => ?_
  split
  · exact refuses_pure _
  · split
    · exact refuses_pure _
    · exact refuses_fail trivial

lemma refuses_assignment {value : Lower Lowered} (h : Refuses (CompileError.Expected xs) value) :
    Refuses (CompileError.Expected xs) (assignment tables place name value) := by
  refine refuses_get fun s => ?_
  split
  · exact refuses_bind h fun _ _ _ _ => refuses_bind (refuses_coerce _ _) fun _ _ _ _ => refuses_pure _
  · split
    · exact refuses_bind h fun _ _ _ _ => refuses_bind (refuses_coerce _ _) fun _ _ _ _ => refuses_pure _
    · exact refuses_fail trivial

lemma refuses_returning (x : Lowered) : Refuses (CompileError.Expected xs) (returning place x) := by
  refine refuses_get fun s => ?_
  dsimp only
  split
  · exact refuses_pure _
  · exact refuses_bind (refuses_coerce _ _) fun _ _ _ _ => refuses_pure _

lemma refuses_call {callee : String} {given : ℕ} {args : List ValueType → Lower (List Wasm.Instr)}
    (h : ∀ types, Refuses (CompileError.Expected xs) (args types)) :
    Refuses (CompileError.Expected xs) (call tables place callee given args) := by
  unfold call
  split
  · exact refuses_fail trivial
  · split
    · exact refuses_fail trivial
    · exact refuses_bind (h _) fun _ _ _ _ => refuses_pure _

-- By induction on the tree. The expressions that an error may point at stay those of the whole program.
mutual

lemma refuses_expression : ∀ (e : Expr) ⦃result context : ValueType⦄, e.WellFormed standard result context →
    e.parts ⊆ xs → Refuses (CompileError.Expected xs) (expression tables e)
  | .number place value type => by
    intro _ _ _ _
    rw [expression]
    exact refuses_lift fun _ h => literal_expected h
  | .reference place name => by
    intro _ _ _ _
    rw [expression]
    exact refuses_reference
  | .binary place op lhs rhs => by
    intro _ _ h hxs
    obtain ⟨⟨power, hpower, _⟩, hlhs, hrhs⟩ := h
    rw [Expr.parts, List.cons_subset, List.append_subset] at hxs
    obtain ⟨hself, hl, hr⟩ := hxs
    by_cases hop : op = "="
    · subst hop
      cases href : lhs.isReference with
      | true =>
        cases lhs with
        | reference target name =>
          simp only [expression, if_pos]
          exact refuses_assignment (refuses_expression rhs hrhs hr)
        | _ => cases href
      | false =>
        rw [expression_noTarget tables href]
        exact refuses_fail ⟨place, lhs, rhs, hself, href, rfl⟩
    · simp only [expression, if_neg hop]
      refine refuses_bind (refuses_expression lhs hlhs hl) fun _ _ _ _ => ?_
      refine refuses_bind (refuses_expression rhs hrhs hr) fun _ _ _ _ => ?_
      exact refuses_lift fun _ h => operation_expected (Precedences.joining_of_find? hpower) hop h
  | .call place callee args => by
    intro _ _ hargs hxs
    rw [expression]
    rw [Expr.parts, List.cons_subset] at hxs
    exact refuses_call fun types => refuses_arguments args hargs hxs.2 types
  | .cast place target value => by
    intro _ _ hvalue hxs
    rw [expression]
    rw [Expr.parts, List.cons_subset] at hxs
    exact refuses_bind (refuses_expression value hvalue hxs.2) fun _ _ _ _ => refuses_coerce _ _
  | .assign place name value => by
    intro _ _ hvalue hxs
    rw [expression]
    rw [Expr.parts, List.cons_subset] at hxs
    exact refuses_assignment (refuses_expression value hvalue hxs.2)
  | .string place value => by
    intro _ _ _ _
    rw [expression]
    exact refuses_bind refuses_internString fun _ _ _ _ => refuses_pure _
  | .conditional place conditions separators body => by
    intro _ _ h hxs
    obtain ⟨_, hlength, _, hconditions, hbody⟩ := h
    rw [expression]
    rw [Expr.parts, List.cons_subset, List.append_subset] at hxs
    obtain ⟨-, hc, hb⟩ := hxs
    refine refuses_bind (refuses_conditionList conditions hconditions hc) fun s t codes hcodes => ?_
    rw [← conditionList_length hcodes] at hlength
    obtain ⟨code, hcode⟩ := joinedConditions_isOk hlength
    rw [hcode]
    refine refuses_bind (refuses_pure code) fun _ _ _ _ => ?_
    exact refuses_bind (refuses_block body hbody hb) fun _ _ _ _ => refuses_pure _
  | .importFile place path => by
    intro _ _ _ _
    rw [expression]
    exact refuses_pure _

lemma refuses_arguments {place : Position} : ∀ (es : List Expr) ⦃result : ValueType⦄,
    Expr.AllWellFormed standard result es →
    Expr.partsOfAll es ⊆ xs → ∀ types, Refuses (CompileError.Expected xs) (arguments tables place es types)
  | [] => by
    intro _ _ _ types
    cases types <;> exact refuses_pure _
  | e :: es => by
    intro _ h hxs types
    obtain ⟨he, hes⟩ := h
    rw [Expr.partsOfAll, List.append_subset] at hxs
    cases types with
    | nil => exact refuses_pure _
    | cons type types =>
      rw [arguments]
      refine refuses_bind (refuses_expression e he hxs.1) fun _ _ _ _ => ?_
      refine refuses_bind (refuses_coerce _ _) fun _ _ _ _ => ?_
      exact refuses_bind (refuses_arguments es hes hxs.2 types) fun _ _ _ _ => refuses_pure _

lemma refuses_condition {place : Position} : ∀ (c : Condition) ⦃result context : ValueType⦄,
    c.WellFormed standard result context →
    c.parts ⊆ xs → Refuses (CompileError.Expected xs) (condition tables place c)
  | .compare lhs op rhs => by
    intro _ _ h hxs
    obtain ⟨hop, hlhs, hrhs⟩ := h
    rw [condition]
    rw [Condition.parts, List.append_subset] at hxs
    refine refuses_bind (refuses_expression lhs hlhs hxs.1) fun _ _ _ _ => ?_
    refine refuses_bind (refuses_expression rhs hrhs hxs.2) fun _ _ _ _ => ?_
    exact refuses_lift fun _ h => comparison_expected hop h

lemma refuses_conditionList {place : Position} : ∀ (cs : List Condition) ⦃result context : ValueType⦄,
    Condition.AllWellFormed standard result context cs → Condition.partsOfAll cs ⊆ xs →
    Refuses (CompileError.Expected xs) (conditionList tables place cs)
  | [] => by
    intro _ _ _ _
    rw [conditionList]
    exact refuses_pure _
  | c :: cs => by
    intro _ _ h hxs
    obtain ⟨hc, hcs⟩ := h
    rw [conditionList]
    rw [Condition.partsOfAll, List.append_subset] at hxs
    refine refuses_bind (refuses_condition c hc hxs.1) fun _ _ _ _ => ?_
    exact refuses_bind (refuses_conditionList cs hcs hxs.2) fun _ _ _ _ => refuses_pure _

lemma refuses_statement : ∀ (st : Stmt) ⦃result : ValueType⦄, st.WellFormed standard result → st.parts ⊆ xs →
    Refuses (CompileError.Expected xs) (statement tables st)
  | .expression value => by
    intro _ h hxs
    obtain ⟨_, hvalue⟩ := h
    rw [statement]
    exact refuses_bind (refuses_expression value hvalue hxs) fun _ _ _ _ => refuses_pure _
  | .call place callee args => by
    intro _ hargs hxs
    rw [statement]
    exact refuses_bind (refuses_call fun types => refuses_arguments args hargs hxs types) fun _ _ _ _ =>
      refuses_pure _
  | .declare place type name value => by
    intro _ hvalue hxs
    rw [statement]
    refine refuses_bind (refuses_expression value hvalue hxs) fun _ _ _ _ => ?_
    refine refuses_bind (refuses_coerce _ _) fun _ _ _ _ => ?_
    exact refuses_bind refuses_declareLocal fun _ _ _ _ => refuses_pure _
  | .function signature types body => by
    intro _ h hxs
    obtain ⟨-, -, hbody⟩ := h
    rw [statement]
    refine refuses_bind (refuses_inScope (refuses_block body hbody hxs)) fun _ _ _ _ => ?_
    exact refuses_bind refuses_modify fun _ _ _ _ => refuses_pure _
  | .prototype _ => by
    intro _ _ _
    rw [statement]
    exact refuses_pure _
  | .ret place value => by
    intro _ hvalue hxs
    rw [statement]
    exact refuses_bind (refuses_expression value hvalue hxs) fun _ _ _ _ => refuses_returning _

lemma refuses_block : ∀ (ss : List Stmt) ⦃result : ValueType⦄, Stmt.AllWellFormed standard result ss →
    Stmt.partsOfAll ss ⊆ xs → Refuses (CompileError.Expected xs) (block tables ss)
  | [] => by
    intro _ _ _
    rw [block]
    exact refuses_pure _
  | st :: ss => by
    intro _ h hxs
    obtain ⟨hst, hss⟩ := h
    rw [block]
    rw [Stmt.partsOfAll, List.append_subset] at hxs
    refine refuses_bind (refuses_statement st hst hxs.1) fun _ _ _ _ => ?_
    exact refuses_bind (refuses_block ss hss hxs.2) fun _ _ _ _ => refuses_pure _

end

lemma refuses_topStatement {st : Stmt} (h : st.WellFormed standard .i32) (hxs : st.parts ⊆ xs) :
    Refuses (CompileError.Expected xs) (topStatement tables st) := by
  cases st with
  | declare place type name value =>
    refine refuses_bind (refuses_expression value h hxs) fun _ _ _ _ => ?_
    exact refuses_bind (refuses_coerce _ _) fun _ _ _ _ => refuses_pure _
  | _ => exact refuses_statement _ h hxs

lemma refuses_topStatements {ss : List Stmt} (h : Stmt.AllWellFormed standard .i32 ss)
    (hxs : Stmt.partsOfAll ss ⊆ xs) : Refuses (CompileError.Expected xs) (topStatements tables ss) := by
  induction ss with
  | nil => exact refuses_pure _
  | cons st ss ih =>
    rw [Stmt.partsOfAll, List.append_subset] at hxs
    refine refuses_bind (refuses_topStatement h.1 hxs.1) fun _ _ _ _ => ?_
    exact refuses_bind (ih h.2 hxs.2) fun _ _ _ _ => refuses_pure _

/-! Tables of functions and of global variables. -/

lemma add_expected {table : FunctionTable} {signature : Signature} {site : Option Position}
    (h : table.add name signature site = .error e) : e.Expected xs := by
  unfold FunctionTable.add at h
  split_ifs at h
  cases h
  trivial

lemma addAll_expected {table inner : FunctionTable} (h : table.addAll inner = .error e) : e.Expected xs := by
  unfold FunctionTable.addAll at h
  induction inner generalizing table with
  | nil => cases h
  | cons entry inner ih =>
    rw [List.foldlM_cons] at h
    obtain h | ⟨table', -, h⟩ := except_bind_error.mp h
    · exact add_expected h
    · exact ih h

mutual

lemma addFunctions_expected : ∀ (st : Stmt) ⦃table : FunctionTable⦄, addFunctions table st = .error e → e.Expected xs
  | .function signature types body => by
    intro table h
    rw [addFunctions] at h
    obtain h | ⟨table', -, h⟩ := except_bind_error.mp h
    · exact add_expected h
    obtain h | ⟨inner, -, h⟩ := except_bind_error.mp h
    · exact functionsOfAll_expected body h
    · exact addAll_expected h
  | .prototype signature => by
    intro table h
    exact add_expected h
  | .expression value => by
    intro table h
    exact addNested_expected value h
  | .call _ _ _ | .declare _ _ _ _ | .ret _ _ => by
    intro table h
    cases h

lemma addNested_expected : ∀ (x : Expr) ⦃table : FunctionTable⦄, addNested table x = .error e → e.Expected xs
  | .conditional _ _ _ body => by
    intro table h
    rw [addNested] at h
    obtain h | ⟨inner, -, h⟩ := except_bind_error.mp h
    · exact functionsOfAll_expected body h
    · exact addAll_expected h
  | .number _ _ _ | .reference _ _ | .binary _ _ _ _ | .call _ _ _ | .cast _ _ _ | .assign _ _ _ | .string _ _
  | .importFile _ _ => by
    intro table h
    cases h

lemma functionsOfAll_expected : ∀ (ss : List Stmt) ⦃table : FunctionTable⦄, functionsOfAll table ss = .error e →
    e.Expected xs
  | [] => by
    intro table h
    cases h
  | st :: ss => by
    intro table h
    rw [functionsOfAll] at h
    obtain h | ⟨table', -, h⟩ := except_bind_error.mp h
    · exact addFunctions_expected st h
    · exact functionsOfAll_expected ss h

end

lemma addGlobal_expected {table : GlobalTable} {st : Stmt} (h : addGlobal table st = .error e) : e.Expected xs := by
  cases st with
  | declare position type name value =>
    rw [addGlobal] at h
    split_ifs at h
    · cases h
      trivial
    · cases h
      trivial
  | _ => cases h

lemma globalTable_expected {p : Program} (h : globalTable p = .error e) : e.Expected xs := by
  unfold globalTable at h
  generalize ([] : GlobalTable) = table at h
  induction p generalizing table with
  | nil => cases h
  | cons st p ih =>
    rw [List.foldlM_cons] at h
    obtain h | ⟨table', -, h⟩ := except_bind_error.mp h
    · exact addGlobal_expected h
    · exact ih _ h

end Lowering

open Lowering

variable {p q : Program} {e : CompileError} {exported : Bool}

lemma compile_expected (hp : p.WellFormed standard) (h : compile p exported = .error e) : e.Expected p.parts := by
  obtain h | ⟨m, -, h⟩ := except_bind_error.mp h
  · obtain h | ⟨functions, -, h⟩ := except_bind_error.mp h
    · exact functionsOfAll_expected p h
    obtain h | ⟨globals, -, h⟩ := except_bind_error.mp h
    · exact globalTable_expected h
    obtain h | ⟨result, -, h⟩ := except_bind_error.mp h
    · exact refuses_topStatements hp (List.Subset.refl _) h
    · cases h
  · split_ifs at h
    · cases h
    · cases h
      trivial

section WellFormed

variable {table : Precedences} {source : String}

lemma Program.WellFormed.append (hp : p.WellFormed table) (hq : q.WellFormed table) :
    Program.WellFormed table (p ++ q) := by
  induction p with
  | nil => exact hq
  | cons st p ih => exact ⟨hp.1, ih hp.2⟩

lemma parseText_wellFormed (h : parseText source table = .ok p) : p.WellFormed table := by
  obtain ⟨tokens, -, hparse⟩ := parseText_ok.mp h
  obtain ⟨t, ht⟩ := Parser.parse_sound hparse
  exact ht.wellFormed

lemma link_wellFormed {host : SourceFiles} {path : String} (h : link host table path source = .ok p) :
    p.WellFormed table := by
  obtain ⟨units, hunits, rfl⟩ := link_ok.mp h
  have hloads := (linkUnits_complete hunits).loads
  clear h hunits
  induction units with
  | nil => trivial
  | cons u units ih =>
    obtain ⟨hu, hrest⟩ := List.forall_mem_cons.mp hloads
    obtain ⟨text, -, hparse⟩ := hu
    exact (parseText_wellFormed hparse).append (ih hrest)

end WellFormed

/-- Compiling what was read from texts meets no malformed tree: an operator is refused only where a `=` has
something else than a variable on its left. -/
theorem compile_refusal {source : String}
    (hp : parseText source .standard = .ok p ∨ ∃ host path, link host .standard path source = .ok p)
    (h : compile p exported = .error e) :
    e.cause ≠ .conditionList ∧ (∀ op, e.cause ≠ .unknownOperator op) ∧ (∀ op, e.cause ≠ .unknownComparison op) ∧
      (∀ source target, e.cause ≠ .representation source target) ∧
      (e.cause.code = .invalidOperator → e.cause = .noTarget ∧ ∃ place lhs rhs,
        .binary place "=" lhs rhs ∈ p.parts ∧ lhs.isReference = false ∧ e.position = some place) := by
  have hwf : p.WellFormed standard := by
    obtain hparse | ⟨host, path, hlink⟩ := hp
    · exact parseText_wellFormed hparse
    · exact link_wellFormed hlink
  have hexpected := compile_expected hwf h
  unfold CompileError.Expected at hexpected
  cases hcause : e.cause with
  | conditionList | unknownOperator | unknownComparison | representation =>
    rw [hcause] at hexpected
    exact hexpected.elim
  | noTarget =>
    rw [hcause] at hexpected
    exact ⟨nofun, nofun, nofun, nofun, fun _ => ⟨rfl, hexpected⟩⟩
  | _ => exact ⟨nofun, nofun, nofun, nofun, nofun⟩

def untargetedFiles : List (String × String) := [("x.keel", "i32 x = 1;\n")]

def untargetedSource : String := "import \"x.keel\";\nif (x < 2 && 1 == x) \x7b (1 + x) = i8(3); \x7d\n"

theorem compile_refusal_untargeted : ∃ p e,
    link (.ofFiles untargetedFiles) .standard "main.keel" untargetedSource = .ok p ∧
      compile p true = .error e ∧ e.cause = .noTarget ∧ ∃ place lhs rhs,
        .binary place "=" lhs rhs ∈ p.parts ∧ lhs.isReference = false ∧ e.position = some place := by
  have hcheck : (match link (.ofFiles untargetedFiles) .standard "main.keel" untargetedSource with
      | .ok p => match compile p true with
        | .ok _ => false
        | .error e => decide (e.cause.code = .invalidOperator)
      | .error _ => false) = true := by decide +kernel
  split at hcheck
  · rename_i p hp
    split at hcheck
    · cases hcheck
    · rename_i e he
      obtain ⟨-, -, -, -, hrefusal⟩ := compile_refusal (.inr ⟨_, _, hp⟩) he
      obtain ⟨hcause, hsite⟩ := hrefusal (of_decide_eq_true hcheck)
      exact ⟨p, e, hp, he, hcause, hsite⟩
  · cases hcheck

end Keel
