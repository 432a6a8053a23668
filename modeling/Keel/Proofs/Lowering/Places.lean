import Keel.Lowering.Program
import Keel.Proofs.Lowering.Inversion
import Keel.Proofs.Syntax.Places

namespace Keel

def CompileError.unplaced (e : CompileError) : CompileError := { e with position := e.position.map fun _ => .start }

namespace Lowering

open Wasm (Instr)

section Results

variable {α β : Type}

def unplaced (x : Except CompileError α) : Except CompileError α := x.mapError CompileError.unplaced

lemma unplaced_bind (x : Except CompileError α) (f : α → Except CompileError β) :
    unplaced (x >>= f) = unplaced x >>= fun a => unplaced (f a) := by
  cases x <;> rfl

lemma unplaced_ite {c : Prop} [Decidable c] (x y : Except CompileError α) :
    unplaced (if c then x else y) = if c then unplaced x else unplaced y := by
  split_ifs <;> rfl

end Results

section Tables

lemma add_unplaced (table : FunctionTable) (name : String) (s : Signature) (place : Option Position) :
    table.add name s (place.map fun _ => .start) = unplaced (table.add name s place) := by
  unfold FunctionTable.add
  split_ifs <;> rfl

lemma addPrototype_unplaced (table : FunctionTable) (p : Prototype) :
    table.addPrototype (p.mapped unplacing) = unplaced (table.addPrototype p) := by
  rw [Prototype.mapped_unplacing]
  exact add_unplaced table p.name ⟨p.parameterTypes, p.result⟩ (some p.position)

lemma addAll_unplaced (table inner : FunctionTable) : unplaced (table.addAll inner) = table.addAll inner := by
  unfold FunctionTable.addAll
  induction inner generalizing table with
  | nil => rfl
  | cons e inner ih =>
    rw [List.foldlM_cons, unplaced_bind, ← add_unplaced]
    congr 1
    funext t
    exact ih t

mutual

lemma addFunctions_unplaced : ∀ (st : Stmt) (table : FunctionTable),
    addFunctions table (st.mapped unplacing) = unplaced (addFunctions table st)
  | .function signature types body, table => by
    rw [Stmt.mapped, addFunctions, addFunctions, addPrototype_unplaced, functionsOfAll_unplaced body, unplaced_bind]
    congr 1
    funext t
    rw [unplaced_bind]
    congr 1
    funext inner
    exact (addAll_unplaced t inner).symm
  | .prototype signature, table => addPrototype_unplaced table signature
  | .expression value, table => addNested_unplaced value table
  | .call _ _ _, table | .declare _ _ _ _, table | .ret _ _, table => rfl

lemma addNested_unplaced : ∀ (e : Expr) (table : FunctionTable),
    addNested table (e.mapped unplacing) = unplaced (addNested table e)
  | .conditional _ _ _ body, table => by
    rw [Expr.mapped, addNested, addNested, functionsOfAll_unplaced body, unplaced_bind]
    congr 1
    funext inner
    exact (addAll_unplaced table inner).symm
  | .number _ _ _, _ | .reference _ _, _ | .binary _ _ _ _, _ | .call _ _ _, _ | .cast _ _ _, _ | .assign _ _ _, _
  | .string _ _, _ | .importFile _ _, _ => rfl

lemma functionsOfAll_unplaced : ∀ (ss : List Stmt) (table : FunctionTable),
    functionsOfAll table (Stmt.mappedAll unplacing ss) = unplaced (functionsOfAll table ss)
  | [], _ => rfl
  | st :: ss, table => by
    rw [Stmt.mappedAll, functionsOfAll, functionsOfAll, addFunctions_unplaced st, unplaced_bind]
    congr 1
    funext t
    exact functionsOfAll_unplaced ss t

end

lemma functionTable_unplaced (p : Program) : functionTable p.unplaced = unplaced (functionTable p) :=
  functionsOfAll_unplaced p []

lemma addGlobal_unplaced (table : GlobalTable) (st : Stmt) :
    addGlobal table (st.mapped unplacing) = unplaced (addGlobal table st) := by
  cases st with
  | declare place type name value =>
    simp only [Stmt.mapped, addGlobal, unplaced_ite]
    rfl
  | _ => rfl

lemma globalTable_unplaced (p : Program) : globalTable p.unplaced = unplaced (globalTable p) := by
  unfold globalTable Program.unplaced Program.mapped
  suffices hall : ∀ table : GlobalTable, (Stmt.mappedAll unplacing p).foldlM addGlobal table =
      unplaced (p.foldlM addGlobal table) from hall []
  induction p with
  | nil => exact fun _ => rfl
  | cons st p ih =>
    intro table
    rw [Stmt.mappedAll, List.foldlM_cons, List.foldlM_cons, addGlobal_unplaced, unplaced_bind]
    congr 1
    funext t
    exact ih t

end Tables

section Conversions

variable {x y : Lowered} {type : ValueType}

lemma coerce_unplaced (x : Lowered) (type : ValueType) (place : Position) :
    coerce x type .start = unplaced (coerce x type place) := by
  unfold coerce
  rw [unplaced_ite, unplaced_ite, unplaced_ite]
  cases changed? x.type.numType? type.numType? x.code <;> rfl

lemma commonType_unplaced (a b : ValueType) (place : Position) :
    commonType a b .start = unplaced (commonType a b place) := by
  unfold commonType
  rw [unplaced_ite]
  rfl

lemma literal_unplaced (value : Double) (type : ValueType) (place : Position) :
    literal value type .start = unplaced (literal value type place) := by
  unfold literal
  rw [unplaced_ite, unplaced_ite]
  rfl

lemma operation_unplaced (place : Position) (op : String) (a b : Lowered) :
    operation .start op a b = unplaced (operation place op a b) := by
  unfold operation
  rw [unplaced_bind, commonType_unplaced a.type b.type place]
  congr 1
  funext wider
  dsimp only
  cases operator? (if wider = .bool ∧ !yieldsTruth op then .i32 else wider) op with
  | none => rfl
  | some operator =>
    dsimp only
    rw [unplaced_bind, coerce_unplaced _ _ place]
    congr 1
    funext x
    rw [unplaced_bind, coerce_unplaced _ _ place]
    rfl

lemma comparison_unplaced (place : Position) (op : String) (a b : Lowered) :
    comparison .start op a b = unplaced (comparison place op a b) := by
  unfold comparison
  rw [unplaced_bind, commonType_unplaced a.type b.type place]
  congr 1
  funext type
  cases operator? type op with
  | none => rfl
  | some operator =>
    dsimp only
    rw [unplaced_bind, coerce_unplaced _ _ place]
    congr 1
    funext x
    rw [unplaced_bind, coerce_unplaced _ _ place]
    rfl

lemma joinedConditions_unplaced (place : Position) (codes : List Instr) (separators : List String) :
    joinedConditions .start codes separators = unplaced (joinedConditions place codes separators) := by
  cases codes with
  | nil => rfl
  | cons first rest =>
    simp only [joinedConditions]
    cases joined first rest separators <;> rfl

end Conversions

def Lower.unplaced {α : Type} (x : Lower α) : Lower α := fun s => Lowering.unplaced (x s)

namespace Lower

variable {α β : Type}

lemma unplaced_pure (a : α) : (pure a : Lower α).unplaced = pure a := rfl

lemma unplaced_bind (x : Lower α) (f : α → Lower β) : (x >>= f).unplaced = x.unplaced >>= fun a => (f a).unplaced := by
  funext s
  exact Lowering.unplaced_bind (x s) fun r => f r.1 r.2

lemma unplaced_lift (x : Except CompileError α) :
    (liftM x : Lower α).unplaced = liftM (Lowering.unplaced x) := by
  funext s
  cases x <;> rfl

lemma unplaced_get : (get : Lower State).unplaced = get := rfl

lemma unplaced_internString (value : String) : (internString value).unplaced = internString value := rfl

lemma unplaced_declareLocal (name : String) (type : ValueType) :
    (declareLocal name type).unplaced = declareLocal name type := rfl

lemma unplaced_addFunction (f : Wasm.Function) : (addFunction f).unplaced = addFunction f := rfl

lemma unplaced_inScope (scope : Scope) (body : Lower α) :
    (inScope scope body).unplaced = inScope scope body.unplaced := by
  unfold inScope
  simp only [unplaced_bind, unplaced_get]
  rfl

end Lower

section Code

open Lower

variable (tables : Tables)

lemma reference_unplaced (place : Position) (name : String) :
    reference tables .start name = (reference tables place name).unplaced := by
  unfold reference
  rw [Lower.unplaced_bind]
  congr 1
  funext s
  cases s.scope.locals.lookup name with
  | some v => rfl
  | none => cases tables.globals.lookup name <;> rfl

lemma assignment_unplaced (place : Position) (name : String) (value : Lower Lowered) :
    assignment tables .start name value.unplaced = (assignment tables place name value).unplaced := by
  unfold assignment
  rw [Lower.unplaced_bind]
  congr 1
  funext s
  cases s.scope.locals.lookup name with
  | some v => simp only [Lower.unplaced_bind, unplaced_lift, unplaced_pure, coerce_unplaced _ _ place]
  | none =>
    cases tables.globals.lookup name with
    | some type => simp only [Lower.unplaced_bind, unplaced_lift, unplaced_pure, coerce_unplaced _ _ place]
    | none => rfl

lemma returning_unplaced (place : Position) (x : Lowered) :
    returning .start x = (returning place x).unplaced := by
  unfold returning
  rw [Lower.unplaced_bind]
  congr 1
  funext s
  dsimp only
  cases s.scope.returnSlot with
  | none => rfl
  | some slot => simp only [Lower.unplaced_bind, unplaced_lift, unplaced_pure, coerce_unplaced _ _ place]

lemma call_unplaced (place : Position) (callee : String) (given : Nat) (args : List ValueType → Lower (List Instr)) :
    call tables .start callee given (fun types => (args types).unplaced) =
      (call tables place callee given args).unplaced := by
  unfold call
  cases tables.functions.lookup callee with
  | none => rfl
  | some signature =>
    dsimp only
    split_ifs
    · rfl
    · rw [Lower.unplaced_bind]
      rfl

lemma unplacing_place (place : Position) : unplacing.place place = .start := rfl

lemma length_mappedAll (f : Mapping) (es : List Expr) : (Expr.mappedAll f es).length = es.length := by
  induction es with
  | nil => rfl
  | cons e es ih => rw [Expr.mappedAll, List.length_cons, ih, List.length_cons]

mutual

lemma expression_unplaced : ∀ e : Expr, expression tables (e.mapped unplacing) = (expression tables e).unplaced
  | .number place value type => by
    simp only [Expr.mapped, expression, unplaced_lift, ← literal_unplaced value type place]
    rfl
  | .reference place name => by
    simp only [Expr.mapped, expression]
    exact reference_unplaced tables place name
  | .binary place op lhs rhs => by
    simp only [Expr.mapped, expression]
    split_ifs with hop
    · cases lhs with
      | reference site name =>
        dsimp only [Expr.mapped]
        rw [expression_unplaced rhs]
        exact assignment_unplaced tables place name _
      | _ => rfl
    · simp only [expression_unplaced lhs, expression_unplaced rhs, Lower.unplaced_bind, unplaced_lift,
        ← operation_unplaced place]
      rfl
  | .call place callee args => by
    simp only [Expr.mapped, expression, length_mappedAll]
    rw [← call_unplaced]
    congr 1
    funext types
    exact arguments_unplaced place args types
  | .cast place target value => by
    simp only [Expr.mapped, expression, expression_unplaced value, Lower.unplaced_bind, unplaced_lift,
      ← coerce_unplaced _ _ place]
    rfl
  | .assign place name value => by
    simp only [Expr.mapped, expression, expression_unplaced value]
    exact assignment_unplaced tables place name _
  | .string place value => by
    simp only [Expr.mapped, expression, Lower.unplaced_bind, unplaced_internString, unplaced_pure]
  | .conditional place conditions separators body => by
    simp only [Expr.mapped, expression, unplacing_place, conditionList_unplaced place conditions, block_unplaced body,
      Lower.unplaced_bind, unplaced_lift, unplaced_pure, ← joinedConditions_unplaced place]
  | .importFile place path => rfl

lemma arguments_unplaced (place : Position) : ∀ (es : List Expr) (types : List ValueType),
    arguments tables .start (Expr.mappedAll unplacing es) types = (arguments tables place es types).unplaced
  | [], _ => rfl
  | _ :: _, [] => rfl
  | e :: es, type :: types => by
    simp only [Expr.mappedAll, arguments, expression_unplaced e, arguments_unplaced place es types, Lower.unplaced_bind,
      unplaced_lift, unplaced_pure, ← coerce_unplaced _ _ place]

lemma condition_unplaced (place : Position) : ∀ c : Condition,
    condition tables .start (c.mapped unplacing) = (condition tables place c).unplaced
  | .compare lhs op rhs => by
    simp only [Condition.mapped, condition, expression_unplaced lhs, expression_unplaced rhs, Lower.unplaced_bind,
      unplaced_lift, ← comparison_unplaced place]

lemma conditionList_unplaced (place : Position) : ∀ cs : List Condition,
    conditionList tables .start (Condition.mappedAll unplacing cs) = (conditionList tables place cs).unplaced
  | [] => rfl
  | c :: cs => by
    simp only [Condition.mappedAll, conditionList, condition_unplaced place c, conditionList_unplaced place cs,
      Lower.unplaced_bind, unplaced_pure]

lemma statement_unplaced : ∀ st : Stmt, statement tables (st.mapped unplacing) = (statement tables st).unplaced
  | .expression value => by
    simp only [Stmt.mapped, statement, expression_unplaced value, Lower.unplaced_bind, unplaced_pure]
  | .call place callee args => by
    have hcall := call_unplaced tables place callee args.length (arguments tables place args)
    simp only [Stmt.mapped, statement, length_mappedAll, Lower.unplaced_bind, unplaced_pure, ← hcall]
    congr 2
    funext types
    exact arguments_unplaced place args types
  | .declare place type name value => by
    simp only [Stmt.mapped, statement, expression_unplaced value, Lower.unplaced_bind, unplaced_lift, unplaced_pure,
      unplaced_declareLocal, ← coerce_unplaced _ _ place]
    rfl
  | .function signature types body => by
    have htypes : types.map unplacing.type = types := List.map_id _
    simp only [Stmt.mapped, statement, Prototype.mapped_unplacing, htypes, block_unplaced body, Lower.unplaced_bind,
      unplaced_inScope, unplaced_addFunction, unplaced_pure]
    rfl
  | .prototype _ => rfl
  | .ret place value => by
    simp only [Stmt.mapped, statement, expression_unplaced value, Lower.unplaced_bind, ← returning_unplaced place]
    rfl

lemma block_unplaced : ∀ ss : List Stmt,
    block tables (Stmt.mappedAll unplacing ss) = (block tables ss).unplaced
  | [] => rfl
  | st :: ss => by
    simp only [Stmt.mappedAll, block, statement_unplaced st, block_unplaced ss, Lower.unplaced_bind, unplaced_pure]

end

lemma topStatement_unplaced (st : Stmt) :
    topStatement tables (st.mapped unplacing) = (topStatement tables st).unplaced := by
  cases st with
  | declare place type name value =>
    simp only [Stmt.mapped, topStatement, expression_unplaced, Lower.unplaced_bind, unplaced_lift, unplaced_pure,
      ← coerce_unplaced _ _ place]
    rfl
  | _ => exact statement_unplaced tables _

lemma topStatements_unplaced (p : Program) : topStatements tables p.unplaced = (topStatements tables p).unplaced := by
  unfold Program.unplaced Program.mapped
  induction p with
  | nil => rfl
  | cons st p ih =>
    simp only [Stmt.mappedAll, topStatements, topStatement_unplaced, ih, Lower.unplaced_bind, unplaced_pure]

end Code

end Lowering

open Lowering

lemma hostFunction?_mapped (p : Program) : p.unplaced.filterMap hostFunction? = p.filterMap hostFunction? := by
  unfold Program.unplaced Program.mapped
  rw [mappedAll_eq_map, List.filterMap_map]
  congr 1
  funext st
  cases st with
  | prototype signature =>
    simp only [Function.comp_apply, Stmt.mapped, Prototype.mapped_unplacing]
    rfl
  | _ => rfl

lemma isDefinition_mapped (f : Mapping) (p : Program) : (p.mapped f).all isDefinition = p.all isDefinition := by
  unfold Program.mapped
  rw [mappedAll_eq_map, List.all_map]
  congr 1
  funext st
  cases st <;> rfl

lemma lower_unplaced (p : Program) (exported : Bool) : lower p.unplaced exported = unplaced (lower p exported) := by
  have hstart : ∀ code scope, startFunction p.unplaced code scope = startFunction p code scope := by
    intro code scope
    unfold startFunction
    rw [Program.unplaced, isDefinition_mapped]
  unfold lower
  rw [functionTable_unplaced, unplaced_bind]
  congr 1
  funext functions
  rw [globalTable_unplaced, unplaced_bind]
  congr 1
  funext globals
  rw [topStatements_unplaced, unplaced_bind]
  congr 1
  funext r
  simp only [hostFunction?_mapped, hstart]
  rfl

lemma compile_unplaced (p : Program) (exported : Bool) :
    compile p.unplaced exported = unplaced (compile p exported) := by
  unfold compile
  rw [lower_unplaced, unplaced_bind]
  congr 1
  funext m
  rw [unplaced_ite]
  rfl

lemma compile_of_unplaced {p q : Program} (h : p.unplaced = q.unplaced) (exported : Bool) :
    unplaced (compile p exported) = unplaced (compile q exported) := by
  rw [← compile_unplaced, h, compile_unplaced]

end Keel
