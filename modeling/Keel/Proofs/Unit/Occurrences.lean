import Keel.Proofs.Lowering.Programs
import Keel.Proofs.Syntax.Definitions
import Keel.Proofs.Unit.Linking
import Keel.Unit.Build

/-! Where imports stand in the trees of a program, and which of them the compiler accepts without a file. -/

namespace Keel

/-- An import is a statement, belongs to a value that is used, or to one that a `return` or a cast to
void throws away. -/
inductive Role where
  | statement | value | discarded
  deriving DecidableEq, Repr

def Role.inner : Role → Role
  | statement | value => value
  | discarded => discarded

mutual

def Expr.occurrences (r : Role) : Expr → List (Role × Import)
  | .number _ _ _ | .reference _ _ | .string _ _ => []
  | .binary _ _ lhs rhs => lhs.occurrences r.inner ++ rhs.occurrences r.inner
  | .call _ _ args => Expr.occurrencesOfAll r.inner args
  | .cast _ target value => value.occurrences (if target = .void then .discarded else r.inner)
  | .assign _ _ value => value.occurrences r.inner
  | .conditional _ conditions _ body => Condition.occurrencesOfAll r.inner conditions ++ Stmt.occurrencesOfAll r body
  | .importFile position path => [(r, ⟨position, path⟩)]

def Expr.occurrencesOfAll (r : Role) : List Expr → List (Role × Import)
  | [] => []
  | e :: es => e.occurrences r ++ Expr.occurrencesOfAll r es

def Condition.occurrences (r : Role) : Condition → List (Role × Import)
  | .compare lhs _ rhs => lhs.occurrences r ++ rhs.occurrences r

def Condition.occurrencesOfAll (r : Role) : List Condition → List (Role × Import)
  | [] => []
  | c :: cs => c.occurrences r ++ Condition.occurrencesOfAll r cs

def Stmt.occurrences (r : Role) : Stmt → List (Role × Import)
  | .expression value => value.occurrences r
  | .call _ _ args => Expr.occurrencesOfAll r.inner args
  | .declare _ _ _ value => value.occurrences r.inner
  | .function _ _ body => Stmt.occurrencesOfAll r body
  | .prototype _ => []
  | .ret _ value => value.occurrences .discarded

def Stmt.occurrencesOfAll (r : Role) : List Stmt → List (Role × Import)
  | [] => []
  | s :: ss => s.occurrences r ++ Stmt.occurrencesOfAll r ss

end

def Program.occurrences (p : Program) : List (Role × Import) := Stmt.occurrencesOfAll .statement p

section Statements

variable {r : Role} {o : Role × Import}

lemma Role.inner_ne_statement : r.inner ≠ .statement := by cases r <;> simp [Role.inner]

mutual

lemma Expr.imports_of_occurrences : ∀ (e : Expr) ⦃r : Role⦄, ∀ o ∈ e.occurrences r, o.1 = .statement →
    r = .statement ∧ o.2 ∈ e.imports
  | .number _ _ _ | .reference _ _ | .string _ _ => by
    intro r o ho
    cases ho
  | .binary _ _ lhs rhs => by
    intro r o ho hrole
    rcases List.mem_append.mp ho with ho | ho
    · exact absurd (Expr.imports_of_occurrences lhs o ho hrole).1 Role.inner_ne_statement
    · exact absurd (Expr.imports_of_occurrences rhs o ho hrole).1 Role.inner_ne_statement
  | .call _ _ args => by
    intro r o ho hrole
    exact absurd (Expr.role_of_occurrencesOfAll args o ho hrole) Role.inner_ne_statement
  | .cast _ target value => by
    intro r o ho hrole
    have hr := (Expr.imports_of_occurrences value o ho hrole).1
    split_ifs at hr
    exact absurd hr Role.inner_ne_statement
  | .assign _ _ value => by
    intro r o ho hrole
    exact absurd (Expr.imports_of_occurrences value o ho hrole).1 Role.inner_ne_statement
  | .conditional _ conditions _ body => by
    intro r o ho hrole
    rcases List.mem_append.mp ho with ho | ho
    · exact absurd (Condition.role_of_occurrencesOfAll conditions o ho hrole) Role.inner_ne_statement
    · exact Stmt.imports_of_occurrencesOfAll body o ho hrole
  | .importFile _ _ => by
    intro r o ho hrole
    obtain rfl := List.mem_singleton.mp ho
    exact ⟨hrole, List.mem_singleton.mpr rfl⟩

lemma Expr.role_of_occurrencesOfAll : ∀ (es : List Expr) ⦃r : Role⦄, ∀ o ∈ Expr.occurrencesOfAll r es,
    o.1 = .statement → r = .statement
  | [] => by
    intro r o ho
    cases ho
  | e :: es => by
    intro r o ho hrole
    rcases List.mem_append.mp ho with ho | ho
    · exact (Expr.imports_of_occurrences e o ho hrole).1
    · exact Expr.role_of_occurrencesOfAll es o ho hrole

lemma Condition.role_of_occurrences : ∀ (c : Condition) ⦃r : Role⦄, ∀ o ∈ c.occurrences r,
    o.1 = .statement → r = .statement
  | .compare lhs _ rhs => by
    intro r o ho hrole
    rcases List.mem_append.mp ho with ho | ho
    · exact (Expr.imports_of_occurrences lhs o ho hrole).1
    · exact (Expr.imports_of_occurrences rhs o ho hrole).1

lemma Condition.role_of_occurrencesOfAll : ∀ (cs : List Condition) ⦃r : Role⦄, ∀ o ∈ Condition.occurrencesOfAll r cs,
    o.1 = .statement → r = .statement
  | [] => by
    intro r o ho
    cases ho
  | c :: cs => by
    intro r o ho hrole
    rcases List.mem_append.mp ho with ho | ho
    · exact Condition.role_of_occurrences c o ho hrole
    · exact Condition.role_of_occurrencesOfAll cs o ho hrole

lemma Stmt.imports_of_occurrences : ∀ (st : Stmt) ⦃r : Role⦄, ∀ o ∈ st.occurrences r, o.1 = .statement →
    r = .statement ∧ o.2 ∈ st.imports
  | .expression value => by
    intro r o ho hrole
    exact Expr.imports_of_occurrences value o ho hrole
  | .call _ _ args => by
    intro r o ho hrole
    exact absurd (Expr.role_of_occurrencesOfAll args o ho hrole) Role.inner_ne_statement
  | .declare _ _ _ value => by
    intro r o ho hrole
    exact absurd (Expr.imports_of_occurrences value o ho hrole).1 Role.inner_ne_statement
  | .function _ _ body => by
    intro r o ho hrole
    exact Stmt.imports_of_occurrencesOfAll body o ho hrole
  | .prototype _ => by
    intro r o ho
    cases ho
  | .ret _ value => by
    intro r o ho hrole
    exact absurd (Expr.imports_of_occurrences value o ho hrole).1 (by simp)

lemma Stmt.imports_of_occurrencesOfAll : ∀ (ss : List Stmt) ⦃r : Role⦄, ∀ o ∈ Stmt.occurrencesOfAll r ss,
    o.1 = .statement → r = .statement ∧ o.2 ∈ Stmt.importsOfAll ss
  | [] => by
    intro r o ho
    cases ho
  | st :: ss => by
    intro r o ho hrole
    rcases List.mem_append.mp ho with ho | ho
    · have h := Stmt.imports_of_occurrences st o ho hrole
      exact ⟨h.1, List.mem_append_left _ h.2⟩
    · have h := Stmt.imports_of_occurrencesOfAll ss o ho hrole
      exact ⟨h.1, List.mem_append_right _ h.2⟩

end

end Statements

def Definition.NoVoid (d : Definition) : Prop :=
  (∀ q ∈ d.parameters, q.type ≠ .void) ∧ ∀ v ∈ d.variables, v.2 ≠ .void

namespace Lowering

structure NoVoid (tables : Tables) (scope : Scope) : Prop where
  functions : ∀ callee s, tables.functions.lookup callee = some s → ∀ t ∈ s.parameters, t ≠ .void
  globals : ∀ name type, tables.globals.lookup name = some type → type ≠ .void
  locals : ∀ b ∈ scope.locals, b.2.type ≠ .void

variable {tables : Tables} {scope : Scope}

lemma coerce_ne_void {x y : Lowered} {target : ValueType} {place : Position} (h : coerce x target place = .ok y)
    (htarget : target ≠ .void) : x.type ≠ .void := by
  intro hvoid
  obtain ⟨htype, -⟩ | ⟨-, m, n, hm, -, -⟩ := coerce_ok h
  · exact htarget (htype.symm.trans hvoid)
  · rw [hvoid] at hm
    cases hm

lemma noVoid_bodyScope {ps : List Parameter} {result : ValueType} {ds : List (String × ValueType)}
    (hp : ∀ q ∈ ps, q.type ≠ .void) (hd : ∀ v ∈ ds, v.2 ≠ .void) :
    ∀ b ∈ (bodyScope ps result ds).locals, b.2.type ≠ .void := by
  intro b hb
  have hname : (b.1, b.2.type) ∈ localNames ps ds := by
    rw [← List.mem_reverse, ← bodyScope_names ps result ds]
    exact List.mem_map_of_mem hb
  rcases List.mem_append.mp hname with h | h
  · obtain ⟨q, hq, heq⟩ := List.mem_map.mp h
    have htype : q.type = b.2.type := congrArg Prod.snd heq
    exact htype ▸ hp q hq
  · exact hd _ h

lemma assignment_ne_void {place : Position} {name : String} {value : Lower Lowered} {s t : State} {x : Lowered}
    (hv : NoVoid tables scope) (hs : s.scope.Within scope) (h : assignment tables place name value s = .ok (x, t)) :
    ∃ y, value s = .ok (y, t) ∧ y.type ≠ .void := by
  obtain ⟨y, z, hy, ⟨v, hlocal, hz, -⟩ | ⟨-, type, hglobal, hz, -⟩⟩ := assignment_ok h
  · exact ⟨y, hy, coerce_ne_void hz (hv.locals _ (hs.lookup hlocal))⟩
  · exact ⟨y, hy, coerce_ne_void hz (hv.globals name type hglobal)⟩

mutual

lemma expression_occurrences : ∀ (e : Expr) ⦃scope : Scope⦄ ⦃s t : State⦄ ⦃x : Lowered⦄ ⦃r : Role⦄,
    NoVoid tables scope → (∀ d ∈ definitionsAmong e.entities, d.NoVoid) → expression tables e s = .ok (x, t) →
    t.scope.Within scope → (r = .value → x.type ≠ .void) → ∀ o ∈ e.occurrences r, o.1 ≠ .value
  | .number _ _ _ | .reference _ _ | .string _ _ => by
    intro scope s t x r _ _ _ _ _ o ho
    cases ho
  | .binary place op lhs rhs => by
    intro scope s t x r hv hd h hw _ o ho
    simp only [Expr.entities, definitionsAmong_append, List.forall_mem_append] at hd
    by_cases hop : op = "="
    · obtain ⟨site, name, rfl, ha⟩ := expression_assignment hop h
      have hs := (adds_assignment (fun y u hy => adds_expression rhs hy) ha).within.trans hw
      obtain ⟨y, hy, hne⟩ := assignment_ne_void hv hs ha
      exact expression_occurrences rhs hv hd.2 hy hw (fun _ => hne) o ho
    · obtain ⟨a, u, b, ha, hb, ho'⟩ := expression_operation hop h
      obtain ⟨wider, type, operator, l, r', hcommon, -⟩ := operation_ok ho'
      obtain ⟨hane, hbne⟩ := commonType_ne_void hcommon
      have hu := (adds_expression rhs hb).within.trans hw
      rcases List.mem_append.mp ho with ho | ho
      · exact expression_occurrences lhs hv hd.1 ha hu (fun _ => hane) o ho
      · exact expression_occurrences rhs hv hd.2 hb hw (fun _ => hbne) o ho
  | .call place callee args => by
    intro scope s t x r hv hd h hw _ o ho
    rw [expression] at h
    obtain ⟨signature, codes, hs, hn, hc, rfl⟩ := call_ok h
    exact arguments_occurrences args hv hd hn.symm (hv.functions callee signature hs) hc hw o ho
  | .cast place target value => by
    intro scope s t x r hv hd h hw _ o ho
    obtain ⟨y, hy, hc⟩ := expression_cast h
    -- A value that is cast to void may be an import; for other types there is no way from void.
    refine expression_occurrences value hv hd hy hw (fun hr => ?_) o ho
    split_ifs at hr with htarget
    exact coerce_ne_void hc htarget
  | .assign place name value => by
    intro scope s t x r hv hd h hw _ o ho
    rw [expression] at h
    have hs := (adds_assignment (fun y u hy => adds_expression value hy) h).within.trans hw
    obtain ⟨y, hy, hne⟩ := assignment_ne_void hv hs h
    exact expression_occurrences value hv hd hy hw (fun _ => hne) o ho
  | .conditional place conditions separators body => by
    intro scope s t x r hv hd h hw hr o ho
    simp only [Expr.entities, definitionsAmong_append, List.forall_mem_append] at hd
    obtain ⟨codes, u, code, statements, hc, -, hb, rfl⟩ := expression_conditional h
    have hu := (adds_block body hb).within.trans hw
    rcases List.mem_append.mp ho with ho | ho
    · exact conditionList_occurrences conditions hv hd.1 hc hu o ho
    · exact block_occurrences body hv hd.2 hb hw (fun hvalue => hr hvalue rfl) o ho
  | .importFile place path => by
    intro scope s t x r _ _ h _ hr o ho
    obtain ⟨rfl, -⟩ := expression_import h
    obtain rfl := List.mem_singleton.mp ho
    exact fun hvalue => hr hvalue rfl

lemma arguments_occurrences {place : Position} : ∀ (es : List Expr) ⦃scope : Scope⦄ ⦃types : List ValueType⦄
    ⦃s t : State⦄ ⦃codes : List Wasm.Instr⦄ ⦃r : Role⦄, NoVoid tables scope →
    (∀ d ∈ definitionsAmong (Expr.entitiesOfAll es), d.NoVoid) → es.length = types.length →
    (∀ type ∈ types, type ≠ .void) → arguments tables place es types s = .ok (codes, t) → t.scope.Within scope →
    ∀ o ∈ Expr.occurrencesOfAll r es, o.1 ≠ .value
  | [] => by
    intro scope types s t codes r _ _ _ _ _ _ o ho
    cases ho
  | e :: es => by
    intro scope types s t codes r hv hd hn htypes h hw o ho
    simp only [Expr.entitiesOfAll, definitionsAmong_append, List.forall_mem_append] at hd
    cases types with
    | nil => cases hn
    | cons type types =>
      obtain ⟨htype, htypes⟩ := List.forall_mem_cons.mp htypes
      obtain ⟨y, u, z, rest, hy, hz, hr, rfl⟩ := arguments_cons h
      have hu := (adds_arguments es (Nat.succ.inj hn) hr).within.trans hw
      rcases List.mem_append.mp ho with ho | ho
      · exact expression_occurrences e hv hd.1 hy hu (fun _ => coerce_ne_void hz htype) o ho
      · exact arguments_occurrences es hv hd.2 (Nat.succ.inj hn) htypes hr hw o ho

lemma condition_occurrences {place : Position} : ∀ (c : Condition) ⦃scope : Scope⦄ ⦃s t : State⦄
    ⦃code : Wasm.Instr⦄ ⦃r : Role⦄, NoVoid tables scope → (∀ d ∈ definitionsAmong c.entities, d.NoVoid) →
    condition tables place c s = .ok (code, t) → t.scope.Within scope → ∀ o ∈ c.occurrences r, o.1 ≠ .value
  | .compare lhs op rhs => by
    intro scope s t code r hv hd h hw o ho
    simp only [Condition.entities, definitionsAmong_append, List.forall_mem_append] at hd
    obtain ⟨a, u, b, ha, hb, hc⟩ := condition_compare h
    obtain ⟨type, operator, l, r', hcommon, -⟩ := comparison_ok hc
    obtain ⟨hane, hbne⟩ := commonType_ne_void hcommon
    have hu := (adds_expression rhs hb).within.trans hw
    rcases List.mem_append.mp ho with ho | ho
    · exact expression_occurrences lhs hv hd.1 ha hu (fun _ => hane) o ho
    · exact expression_occurrences rhs hv hd.2 hb hw (fun _ => hbne) o ho

lemma conditionList_occurrences {place : Position} : ∀ (cs : List Condition) ⦃scope : Scope⦄ ⦃s t : State⦄
    ⦃codes : List Wasm.Instr⦄ ⦃r : Role⦄, NoVoid tables scope →
    (∀ d ∈ definitionsAmong (Condition.entitiesOfAll cs), d.NoVoid) →
    conditionList tables place cs s = .ok (codes, t) → t.scope.Within scope →
    ∀ o ∈ Condition.occurrencesOfAll r cs, o.1 ≠ .value
  | [] => by
    intro scope s t codes r _ _ _ _ o ho
    cases ho
  | c :: cs => by
    intro scope s t codes r hv hd h hw o ho
    simp only [Condition.entitiesOfAll, definitionsAmong_append, List.forall_mem_append] at hd
    obtain ⟨code, u, rest, hc, hr, rfl⟩ := conditionList_cons h
    have hu := (adds_conditionList cs hr).within.trans hw
    rcases List.mem_append.mp ho with ho | ho
    · exact condition_occurrences c hv hd.1 hc hu o ho
    · exact conditionList_occurrences cs hv hd.2 hr hw o ho

lemma statement_occurrences : ∀ (st : Stmt) ⦃scope : Scope⦄ ⦃s t : State⦄ ⦃code : Wasm.Instr⦄ ⦃r : Role⦄,
    NoVoid tables scope → (∀ d ∈ definitionsAmong st.entities, d.NoVoid) →
    statement tables st s = .ok (code, t) → t.scope.Within scope → r ≠ .value →
    ∀ o ∈ st.occurrences r, o.1 ≠ .value
  | .expression value => by
    intro scope s t code r hv hd h hw hr o ho
    obtain ⟨y, hy, -⟩ := statement_expression h
    exact expression_occurrences value hv hd hy hw (fun hvalue => absurd hvalue hr) o ho
  | .call place callee args => by
    intro scope s t code r hv hd h hw _ o ho
    obtain ⟨y, hy, -⟩ := statement_call h
    rw [expression] at hy
    obtain ⟨signature, codes, hs, hn, hc, rfl⟩ := call_ok hy
    exact arguments_occurrences args hv hd hn.symm (hv.functions callee signature hs) hc hw o ho
  | .declare place type name value => by
    intro scope s t code r hv hd h hw _ o ho
    simp only [Stmt.entities, definitionsAmong_append, List.forall_mem_append] at hd
    obtain ⟨y, u, z, hy, hz, -, rfl⟩ := statement_declare h
    have hu := (Scope.within_declare u.scope name type).trans hw
    have hne := coerce_ne_void hz (hv.locals _ hw.declared)
    exact expression_occurrences value hv hd.1 hy hu (fun _ => hne) o ho
  | .function signature types body => by
    intro scope s t code r hv hd h _ hr o ho
    rw [definitionsAmong_function, List.forall_mem_append, List.forall_mem_singleton] at hd
    obtain ⟨hnested, hparameters, hvariables⟩ := hd
    obtain ⟨statements, u, hb, -, -⟩ := statement_function h
    have hscope : u.scope = bodyScope (signature.taking types).parameters signature.result
        (declaredAmong (Stmt.entitiesOfAll body)) := (adds_block body hb).scope
    have hlocals : ∀ b ∈ (bodyScope _ signature.result _).locals, b.2.type ≠ .void :=
      noVoid_bodyScope hparameters hvariables
    exact block_occurrences body ⟨hv.functions, hv.globals, hlocals⟩ hnested hb (hscope ▸ .refl _)
      (fun hvalue => absurd hvalue hr) o ho
  | .prototype _ => by
    intro scope s t code r _ _ _ _ _ o ho
    cases ho
  | .ret place value => by
    intro scope s t code r hv hd h hw _ o ho
    obtain ⟨y, hy, -⟩ := statement_ret h
    have hrole : Role.discarded ≠ .value := by simp
    exact expression_occurrences value hv hd hy hw (fun hvalue => absurd hvalue hrole) o ho

lemma block_occurrences : ∀ (ss : List Stmt) ⦃scope : Scope⦄ ⦃s t : State⦄ ⦃codes : List Wasm.Instr⦄ ⦃r : Role⦄,
    NoVoid tables scope → (∀ d ∈ definitionsAmong (Stmt.entitiesOfAll ss), d.NoVoid) →
    block tables ss s = .ok (codes, t) → t.scope.Within scope → r ≠ .value →
    ∀ o ∈ Stmt.occurrencesOfAll r ss, o.1 ≠ .value
  | [] => by
    intro scope s t codes r _ _ _ _ _ o ho
    cases ho
  | st :: ss => by
    intro scope s t codes r hv hd h hw hr o ho
    simp only [Stmt.entitiesOfAll, definitionsAmong_append, List.forall_mem_append] at hd
    obtain ⟨code, u, rest, hc, hrest, rfl⟩ := block_cons h
    have hu := (adds_block ss hrest).within.trans hw
    rcases List.mem_append.mp ho with ho | ho
    · exact statement_occurrences st hv hd.1 hc hu hr o ho
    · exact block_occurrences ss hv hd.2 hrest hw hr o ho

end

lemma topStatement_occurrences {st : Stmt} {s t : State} {code : Wasm.Instr} (hv : NoVoid tables scope)
    (hd : ∀ d ∈ definitionsAmong st.entities, d.NoVoid) (hglobal : ∀ v ∈ st.global?, v.2 ≠ .void)
    (h : topStatement tables st s = .ok (code, t)) (hw : t.scope.Within scope) :
    ∀ o ∈ st.occurrences .statement, o.1 ≠ .value := by
  by_cases hst : IsGlobal st
  · cases st with
    | declare place type name value =>
      simp only [Stmt.entities, definitionsAmong_append, List.forall_mem_append] at hd
      obtain ⟨y, z, hy, hz, -⟩ := topStatement_declare h
      exact expression_occurrences value hv hd.1 hy hw fun _ => coerce_ne_void hz (hglobal (name, type) rfl)
    | _ => exact absurd hst id
  · rw [topStatement_eq hst] at h
    exact statement_occurrences st hv hd h hw (by simp)

lemma topStatements_occurrences {p : Program} {s t : State} {codes : List Wasm.Instr} (hv : NoVoid tables scope)
    (hd : ∀ d ∈ definitionsAmong (Stmt.entitiesOfAll p), d.NoVoid)
    (hglobals : ∀ st ∈ p, ∀ v ∈ st.global?, v.2 ≠ .void) (h : topStatements tables p s = .ok (codes, t))
    (hw : t.scope.Within scope) : ∀ st ∈ p, ∀ o ∈ st.occurrences .statement, o.1 ≠ .value := by
  induction p generalizing s codes with
  | nil => simp
  | cons st p ih =>
    simp only [Stmt.entitiesOfAll, definitionsAmong_append, List.forall_mem_append] at hd
    obtain ⟨hglobal, hglobals⟩ := List.forall_mem_cons.mp hglobals
    obtain ⟨code, u, rest, hc, hrest, rfl⟩ := topStatements_cons h
    have hu := (adds_topStatements hrest).within.trans hw
    exact List.forall_mem_cons.mpr ⟨topStatement_occurrences hv hd.1 hglobal hc hu, ih hd.2 hglobals hrest⟩

end Lowering

open Lowering

lemma mem_occurrences {p : Program} {o : Role × Import} (h : o ∈ p.occurrences) :
    ∃ st ∈ p, o ∈ st.occurrences .statement := by
  unfold Program.occurrences at h
  induction p with
  | nil => cases h
  | cons st p ih =>
    rcases List.mem_append.mp h with h | h
    · exact ⟨st, List.mem_cons_self, h⟩
    · obtain ⟨st', hst', h⟩ := ih h
      exact ⟨st', List.mem_cons_of_mem _ hst', h⟩

lemma compile_occurrences {p : Program} {exported : Bool} {m : Wasm.Module} (hpaired : ∀ d ∈ p.definitions, d.Paired)
    (hparameters : ∀ f ∈ p.signatures, ∀ t ∈ f.parameterTypes, t ≠ .void)
    (hlocals : ∀ d ∈ p.definitions, ∀ v ∈ d.variables, v.2 ≠ .void) (houter : ∀ v ∈ p.startVariables, v.2 ≠ .void)
    (h : compile p exported = .ok m) : ∀ st ∈ p, ∀ o ∈ st.occurrences .statement, o.1 ≠ .value := by
  obtain ⟨tables, code, s, hm⟩ := lower_ok (compile_ok h).1
  obtain ⟨hglobals, -, hvoid⟩ := globalTable_ok hm.globalTable
  have hv : NoVoid tables (startScope p) := by
    refine ⟨fun callee s hs => ?_, fun name type hg => hvoid _ (mem_of_lookup hg), ?_⟩
    · obtain ⟨f, hf, -, rfl⟩ := functionTable_sound hm.functionTable hs
      exact hparameters f hf
    · exact noVoid_bodyScope (by simp) houter
  refine topStatements_occurrences hv ?_ ?_ hm.statements (hm.scope ▸ .refl _)
  · rw [← definitions_eq]
    refine fun d hd => ⟨fun q hq => hparameters _ (mem_signatures hd) _ ?_, hlocals d hd⟩
    rw [← (hpaired d hd).parameterTypes]
    exact List.mem_map_of_mem hq
  · intro st hst v hglobal
    refine hvoid v ?_
    rw [hglobals]
    exact List.mem_filterMap.mpr ⟨st, hst, hglobal⟩

/-- No parameter and no variable is of type void. -/
def Program.VoidFree (p : Program) : Prop :=
  (∀ f ∈ p.signatures, ∀ t ∈ f.parameterTypes, t ≠ .void) ∧
    (∀ d ∈ p.definitions, ∀ v ∈ d.variables, v.2 ≠ .void) ∧ ∀ v ∈ p.startVariables, v.2 ≠ .void

instance (p : Program) : Decidable p.VoidFree := by
  unfold Program.VoidFree
  infer_instance

section Build

variable {o : BuildOptions} {path source : String} {m : Wasm.Module}

lemma linkUnits_shaped {host : SourceFiles} {table : Precedences} {units : List SourceUnit}
    (h : linkUnits host table path source = .ok units) : Program.Shaped table (units.flatMap SourceUnit.program) := by
  have hloads := (linkUnits_complete h).loads
  clear h
  induction units with
  | nil => trivial
  | cons u units ih =>
    obtain ⟨⟨text, -, hparse⟩, hrest⟩ := List.forall_mem_cons.mp hloads
    exact (parseText_shaped hparse).append (ih hrest)

lemma buildSource_ok (h : buildSource o path source = .ok m) :
    ∃ units, linkUnits o.host o.table path source = .ok units ∧
      compile (units.flatMap SourceUnit.program) o.exportFunctions = .ok m := by
  obtain ⟨program, hlink, h⟩ := except_bind_ok.mp h
  obtain ⟨units, hunits, rfl⟩ := link_ok.mp hlink
  refine ⟨units, hunits, ?_⟩
  cases hcompile : compile (units.flatMap SourceUnit.program) o.exportFunctions with
  | error e => simp [hcompile, Except.mapError] at h
  | ok m' => simpa [hcompile, Except.mapError] using h

lemma buildFile_ok (h : buildFile o path = .ok m) :
    ∃ source, o.host.read (o.host.canonical path) = .ok source ∧
      buildSource o (o.host.canonical path) source = .ok m := by
  unfold buildFile at h
  cases hread : o.host.read (o.host.canonical path) with
  | error reason => simp [hread] at h
  | ok source =>
    refine ⟨source, rfl, ?_⟩
    cases hbuild : buildSource o (o.host.canonical path) source with
    | error e => simp [hread, hbuild, Except.mapError] at h
    | ok m' => simpa [hread, hbuild, Except.mapError] using h

/-- Every import of a unit leads to a unit, wherever it stands, unless a `return` or a cast to void throws
away the value that it belongs to. -/
theorem buildFile_imports (h : buildFile o path = .ok m) :
    ∃ source units, o.host.read (o.host.canonical path) = .ok source ∧
      linkUnits o.host o.table (o.host.canonical path) source = .ok units ∧
      (Program.VoidFree (units.flatMap SourceUnit.program) → ∀ u ∈ units, ∀ i ∈ u.program.occurrences,
        i.1 = .discarded ∨ o.host.resolve u.path i.2.path ∈ units.map SourceUnit.path) := by
  obtain ⟨source, hread, h⟩ := buildFile_ok h
  obtain ⟨units, hunits, hcompile⟩ := buildSource_ok h
  have hcomplete := linkUnits_complete hunits
  refine ⟨source, units, hread, hunits, fun ⟨hparameters, hlocals, houter⟩ u hu i hi => ?_⟩
  obtain ⟨st, hst, hi'⟩ := mem_occurrences hi
  have hpaired : ∀ d ∈ Program.definitions (units.flatMap SourceUnit.program), d.Paired :=
    fun d hd => ((linkUnits_shaped hunits).definitions d hd).1
  have hvalue : i.1 ≠ .value :=
    compile_occurrences hpaired hparameters hlocals houter hcompile st (List.mem_flatMap.mpr ⟨u, hu, hst⟩) i hi'
  cases hrole : i.1 with
  | value => exact absurd hrole hvalue
  | discarded => exact .inl rfl
  | statement =>
    refine .inr ((hcomplete.mem_iff _).mpr ?_)
    have hreached := (hcomplete.mem_iff _).mp (List.mem_map_of_mem hu)
    have himport := (Stmt.imports_of_occurrencesOfAll u.program i hi hrole).2
    exact hreached.tail ⟨u, hcomplete.loads u hu, rfl, i.2, himport, rfl⟩

end Build

def nestedFiles : List (String × String) :=
  [("main.keel", "fn f() -> void \x7b if (1 < 2) \x7b import \"a.keel\"; \x7d return import \"b.keel\"; \x7d\n"),
    ("a.keel", "import \"main.keel\";\ni32 x = 1;\n"), ("b.keel", "i32 y = 2;\n")]

def nestedBuild : BuildOptions := ⟨.ofFiles nestedFiles, .standard, true⟩

theorem buildFile_imports_nested : ∃ (m : Wasm.Module) (units : List SourceUnit),
    buildFile nestedBuild "main.keel" = .ok m ∧ Program.VoidFree (units.flatMap SourceUnit.program) ∧
      units.map SourceUnit.path = ["a.keel", "main.keel"] ∧ ∀ u ∈ units, ∀ i ∈ u.program.occurrences,
        i.1 = .discarded ∨ nestedBuild.host.resolve u.path i.2.path ∈ units.map SourceUnit.path := by
  have hcheck : (match buildFile nestedBuild "main.keel",
        nestedBuild.host.read (nestedBuild.host.canonical "main.keel") with
      | .ok _, .ok source =>
        (match linkUnits nestedBuild.host nestedBuild.table (nestedBuild.host.canonical "main.keel") source with
        | .ok units => decide (Program.VoidFree (units.flatMap SourceUnit.program) ∧
            units.map SourceUnit.path = ["a.keel", "main.keel"])
        | .error _ => false)
      | _, _ => false) = true := by decide +kernel
  split at hcheck
  · rename_i m source hm hread
    split at hcheck
    · rename_i units hunits
      obtain ⟨hvoid, hpaths⟩ := of_decide_eq_true hcheck
      obtain ⟨source', units', hread', hunits', himports⟩ := buildFile_imports hm
      obtain rfl : source = source' := Except.ok.inj (hread.symm.trans hread')
      obtain rfl : units = units' := Except.ok.inj (hunits.symm.trans hunits')
      exact ⟨m, units, hm, hvoid, hpaths, himports hvoid⟩
    · cases hcheck
  · cases hcheck

def returnedFiles : List (String × String) :=
  [("main.keel", "return import \"b.keel\";\n"), ("b.keel", "i32 x = 1;\n")]

theorem buildFile_ignores_returned : ∃ (m : Wasm.Module) (units : List SourceUnit) (u : SourceUnit) (i : Role × Import),
    buildFile ⟨.ofFiles returnedFiles, .standard, true⟩ "main.keel" = .ok m ∧
      linkUnits (.ofFiles returnedFiles) .standard "main.keel" "return import \"b.keel\";\n" = .ok units ∧
      u ∈ units ∧ i ∈ u.program.occurrences ∧ Path.fromFile u.path i.2.path ∉ units.map SourceUnit.path := by
  have hcheck : (match buildFile ⟨.ofFiles returnedFiles, .standard, true⟩ "main.keel",
        linkUnits (.ofFiles returnedFiles) .standard "main.keel" "return import \"b.keel\";\n" with
      | .ok _, .ok units => decide (∃ u ∈ units, ∃ i ∈ u.program.occurrences,
          Path.fromFile u.path i.2.path ∉ units.map SourceUnit.path)
      | _, _ => false) = true := by decide +kernel
  split at hcheck
  · rename_i m units hm hunits
    obtain ⟨u, hu, i, hi, hmissing⟩ := of_decide_eq_true hcheck
    exact ⟨m, units, u, i, hm, hunits, hu, hi, hmissing⟩
  · cases hcheck

end Keel
