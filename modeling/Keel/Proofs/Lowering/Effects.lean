import Keel.Proofs.Lowering.Inversion
import Keel.Proofs.Lowering.Scopes
import Keel.Proofs.Syntax.Contents

namespace Keel.Lowering

namespace StringTable

def internAll (table : StringTable) (values : List String) : StringTable :=
  values.foldl (fun table value => (table.intern value).2) table

def Within (a b : StringTable) : Prop := a.entries <+: b.entries

variable {a b c : StringTable}

lemma Within.refl (a : StringTable) : a.Within a := List.prefix_refl _

lemma Within.trans (h : a.Within b) (h' : b.Within c) : a.Within c := List.IsPrefix.trans h h'

lemma within_intern (a : StringTable) (value : String) : a.Within (a.intern value).2 := by
  unfold intern
  cases a.entries.lookup value with
  | some address => exact .refl a
  | none => exact List.prefix_append _ _

lemma within_internAll (a : StringTable) (values : List String) : a.Within (a.internAll values) := by
  induction values generalizing a with
  | nil => exact .refl a
  | cons value values ih => exact (within_intern a value).trans (ih _)

lemma lookup_intern (a : StringTable) (value : String) :
    (a.intern value).2.entries.lookup value = some (a.intern value).1 := by
  unfold intern
  cases h : a.entries.lookup value with
  | some address => exact h
  | none => simp [List.lookup_append, h]

lemma Within.lookup {value : String} {address : Nat} (h : a.Within b)
    (ha : a.entries.lookup value = some address) : b.entries.lookup value = some address :=
  List.IsPrefix.lookup_eq_some h ha

end StringTable

variable {tables : Tables}

def Lowers (tables : Tables) (strings : StringTable) (d : Definition) (f : Wasm.Function) : Prop :=
  ∃ s codes t, block tables d.body s = .ok (codes, t) ∧
    s.scope = .ofSignature d.parameters d.signature.result ∧
    t.scope = s.scope.declareAll (declaredAmong (Stmt.entitiesOfAll d.body)) ∧
    t.strings.Within strings ∧ f = functionOf d.own codes t.scope

lemma Lowers.mono {a b : StringTable} {d : Definition} {f : Wasm.Function} (h : Lowers tables a d f)
    (hab : a.Within b) : Lowers tables b d f := by
  obtain ⟨s, codes, t, hc, hs, ht, hstrings, hf⟩ := h
  exact ⟨s, codes, t, hc, hs, ht, hstrings.trans hab, hf⟩

structure Adds (tables : Tables) (es : List Entity) (s t : State) : Prop where
  scope : t.scope = s.scope.declareAll (declaredAmong es)
  strings : t.strings = s.strings.internAll (stringsAmong es)
  functions : ∃ fs, t.functions = s.functions ++ fs ∧
    List.Forall₂ (Lowers tables t.strings) (definitionsAmong es) fs

namespace Adds

variable {es fs : List Entity} {s t u : State}

lemma refl (s : State) : Adds tables [] s s := ⟨rfl, rfl, [], by simp, .nil⟩

lemma trans (h : Adds tables es s t) (h' : Adds tables fs t u) : Adds tables (es ++ fs) s u where
  scope := by
    rw [h'.scope, h.scope, declaredAmong_append, Scope.declareAll_append]
  strings := by
    rw [h'.strings, h.strings]
    simp [StringTable.internAll]
  functions := by
    obtain ⟨f, hf, hl⟩ := h.functions
    obtain ⟨g, hg, hm⟩ := h'.functions
    refine ⟨f ++ g, by rw [hg, hf, List.append_assoc], ?_⟩
    have hin : t.strings.Within u.strings := by
      rw [h'.strings]
      exact StringTable.within_internAll _ _
    rw [definitionsAmong_append]
    exact List.rel_append (hl.imp fun _ _ hd => hd.mono hin) hm

lemma within (h : Adds tables es s t) : s.scope.Within t.scope := by
  rw [h.scope]
  exact Scope.within_declareAll _ _

lemma strings_within (h : Adds tables es s t) : s.strings.Within t.strings := by
  rw [h.strings]
  exact StringTable.within_internAll _ _

end Adds

variable {place : Position} {s t : State} {x : Lowered}

lemma adds_assignment {value : Lower Lowered} {name : String} {es : List Entity}
    (hv : ∀ y u, value s = .ok (y, u) → Adds tables es s u)
    (h : assignment tables place name value s = .ok (x, t)) : Adds tables es s t := by
  obtain ⟨y, z, hy, -⟩ := assignment_ok h
  exact hv y t hy

mutual

lemma adds_expression : ∀ (e : Expr) ⦃s t : State⦄ ⦃x : Lowered⦄,
    expression tables e s = .ok (x, t) → Adds tables e.entities s t
  | .number place value type => by
    intro s t x h
    obtain ⟨-, rfl⟩ := expression_number h
    exact .refl s
  | .reference place name => by
    intro s t x h
    rw [expression] at h
    obtain ⟨rfl, -⟩ := reference_ok h
    exact .refl s
  | .binary place op lhs rhs => by
    intro s t x h
    by_cases hop : op = "="
    · obtain ⟨site, name, rfl, ha⟩ := expression_assignment hop h
      exact adds_assignment (fun y u hy => adds_expression rhs hy) ha
    · obtain ⟨a, u, b, ha, hb, -⟩ := expression_operation hop h
      exact (adds_expression lhs ha).trans (adds_expression rhs hb)
  | .call place callee args => by
    intro s t x h
    rw [expression] at h
    obtain ⟨signature, codes, -, hn, hc, -⟩ := call_ok h
    exact adds_arguments args hn.symm hc
  | .cast place target value => by
    intro s t x h
    obtain ⟨y, hy, -⟩ := expression_cast h
    exact adds_expression value hy
  | .assign place name value => by
    intro s t x h
    rw [expression] at h
    exact adds_assignment (fun y u hy => adds_expression value hy) h
  | .string place value => by
    intro s t x h
    obtain ⟨-, rfl⟩ := expression_string h
    exact ⟨rfl, rfl, [], by simp, .nil⟩
  | .conditional place conditions separators body => by
    intro s t x h
    obtain ⟨codes, u, code, statements, hc, -, hb, -⟩ := expression_conditional h
    exact (adds_conditionList conditions hc).trans (adds_block body hb)
  | .importFile place path => by
    intro s t x h
    obtain ⟨-, rfl⟩ := expression_import h
    exact .refl s

lemma adds_arguments {place : Position} : ∀ (es : List Expr) ⦃types : List ValueType⦄ ⦃s t : State⦄
    ⦃codes : List Wasm.Instr⦄, es.length = types.length → arguments tables place es types s = .ok (codes, t) →
    Adds tables (Expr.entitiesOfAll es) s t
  | [] => by
    intro types s t codes _ h
    obtain ⟨-, rfl⟩ := arguments_nil h
    exact .refl s
  | e :: es => by
    intro types s t codes hn h
    cases types with
    | nil => cases hn
    | cons type types =>
      obtain ⟨y, u, z, rest, hy, -, hr, -⟩ := arguments_cons h
      exact (adds_expression e hy).trans (adds_arguments es (Nat.succ.inj hn) hr)

lemma adds_condition {place : Position} : ∀ (c : Condition) ⦃s t : State⦄ ⦃code : Wasm.Instr⦄,
    condition tables place c s = .ok (code, t) → Adds tables c.entities s t
  | .compare lhs op rhs => by
    intro s t code h
    obtain ⟨a, u, b, ha, hb, -⟩ := condition_compare h
    exact (adds_expression lhs ha).trans (adds_expression rhs hb)

lemma adds_conditionList {place : Position} : ∀ (cs : List Condition) ⦃s t : State⦄ ⦃codes : List Wasm.Instr⦄,
    conditionList tables place cs s = .ok (codes, t) → Adds tables (Condition.entitiesOfAll cs) s t
  | [] => by
    intro s t codes h
    obtain ⟨-, rfl⟩ := conditionList_nil h
    exact .refl s
  | c :: cs => by
    intro s t codes h
    obtain ⟨code, u, rest, hc, hr, -⟩ := conditionList_cons h
    exact (adds_condition c hc).trans (adds_conditionList cs hr)

lemma adds_statement : ∀ (st : Stmt) ⦃s t : State⦄ ⦃code : Wasm.Instr⦄,
    statement tables st s = .ok (code, t) → Adds tables st.entities s t
  | .expression value => by
    intro s t code h
    obtain ⟨y, hy, -⟩ := statement_expression h
    exact adds_expression value hy
  | .call place callee args => by
    intro s t code h
    obtain ⟨y, hy, -⟩ := statement_call h
    rw [expression] at hy
    obtain ⟨signature, codes, -, hn, hc, -⟩ := call_ok hy
    exact adds_arguments args hn.symm hc
  | .declare place type name value => by
    intro s t code h
    obtain ⟨y, u, z, hy, -, -, rfl⟩ := statement_declare h
    exact (adds_expression value hy).trans ⟨rfl, rfl, [], by simp, .nil⟩
  | .function signature types body => by
    intro s t code h
    obtain ⟨statements, u, hb, -, rfl⟩ := statement_function h
    have ha := adds_block body hb
    obtain ⟨fs, hf, hl⟩ := ha.functions
    refine ⟨?_, ?_, fs ++ [functionOf (signature.taking types) statements u.scope], by simp [hf], ?_⟩
    · rw [declaredAmong_function]
      rfl
    · rw [stringsAmong_function, ha.strings]
    · rw [definitionsAmong_function]
      exact List.rel_append hl (.cons ⟨_, statements, u, hb, rfl, ha.scope, .refl _, rfl⟩ .nil)
  | .prototype signature => by
    intro s t code h
    obtain ⟨-, rfl⟩ := statement_prototype h
    exact ⟨rfl, rfl, [], by simp, .nil⟩
  | .ret place value => by
    intro s t code h
    obtain ⟨y, hy, -⟩ := statement_ret h
    exact adds_expression value hy

lemma adds_block : ∀ (ss : List Stmt) ⦃s t : State⦄ ⦃codes : List Wasm.Instr⦄,
    block tables ss s = .ok (codes, t) → Adds tables (Stmt.entitiesOfAll ss) s t
  | [] => by
    intro s t codes h
    obtain ⟨-, rfl⟩ := block_nil h
    exact .refl s
  | st :: ss => by
    intro s t codes h
    obtain ⟨code, u, rest, hc, hr, -⟩ := block_cons h
    exact (adds_statement st hc).trans (adds_block ss hr)

end

end Keel.Lowering
