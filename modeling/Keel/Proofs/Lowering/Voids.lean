import Keel.Proofs.Lowering.Programs
import Keel.Proofs.Syntax.Declarations
import Keel.Unit.Linked

/-! Which variables of type void the compiler refuses: all outside of functions, and elsewhere those whose
value is not of type void itself. -/

namespace Keel

namespace Expr

variable (functions : List Prototype) (known : List (String × ValueType))

def isVoidVariable : Expr → Bool
  | .reference _ name => known.reverse.lookup name == some .void
  | _ => false

/-- Whether an expression is of type void, given the functions of the program and the variables that are known
where it stands. -/
def isVoid : Expr → Bool
  | .conditional _ _ _ _ | .importFile _ _ => true
  | .call _ callee _ => functions.any fun f => f.name == callee && f.result == .void
  | .reference _ name => known.reverse.lookup name == some .void
  | .assign _ name value => known.reverse.lookup name == some .void && value.isVoid
  | .binary _ op lhs rhs => op == "=" && lhs.isVoidVariable known && rhs.isVoid
  | .cast _ target value => target == .void && value.isVoid
  | .number _ _ _ | .string _ _ => false

end Expr

namespace Lowering

variable {tables : Tables} {s t : State} {x y : Lowered} {place : Position} {known : List (String × ValueType)}
  {functions : List Prototype} {es : List Entity}

def Scope.Names (scope : Scope) (known : List (String × ValueType)) : Prop :=
  scope.locals.map (fun b => (b.1, b.2.type)) = known.reverse

lemma Scope.Names.lookup {scope : Scope} (h : scope.Names known) {name : String} {v : Local}
    (hv : scope.locals.lookup name = some v) : known.reverse.lookup name = some v.type := by
  rw [← show _ = known.reverse from h, lookup_map_key scope.locals (fun _ => Local.type), hv]
  rfl

lemma Scope.Names.adds (h : s.scope.Names known) (ha : Adds tables es s t) :
    t.scope.Names (known ++ declaredAmong es) := by
  unfold Scope.Names at h ⊢
  rw [ha.scope, Scope.declareAll_locals, List.map_append, numbered_bindings, h, List.reverse_append]

lemma names_ofSignature (ps : List Parameter) (result : ValueType) :
    (Scope.ofSignature ps result).Names (ps.map fun q => (q.name, q.type)) := by
  rw [Scope.Names, Scope.ofSignature_locals, numbered_bindings]

structure Sound (functions : List Prototype) (tables : Tables) : Prop where
  functions : ∀ callee signature, tables.functions.lookup callee = some signature →
    ∃ f ∈ functions, f.name = callee ∧ signature.result = f.result
  globals : ∀ name type, tables.globals.lookup name = some type → type ≠ .void

lemma coerce_void (h : coerce x .void place = .ok y) : x.type = .void := by
  obtain ⟨htype, -⟩ | ⟨-, m, n, -, hn, -⟩ := coerce_ok h
  · exact htype
  · cases hn

lemma coerce_type {target : ValueType} (h : coerce x target place = .ok y) : y.type = target := by
  obtain ⟨htype, rfl⟩ | ⟨-, m, n, -, -, ⟨-, rfl⟩ | ⟨-, changed, -, rfl⟩⟩ := coerce_ok h
  · exact htype
  · rfl
  · rfl

lemma operation_ne_void {op : String} {a b : Lowered} (h : operation place op a b = .ok x) : x.type ≠ .void := by
  obtain ⟨wider, type, operator, l, r, -, -, hoperator, -, -, rfl⟩ := operation_ok h
  split_ifs
  · exact ValueType.noConfusion
  · rintro rfl
    cases hoperator

lemma literal_ne_void {value : Double} {type : ValueType} (h : literal value type place = .ok x) : x.type ≠ .void := by
  unfold literal at h
  split_ifs at h with hvoid
  cases h
  exact hvoid

lemma assignment_void {name : String} {value : Lower Lowered} (hs : s.scope.Names known) (hf : Sound functions tables)
    (h : assignment tables place name value s = .ok (x, t)) (hx : x.type = .void) :
    known.reverse.lookup name = some .void ∧ ∃ y, value s = .ok (y, t) ∧ y.type = .void := by
  obtain ⟨y, z, hy, ⟨v, hv, hz, rfl⟩ | ⟨-, type, hglobal, -, rfl⟩⟩ := assignment_ok h
  · have htype : v.type = .void := hx
    have hknown := hs.lookup hv
    rw [htype] at hz hknown
    exact ⟨hknown, y, hy, coerce_void hz⟩
  · exact absurd hx (hf.globals name type hglobal)

lemma expression_void : ∀ (e : Expr) ⦃s t : State⦄ ⦃x : Lowered⦄, s.scope.Names known → Sound functions tables →
    expression tables e s = .ok (x, t) → x.type = .void → e.isVoid functions known = true
  | .number place value type => by
    intro s t x _ _ h hx
    exact absurd hx (literal_ne_void (expression_number h).1)
  | .string place value => by
    intro s t x _ _ h hx
    rw [(expression_string h).1] at hx
    cases hx
  | .conditional _ _ _ _ | .importFile _ _ => by
    intro _ _ _ _ _ _ _
    rfl
  | .reference place name => by
    intro s t x hs hf h hx
    rw [expression] at h
    obtain ⟨-, ⟨v, hv, rfl⟩ | ⟨-, type, hglobal, rfl⟩⟩ := reference_ok h
    · rw [Expr.isVoid, hs.lookup hv, beq_iff_eq]
      exact congrArg some hx
    · exact absurd hx (hf.globals name type hglobal)
  | .call place callee args => by
    intro s t x hs hf h hx
    rw [expression] at h
    obtain ⟨signature, codes, hlookup, -, -, rfl⟩ := call_ok h
    obtain ⟨f, hmem, hname, hresult⟩ := hf.functions callee signature hlookup
    refine List.any_eq_true.mpr ⟨f, hmem, ?_⟩
    rw [Bool.and_eq_true, beq_iff_eq, beq_iff_eq]
    exact ⟨hname, hresult.symm.trans hx⟩
  | .cast place target value => by
    intro s t x hs hf h hx
    obtain ⟨y, hy, hc⟩ := expression_cast h
    obtain rfl : target = .void := (coerce_type hc).symm.trans hx
    exact expression_void value hs hf hy (coerce_void hc)
  | .assign place name value => by
    intro s t x hs hf h hx
    rw [expression] at h
    obtain ⟨hname, y, hy, hvoid⟩ := assignment_void hs hf h hx
    rw [Expr.isVoid, hname]
    exact expression_void value hs hf hy hvoid
  | .binary place op lhs rhs => by
    intro s t x hs hf h hx
    by_cases hop : op = "="
    · obtain ⟨site, name, rfl, ha⟩ := expression_assignment hop h
      obtain ⟨hname, y, hy, hvoid⟩ := assignment_void hs hf ha hx
      rw [Expr.isVoid, hop, Expr.isVoidVariable, hname]
      exact expression_void rhs hs hf hy hvoid
    · obtain ⟨a, u, b, -, -, ho⟩ := expression_operation hop h
      exact absurd hx (operation_ne_void ho)

def Admitted (functions : List Prototype) (d : Declaration) : Prop :=
  d.type = .void → d.value.isVoid functions d.known = true

-- By induction on the tree. The scope names what is known, and goes on with what the code before has declared.
mutual

lemma expression_admits : ∀ (e : Expr) ⦃s t : State⦄ ⦃x : Lowered⦄ ⦃known : List (String × ValueType)⦄,
    s.scope.Names known → Sound functions tables → expression tables e s = .ok (x, t) →
    ∀ d ∈ e.declarations known, Admitted functions d
  | .number _ _ _ | .reference _ _ | .string _ _ | .importFile _ _ => by
    intro s t x known _ _ _ d hd
    cases hd
  | .binary place op lhs rhs => by
    intro s t x known hs hf h d hd
    by_cases hop : op = "="
    · obtain ⟨site, name, rfl, ha⟩ := expression_assignment hop h
      obtain ⟨y, z, hy, -⟩ := assignment_ok ha
      have hknown : known ++ declaredAmong (Expr.reference site name).entities = known := List.append_nil known
      rw [Expr.declarations, hknown] at hd
      exact expression_admits rhs hs hf hy d hd
    · obtain ⟨a, u, b, ha, hb, -⟩ := expression_operation hop h
      rcases List.mem_append.mp hd with hd | hd
      · exact expression_admits lhs hs hf ha d hd
      · exact expression_admits rhs (hs.adds (adds_expression lhs ha)) hf hb d hd
  | .call place callee args => by
    intro s t x known hs hf h
    rw [expression] at h
    obtain ⟨signature, codes, -, hn, hc, -⟩ := call_ok h
    exact arguments_admit args hs hf hn.symm hc
  | .cast place target value => by
    intro s t x known hs hf h
    obtain ⟨y, hy, -⟩ := expression_cast h
    exact expression_admits value hs hf hy
  | .assign place name value => by
    intro s t x known hs hf h
    rw [expression] at h
    obtain ⟨y, z, hy, -⟩ := assignment_ok h
    exact expression_admits value hs hf hy
  | .conditional place conditions separators body => by
    intro s t x known hs hf h d hd
    obtain ⟨codes, u, code, statements, hc, -, hb, -⟩ := expression_conditional h
    rcases List.mem_append.mp hd with hd | hd
    · exact conditionList_admits conditions hs hf hc d hd
    · exact block_admits body (hs.adds (adds_conditionList conditions hc)) hf hb d hd

lemma arguments_admit {place : Position} : ∀ (es : List Expr) ⦃types : List ValueType⦄ ⦃s t : State⦄
    ⦃codes : List Wasm.Instr⦄ ⦃known : List (String × ValueType)⦄, s.scope.Names known → Sound functions tables →
    es.length = types.length → arguments tables place es types s = .ok (codes, t) →
    ∀ d ∈ Expr.declarationsOfAll known es, Admitted functions d
  | [] => by
    intro types s t codes known _ _ _ _ d hd
    cases hd
  | e :: es => by
    intro types s t codes known hs hf hn h d hd
    cases types with
    | nil => cases hn
    | cons type types =>
      obtain ⟨y, u, z, rest, hy, -, hr, -⟩ := arguments_cons h
      rcases List.mem_append.mp hd with hd | hd
      · exact expression_admits e hs hf hy d hd
      · exact arguments_admit es (hs.adds (adds_expression e hy)) hf (Nat.succ.inj hn) hr d hd

lemma condition_admits {place : Position} : ∀ (c : Condition) ⦃s t : State⦄ ⦃code : Wasm.Instr⦄
    ⦃known : List (String × ValueType)⦄, s.scope.Names known → Sound functions tables →
    condition tables place c s = .ok (code, t) → ∀ d ∈ c.declarations known, Admitted functions d
  | .compare lhs op rhs => by
    intro s t code known hs hf h d hd
    obtain ⟨a, u, b, ha, hb, -⟩ := condition_compare h
    rcases List.mem_append.mp hd with hd | hd
    · exact expression_admits lhs hs hf ha d hd
    · exact expression_admits rhs (hs.adds (adds_expression lhs ha)) hf hb d hd

lemma conditionList_admits {place : Position} : ∀ (cs : List Condition) ⦃s t : State⦄ ⦃codes : List Wasm.Instr⦄
    ⦃known : List (String × ValueType)⦄, s.scope.Names known → Sound functions tables →
    conditionList tables place cs s = .ok (codes, t) → ∀ d ∈ Condition.declarationsOfAll known cs, Admitted functions d
  | [] => by
    intro s t codes known _ _ _ d hd
    cases hd
  | c :: cs => by
    intro s t codes known hs hf h d hd
    obtain ⟨code, u, rest, hc, hr, -⟩ := conditionList_cons h
    rcases List.mem_append.mp hd with hd | hd
    · exact condition_admits c hs hf hc d hd
    · exact conditionList_admits cs (hs.adds (adds_condition c hc)) hf hr d hd

lemma statement_admits : ∀ (st : Stmt) ⦃s t : State⦄ ⦃code : Wasm.Instr⦄ ⦃known : List (String × ValueType)⦄,
    s.scope.Names known → Sound functions tables → statement tables st s = .ok (code, t) →
    ∀ d ∈ st.declarations known, Admitted functions d
  | .expression value => by
    intro s t code known hs hf h
    obtain ⟨y, hy, -⟩ := statement_expression h
    exact expression_admits value hs hf hy
  | .call place callee args => by
    intro s t code known hs hf h
    obtain ⟨y, hy, -⟩ := statement_call h
    rw [expression] at hy
    obtain ⟨signature, codes, -, hn, hc, -⟩ := call_ok hy
    exact arguments_admit args hs hf hn.symm hc
  | .declare place type name value => by
    intro s t code known hs hf h d hd
    obtain ⟨y, u, z, hy, hz, -⟩ := statement_declare h
    rcases List.mem_append.mp hd with hd | hd
    · exact expression_admits value hs hf hy d hd
    · obtain rfl := List.mem_singleton.mp hd
      rintro rfl
      exact expression_void value hs hf hy (coerce_void hz)
  | .function _ _ _ | .prototype _ => by
    intro s t code known _ _ _ d hd
    cases hd
  | .ret place value => by
    intro s t code known hs hf h
    obtain ⟨y, hy, -⟩ := statement_ret h
    exact expression_admits value hs hf hy

lemma block_admits : ∀ (ss : List Stmt) ⦃s t : State⦄ ⦃codes : List Wasm.Instr⦄ ⦃known : List (String × ValueType)⦄,
    s.scope.Names known → Sound functions tables → block tables ss s = .ok (codes, t) →
    ∀ d ∈ Stmt.declarationsOfAll known ss, Admitted functions d
  | [] => by
    intro s t codes known _ _ _ d hd
    cases hd
  | st :: ss => by
    intro s t codes known hs hf h d hd
    obtain ⟨code, u, rest, hc, hr, -⟩ := block_cons h
    rcases List.mem_append.mp hd with hd | hd
    · exact statement_admits st hs hf hc d hd
    · exact block_admits ss (hs.adds (adds_statement st hc)) hf hr d hd

end

lemma topStatement_admits {st : Stmt} {code : Wasm.Instr} (hs : s.scope.Names known) (hf : Sound functions tables)
    (h : topStatement tables st s = .ok (code, t)) : ∀ d ∈ st.outerDeclarations known, Admitted functions d := by
  by_cases hst : IsGlobal st
  · cases st with
    | declare place type name value =>
      obtain ⟨y, z, hy, -⟩ := topStatement_declare h
      exact expression_admits value hs hf hy
    | _ => exact absurd hst id
  · rw [topStatement_eq hst] at h
    have hsame : st.outerDeclarations known = st.declarations known := by
      cases st with
      | declare => exact absurd trivial hst
      | _ => rfl
    rw [hsame]
    exact statement_admits st hs hf h

lemma topStatements_admit {p : Program} {codes : List Wasm.Instr} (hs : s.scope.Names known)
    (hf : Sound functions tables) (h : topStatements tables p s = .ok (codes, t)) :
    ∀ d ∈ p.startDeclarations known, Admitted functions d := by
  induction p generalizing s codes known with
  | nil => exact fun _ hd => nomatch hd
  | cons st p ih =>
    obtain ⟨code, u, rest, hc, hr, -⟩ := topStatements_cons h
    exact List.forall_mem_append.mpr ⟨topStatement_admits hs hf hc, ih (hs.adds (adds_topStatement hc)) hr⟩

variable {p : Program} {exported : Bool} {m : Wasm.Module} {code : List Wasm.Instr}

lemma Comprises.sound (h : Comprises p exported tables code s m) : Sound p.listed tables where
  functions callee signature hlookup := by
    obtain ⟨htable, -⟩ := functionTable_iff.mp h.functionTable
    rw [htable] at hlookup
    obtain ⟨f, hf, he⟩ := List.mem_map.mp (mem_of_lookup hlookup)
    cases he
    exact ⟨f, hf, rfl, rfl⟩
  globals name type hlookup := (globalTable_ok h.globalTable).2.2 _ (mem_of_lookup hlookup)

lemma Comprises.admits (h : Comprises p exported tables code s m) : ∀ d ∈ p.declarations, Admitted p.listed d := by
  have hstart : initialState.scope.Names [] := rfl
  refine List.forall_mem_append.mpr ⟨?_, topStatements_admit hstart h.sound h.statements⟩
  refine List.forall_mem_flatMap.mpr (forall_of_forall₂ (fun f definition hl => ?_) h.definitions.flip)
  obtain ⟨u, codes, v, hb, hu, -⟩ := hl
  refine block_admits definition.body ?_ h.sound hb
  rw [hu]
  exact names_ofSignature _ _

lemma none_mem_vars (ps : List Parameter) (result : ValueType) (ds : List (String × ValueType)) :
    none ∈ (bodyScope ps result ds).vars ↔ ∃ v ∈ ds, v.2 = .void := by
  have hresult : none ∉ (if result = .void then [] else [result.numType?]) := by
    split_ifs with hvoid
    · exact List.not_mem_nil
    · exact fun hmem => hvoid (numType?_eq_none_iff.mp (List.mem_singleton.mp hmem).symm)
  rw [bodyScope_vars, List.mem_append, or_iff_right hresult]
  simp [numType?_eq_none_iff]

lemma Lowers.none_mem_vars {strings : StringTable} {d : Definition} {f : Wasm.Function}
    (h : Lowers tables strings d f) : none ∈ f.vars ↔ ∃ v ∈ d.variables, v.2 = .void := by
  obtain ⟨u, codes, v, -, hu, hv, -, rfl⟩ := h
  rw [hu] at hv
  rw [functionOf, hv]
  exact Lowering.none_mem_vars _ _ d.variables

lemma exists_iff_of_forall₂ {α β : Type} {R : α → β → Prop} {P : α → Prop} {Q : β → Prop}
    (hPQ : ∀ a b, R a b → (Q b ↔ P a)) {as : List α} {bs : List β} (h : List.Forall₂ R as bs) :
    (∃ b ∈ bs, Q b) ↔ ∃ a ∈ as, P a := by
  induction h with
  | nil => simp
  | cons hab _ ih => rw [List.exists_mem_cons_iff, List.exists_mem_cons_iff, hPQ _ _ hab, ih]

lemma startVariables_eq_nil (h : p.all isDefinition = true) : p.startVariables = [] := by
  unfold Program.startVariables Program.entities
  induction p with
  | nil => rfl
  | cons st p ih =>
    rw [List.all_cons, Bool.and_eq_true] at h
    rw [List.flatMap_cons, declaredAmong_append, ih h.2, List.append_nil]
    cases st with
    | function signature types body => exact declaredAmong_function signature types body
    | prototype signature => rfl
    | _ => cases h.1

lemma Comprises.none_mem_start (h : Comprises p exported tables code s m) :
    (∃ f ∈ (startFunction p code s.scope).toList, none ∈ f.vars) ↔ ∃ v ∈ p.startVariables, v.2 = .void := by
  rw [h.scope]
  unfold startFunction
  split_ifs with hall
  · simp [startVariables_eq_nil hall]
  · simp only [Option.toList_some, List.mem_singleton, exists_eq_left]
    exact Lowering.none_mem_vars [] .void p.startVariables

end Lowering

open Lowering

lemma exists_void_iff {ds : List Declaration} {vs : List (String × ValueType)}
    (h : ds.map Declaration.variable = vs) : (∃ d ∈ ds, d.type = .void) ↔ ∃ v ∈ vs, v.2 = .void := by
  rw [← h]
  simp [Declaration.variable]

lemma Program.exists_void_iff (p : Program) : (∃ d ∈ p.declarations, d.type = .void) ↔
    (∃ d ∈ p.definitions, ∃ v ∈ d.variables, v.2 = .void) ∨ ∃ v ∈ p.startVariables, v.2 = .void := by
  simp only [Program.declarations, List.mem_append, List.mem_flatMap, or_and_right, exists_or]
  refine or_congr ⟨?_, ?_⟩ (Keel.exists_void_iff (p.startDeclarations_variables []))
  · rintro ⟨d, ⟨definition, hmem, hd⟩, hvoid⟩
    exact ⟨definition, hmem, (Keel.exists_void_iff definition.declarations_variables).mp ⟨d, hd, hvoid⟩⟩
  · rintro ⟨definition, hmem, hv⟩
    obtain ⟨d, hd, hvoid⟩ := (Keel.exists_void_iff definition.declarations_variables).mpr hv
    exact ⟨d, ⟨definition, hmem, hd⟩, hvoid⟩

variable {p : Program} {exported : Bool} {m : Wasm.Module}

lemma lower_none_mem_vars (h : lower p exported = .ok m) :
    (∃ f ∈ m.functions, none ∈ f.vars) ↔ ∃ d ∈ p.declarations, d.type = .void := by
  obtain ⟨tables, code, s, hm⟩ := lower_ok h
  have hfunctions := exists_iff_of_forall₂ (P := fun d => ∃ v ∈ d.variables, v.2 = .void)
    (Q := fun f => none ∈ f.vars) (fun d f hl => hl.none_mem_vars) hm.definitions
  rw [hm.functions, p.exists_void_iff, ← hfunctions, ← hm.none_mem_start]
  simp only [List.mem_append, or_and_right, exists_or]

/-- A program with a void variable outside of functions is refused, and so is one with a void variable in a body,
however deep, unless the value of this variable is of type void, too. In the variables of a module the void ones
that are left show as such of no machine type. -/
theorem lower_voids (p : Program) (exported : Bool) :
    (∀ v ∈ p.globals, v.2 = .void → ∃ e, lower p exported = .error e ∧ compile p exported = .error e) ∧
      (∀ d ∈ p.declarations, d.type = .void → d.value.isVoid p.listed d.known = false →
        ∃ e, lower p exported = .error e ∧ compile p exported = .error e) ∧
      ∀ m, lower p exported = .ok m →
        ((∃ f ∈ m.functions, none ∈ f.vars) ↔ ∃ d ∈ p.declarations, d.type = .void) := by
  refine ⟨fun v hv hvoid => ?_, fun d hd hvoid hvalue => ?_, fun m => lower_none_mem_vars⟩
  · cases h : lower p exported with
    | error e => exact ⟨e, rfl, compile_error h⟩
    | ok m =>
      obtain ⟨tables, code, s, hm⟩ := lower_ok h
      obtain ⟨hglobals, -, hnone⟩ := globalTable_ok hm.globalTable
      exact absurd hvoid (hnone v (hglobals ▸ hv))
  · cases h : lower p exported with
    | error e => exact ⟨e, rfl, compile_error h⟩
    | ok m =>
      obtain ⟨tables, code, s, hm⟩ := lower_ok h
      exact absurd (hm.admits d hd hvoid) (Bool.eq_false_iff.mp hvalue)

def numberSource : String :=
  "fn g() -> void \x7b \x7d\nfn f() -> i32 \x7b if (1 < 2) \x7b void x = g(); void y = (x = 1); \x7d return 1; \x7d\n"

theorem lower_voids_number : ∃ p, parseText numberSource .standard = .ok p ∧
    (∃ d ∈ p.declarations, d.type = .void ∧ d.value.isVoid p.listed d.known = true) ∧
    ∃ e, lower p true = .error e ∧ compile p true = .error e := by
  have hcheck : (match parseText numberSource .standard with
      | .ok p => decide ((∃ d ∈ p.declarations, d.type = .void ∧ d.value.isVoid p.listed d.known = true) ∧
          ∃ d ∈ p.declarations, d.type = .void ∧ d.value.isVoid p.listed d.known = false)
      | .error _ => false) = true := by decide +kernel
  split at hcheck
  · rename_i p hp
    obtain ⟨hadmitted, d, hd, hvoid, hvalue⟩ := of_decide_eq_true hcheck
    exact ⟨p, hp, hadmitted, (lower_voids p true).2.1 d hd hvoid hvalue⟩
  · cases hcheck

def emptySource : String :=
  "fn g() -> void \x7b \x7d\nfn f() -> i32 \x7b void x = g(); return 1; \x7d\n"

theorem lower_keeps_void : ∃ p m, parseText emptySource .standard = .ok p ∧
    (∃ d ∈ p.declarations, d.type = .void) ∧ lower p true = .ok m ∧ compile p true = .ok m ∧
    ∃ f ∈ m.functions, none ∈ f.vars := by
  have hcheck : (match parseText emptySource .standard with
      | .ok p => match compile p true with
        | .ok m => decide (∃ f ∈ m.functions, none ∈ f.vars)
        | .error _ => false
      | .error _ => false) = true := by decide +kernel
  split at hcheck
  · rename_i p hp
    split at hcheck
    · rename_i m hm
      have hnone := of_decide_eq_true hcheck
      obtain ⟨hlower, -⟩ := compile_ok hm
      exact ⟨p, m, hp, (lower_none_mem_vars hlower).mp hnone, hlower, hm, hnone⟩
    · cases hcheck
  · cases hcheck

end Keel
