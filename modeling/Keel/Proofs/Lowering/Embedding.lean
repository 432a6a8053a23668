import Keel.Proofs.Lowering.Programs
import Keel.Proofs.Syntax.Assignments

namespace Keel

namespace Wasm

inductive Instr.Within (y : Instr) : Instr → Prop
  | self : Within y y
  | localSet {i x} : Within y x → Within y (.localSet i x)
  | localTee {i x} : Within y x → Within y (.localTee i x)
  | globalSet {name x} : Within y x → Within y (.globalSet name x)
  | convert {op x} : Within y x → Within y (.convert op x)
  | left {op x z} : Within y x → Within y (.binary op x z)
  | right {op x z} : Within y z → Within y (.binary op x z)
  | argument {callee args x} : x ∈ args → Within y x → Within y (.call callee args)
  | drop {x} : Within y x → Within y (.drop x)
  | block {label result body x} : x ∈ body → Within y x → Within y (.block label result body)
  | test {c x} : Within y c → Within y (.ifThen c x)
  | then {c x} : Within y x → Within y (.ifThen c x)
  | choice {c x z} : Within y c → Within y (.ifElse c x z)
  | yes {c x z} : Within y x → Within y (.ifElse c x z)
  | no {c x z} : Within y z → Within y (.ifElse c x z)

lemma Instr.Within.trans {x y z : Instr} (h : x.Within y) (h' : y.Within z) : x.Within z := by
  induction h' with
  | self => exact h
  | localSet _ ih => exact .localSet ih
  | localTee _ ih => exact .localTee ih
  | globalSet _ ih => exact .globalSet ih
  | convert _ ih => exact .convert ih
  | left _ ih => exact .left ih
  | right _ ih => exact .right ih
  | argument hx _ ih => exact .argument hx ih
  | drop _ ih => exact .drop ih
  | block hx _ ih => exact .block hx ih
  | test _ ih => exact .test ih
  | «then» _ ih => exact .then ih
  | choice _ ih => exact .choice ih
  | yes _ ih => exact .yes ih
  | no _ ih => exact .no ih

def Module.Holds (m : Module) (x : Instr) : Prop := ∃ f ∈ m.functions, x.Within f.body

end Wasm

namespace Lowering

open Wasm (Instr)

section Code

variable {place : Position} {x y z : Lowered} {code : Instr}

lemma within_wrapped (type : ValueType) (code : Instr) : code.Within (wrapped type code) := by
  cases type with
  | i8 => exact .left (.left .self)
  | i16 => exact .left (.left .self)
  | _ => exact .self

lemma within_coerce {type : ValueType} (h : coerce y type place = .ok z) : y.code.Within z.code := by
  obtain ⟨-, rfl⟩ | ⟨-, m, n, -, -, ⟨-, rfl⟩ | ⟨-, changed, hchanged, rfl⟩⟩ := coerce_ok h
  · exact .self
  · exact .left .self
  have hin : y.code.Within changed := by
    obtain ⟨-, rfl⟩ | ⟨op, -, rfl⟩ := changed?_ok hchanged
    · exact .self
    · exact .convert .self
  dsimp only
  split_ifs
  · exact hin.trans (within_wrapped type changed)
  · exact hin

lemma within_operation {op : String} (h : operation place op x y = .ok z) :
    x.code.Within z.code ∧ y.code.Within z.code := by
  obtain ⟨wider, type, operator, l, r, -, -, -, hl, hr, rfl⟩ := operation_ok h
  have hx := within_coerce hl
  have hy := within_coerce hr
  split_ifs
  · exact ⟨.left hx, .right hy⟩
  · have hwrapped := within_wrapped type (.binary operator l.code r.code)
    exact ⟨(Instr.Within.left hx).trans hwrapped, (Instr.Within.right hy).trans hwrapped⟩

lemma within_comparison {op : String} (h : comparison place op x y = .ok code) :
    x.code.Within code ∧ y.code.Within code := by
  obtain ⟨type, operator, l, r, -, -, hl, hr, rfl⟩ := comparison_ok h
  exact ⟨.left (within_coerce hl), .right (within_coerce hr)⟩

lemma within_dropped (x : Lowered) : x.code.Within (dropped x) := by
  unfold dropped
  split_ifs
  · exact .self
  · exact .drop .self

lemma within_assignment {tables : Tables} {name : String} {value : Lower Lowered} {s t : State}
    (h : assignment tables place name value s = .ok (x, t)) : ∃ y, value s = .ok (y, t) ∧ y.code.Within x.code := by
  obtain ⟨y, z, hy, ⟨v, -, hz, rfl⟩ | ⟨-, type, -, hz, rfl⟩⟩ := assignment_ok h
  · exact ⟨y, hy, .localTee (within_coerce hz)⟩
  · exact ⟨y, hy, .block (List.mem_cons_self ..) (.globalSet (within_coerce hz))⟩

lemma within_returning {s t : State} (h : returning place x s = .ok (code, t)) : x.code.Within code := by
  obtain ⟨-, ⟨-, rfl⟩ | ⟨slot, z, -, hz, rfl⟩⟩ := returning_ok h
  · exact .block (List.mem_cons_self ..) (within_dropped x)
  · exact .block (List.mem_cons_self ..) (.localSet (within_coerce hz))

lemma within_joined {first : Instr} {rest : List Instr} {separators : List String}
    (h : joined first rest separators = some code) : ∀ c ∈ first :: rest, c.Within code := by
  induction rest generalizing first separators with
  | nil =>
    cases separators with
    | nil =>
      cases h
      exact List.forall_mem_singleton.mpr .self
    | cons separator separators => cases h
  | cons next rest ih =>
    cases separators with
    | nil => cases h
    | cons separator separators =>
      rw [joined] at h
      obtain ⟨hboth, hrest⟩ := List.forall_mem_cons.mp (ih h)
      refine List.forall_mem_cons.mpr ⟨?_, List.forall_mem_cons.mpr ⟨?_, hrest⟩⟩
      · refine Instr.Within.trans ?_ hboth
        split_ifs <;> exact .choice .self
      · refine Instr.Within.trans ?_ hboth
        split_ifs
        · exact .yes .self
        · exact .no .self

lemma within_joinedConditions {codes : List Instr} {separators : List String}
    (h : joinedConditions place codes separators = .ok code) : ∀ c ∈ codes, c.Within code := by
  unfold joinedConditions at h
  cases codes with
  | nil => cases h
  | cons first rest =>
    dsimp only at h
    cases hj : joined first rest separators with
    | none =>
      rw [hj] at h
      cases h
    | some joint =>
      rw [hj] at h
      cases h
      exact within_joined hj

lemma within_functionOf {signature : Prototype} {statements : List Instr} {scope : Scope} (h : code ∈ statements) :
    code.Within (functionOf signature statements scope).body :=
  .block (List.mem_cons_self ..) (.block h .self)

end Code

variable {tables : Tables} {P Q : Instr → Prop} {place : Position} {s t u : State} {x : Lowered}

def Stands (tables : Tables) (P : Instr → Prop) (t : State) (e : Expr) : Prop :=
  ∃ r x u, expression tables e r = .ok (x, u) ∧ u.strings.Within t.strings ∧
    (P x.code ∨ ∃ f ∈ t.functions, x.code.Within f.body)

def Placed (tables : Tables) (P : Instr → Prop) (t : State) (e : Expr) : Prop :=
  e.isReference = true ∨ Stands tables P t e

lemma placed_self {e : Expr} (h : expression tables e s = .ok (x, t)) : Placed tables (·.Within x.code) t e :=
  .inr ⟨s, x, t, h, .refl _, .inl .self⟩

lemma Placed.mono {es : List Entity} {e : Expr} (h : Placed tables P t e) (hcode : ∀ y, P y → Q y)
    (hadds : Adds tables es t u) : Placed tables Q u e := by
  refine h.imp_right ?_
  rintro ⟨r, x, v, hx, hstrings, hplace⟩
  refine ⟨r, x, v, hx, hstrings.trans hadds.strings_within, hplace.imp (hcode _) ?_⟩
  rintro ⟨f, hf, hin⟩
  obtain ⟨fs, hfs, -⟩ := hadds.functions
  exact ⟨f, hfs ▸ List.mem_append_left _ hf, hin⟩

lemma Placed.code {e : Expr} (h : Placed tables P t e) (hcode : ∀ y, P y → Q y) : Placed tables Q t e :=
  h.mono hcode (.refl t)

mutual

lemma expression_placed : ∀ (e : Expr) ⦃s t : State⦄ ⦃x : Lowered⦄, expression tables e s = .ok (x, t) →
    ∀ y ∈ e.parts, Placed tables (·.Within x.code) t y
  | .binary place op lhs rhs => by
    intro s t x h
    refine List.forall_mem_cons.mpr ⟨placed_self h, List.forall_mem_append.mpr ?_⟩
    by_cases hop : op = "="
    · obtain ⟨site, name, rfl, ha⟩ := expression_assignment hop h
      obtain ⟨z, hz, hin⟩ := within_assignment ha
      exact ⟨List.forall_mem_singleton.mpr (.inl rfl),
        fun y hy => (expression_placed rhs hz y hy).code fun _ hw => hw.trans hin⟩
    · obtain ⟨a, u, b, ha, hb, ho⟩ := expression_operation hop h
      obtain ⟨hleft, hright⟩ := within_operation ho
      exact ⟨fun y hy => (expression_placed lhs ha y hy).mono (fun _ hw => hw.trans hleft) (adds_expression rhs hb),
        fun y hy => (expression_placed rhs hb y hy).code fun _ hw => hw.trans hright⟩
  | .call place callee args => by
    intro s t x h
    refine List.forall_mem_cons.mpr ⟨placed_self h, ?_⟩
    rw [expression] at h
    obtain ⟨signature, codes, -, hn, hc, rfl⟩ := call_ok h
    intro y hy
    refine (arguments_placed args hn.symm hc y hy).code ?_
    rintro _ ⟨c, hc, hw⟩
    exact .argument hc hw
  | .cast place target value => by
    intro s t x h
    obtain ⟨z, hz, ho⟩ := expression_cast h
    exact List.forall_mem_cons.mpr ⟨placed_self h,
      fun y hy => (expression_placed value hz y hy).code fun _ hw => hw.trans (within_coerce ho)⟩
  | .assign place name value => by
    intro s t x h
    refine List.forall_mem_cons.mpr ⟨placed_self h, ?_⟩
    rw [expression] at h
    obtain ⟨z, hz, hin⟩ := within_assignment h
    exact fun y hy => (expression_placed value hz y hy).code fun _ hw => hw.trans hin
  | .conditional place conditions separators body => by
    intro s t x h
    refine List.forall_mem_cons.mpr ⟨placed_self h, List.forall_mem_append.mpr ?_⟩
    obtain ⟨codes, u, code, statements, hc, hj, hb, rfl⟩ := expression_conditional h
    refine ⟨fun y hy => (conditionList_placed conditions hc y hy).mono ?_ (adds_block body hb),
      fun y hy => (block_placed body hb y hy).code ?_⟩
    · rintro _ ⟨c, hmem, hw⟩
      exact .test (hw.trans (within_joinedConditions hj c hmem))
    · rintro _ ⟨c, hmem, hw⟩
      exact .then (.block hmem hw)
  | .number _ _ _ | .reference _ _ | .string _ _ | .importFile _ _ => by
    intro s t x h
    exact List.forall_mem_singleton.mpr (placed_self h)

lemma arguments_placed {place : Position} : ∀ (es : List Expr) ⦃types : List ValueType⦄ ⦃s t : State⦄
    ⦃codes : List Instr⦄, es.length = types.length → arguments tables place es types s = .ok (codes, t) →
    ∀ y ∈ Expr.partsOfAll es, Placed tables (fun z => ∃ c ∈ codes, z.Within c) t y
  | [] => fun _ _ _ _ _ _ _ hy => nomatch hy
  | e :: es => by
    intro types s t codes hn h
    cases types with
    | nil => cases hn
    | cons type types =>
      obtain ⟨a, u, z, rest, ha, hz, hr, rfl⟩ := arguments_cons h
      refine List.forall_mem_append.mpr ⟨fun y hy => (expression_placed e ha y hy).mono ?_
        (adds_arguments es (Nat.succ.inj hn) hr), fun y hy => (arguments_placed es (Nat.succ.inj hn) hr y hy).code ?_⟩
      · exact fun _ hw => ⟨z.code, List.mem_cons_self .., hw.trans (within_coerce hz)⟩
      · exact fun _ ⟨c, hc, hw⟩ => ⟨c, List.mem_cons_of_mem _ hc, hw⟩

lemma condition_placed {place : Position} : ∀ (c : Condition) ⦃s t : State⦄ ⦃code : Instr⦄,
    condition tables place c s = .ok (code, t) → ∀ y ∈ c.parts, Placed tables (·.Within code) t y
  | .compare lhs op rhs => by
    intro s t code h
    obtain ⟨a, u, b, ha, hb, ho⟩ := condition_compare h
    obtain ⟨hleft, hright⟩ := within_comparison ho
    exact List.forall_mem_append.mpr
      ⟨fun y hy => (expression_placed lhs ha y hy).mono (fun _ hw => hw.trans hleft) (adds_expression rhs hb),
        fun y hy => (expression_placed rhs hb y hy).code fun _ hw => hw.trans hright⟩

lemma conditionList_placed {place : Position} : ∀ (cs : List Condition) ⦃s t : State⦄ ⦃codes : List Instr⦄,
    conditionList tables place cs s = .ok (codes, t) →
    ∀ y ∈ Condition.partsOfAll cs, Placed tables (fun z => ∃ c ∈ codes, z.Within c) t y
  | [] => fun _ _ _ _ _ hy => nomatch hy
  | c :: cs => by
    intro s t codes h
    obtain ⟨code, u, rest, hc, hr, rfl⟩ := conditionList_cons h
    refine List.forall_mem_append.mpr ⟨fun y hy => (condition_placed c hc y hy).mono ?_ (adds_conditionList cs hr),
      fun y hy => (conditionList_placed cs hr y hy).code ?_⟩
    · exact fun _ hw => ⟨code, List.mem_cons_self .., hw⟩
    · exact fun _ ⟨c, hc, hw⟩ => ⟨c, List.mem_cons_of_mem _ hc, hw⟩

lemma statement_placed : ∀ (st : Stmt) ⦃s t : State⦄ ⦃code : Instr⦄, statement tables st s = .ok (code, t) →
    ∀ y ∈ st.parts, Placed tables (fun z => isDefinition st = false ∧ z.Within code) t y
  | .expression value => by
    intro s t code h
    obtain ⟨z, hz, rfl⟩ := statement_expression h
    exact fun y hy => (expression_placed value hz y hy).code fun _ hw => ⟨rfl, hw.trans (within_dropped z)⟩
  | .call place callee args => by
    intro s t code h
    obtain ⟨z, hz, rfl⟩ := statement_call h
    exact fun y hy => (expression_placed _ hz y (List.mem_cons_of_mem _ hy)).code
      fun _ hw => ⟨rfl, hw.trans (within_dropped z)⟩
  | .declare place type name value => by
    intro s t code h
    obtain ⟨z, u, w, hz, hw, rfl, rfl⟩ := statement_declare h
    have hadds : Adds tables [.declaration name type] u { u with scope := (u.scope.declare name type).2 } :=
      ⟨rfl, rfl, [], by simp, .nil⟩
    exact fun y hy => (expression_placed value hz y hy).mono
      (fun _ hin => ⟨rfl, .localSet (hin.trans (within_coerce hw))⟩) hadds
  | .function signature types body => by
    intro s t code h
    obtain ⟨statements, u, hb, -, rfl⟩ := statement_function h
    intro y hy
    obtain href | ⟨r, z, v, hz, hstrings, hplace⟩ := block_placed body hb y hy
    · exact .inl href
    refine .inr ⟨r, z, v, hz, hstrings, .inr ?_⟩
    obtain ⟨c, hc, hw⟩ | ⟨f, hf, hw⟩ := hplace
    · exact ⟨_, List.mem_append_right _ (List.mem_singleton_self _), hw.trans (within_functionOf hc)⟩
    · exact ⟨f, List.mem_append_left _ hf, hw⟩
  | .prototype signature => fun _ _ _ _ _ hy => nomatch hy
  | .ret place value => by
    intro s t code h
    obtain ⟨z, hz, hr⟩ := statement_ret h
    exact fun y hy => (expression_placed value hz y hy).code fun _ hw => ⟨rfl, hw.trans (within_returning hr)⟩

lemma block_placed : ∀ (ss : List Stmt) ⦃s t : State⦄ ⦃codes : List Instr⦄, block tables ss s = .ok (codes, t) →
    ∀ y ∈ Stmt.partsOfAll ss, Placed tables (fun z => ∃ c ∈ codes, z.Within c) t y
  | [] => fun _ _ _ _ _ hy => nomatch hy
  | st :: ss => by
    intro s t codes h
    obtain ⟨code, u, rest, hc, hr, rfl⟩ := block_cons h
    refine List.forall_mem_append.mpr ⟨fun y hy => (statement_placed st hc y hy).mono ?_ (adds_block ss hr),
      fun y hy => (block_placed ss hr y hy).code ?_⟩
    · exact fun _ ⟨_, hw⟩ => ⟨code, List.mem_cons_self .., hw⟩
    · exact fun _ ⟨c, hc, hw⟩ => ⟨c, List.mem_cons_of_mem _ hc, hw⟩

end

lemma topStatement_placed {st : Stmt} {code : Instr} (h : topStatement tables st s = .ok (code, t)) :
    ∀ y ∈ st.parts, Placed tables (fun z => isDefinition st = false ∧ z.Within code) t y := by
  by_cases hglobal : IsGlobal st
  · cases st with
    | declare place type name value =>
      obtain ⟨z, w, hz, hw, rfl⟩ := topStatement_declare h
      exact fun y hy => (expression_placed value hz y hy).code
        fun _ hin => ⟨rfl, .globalSet (hin.trans (within_coerce hw))⟩
    | _ => exact absurd hglobal id
  · rw [topStatement_eq hglobal] at h
    exact statement_placed st h

-- There is a start function if not all statements are definitions, which leave no code where they stand.
lemma topStatements_placed {p : Program} {codes : List Instr} (h : topStatements tables p s = .ok (codes, t)) :
    ∀ y ∈ p.parts, Placed tables (fun z => p.all isDefinition = false ∧ ∃ c ∈ codes, z.Within c) t y := by
  induction p generalizing s codes with
  | nil => exact fun _ hy => nomatch hy
  | cons st p ih =>
    obtain ⟨code, u, rest, hc, hr, rfl⟩ := topStatements_cons h
    refine List.forall_mem_append.mpr ⟨fun y hy => (topStatement_placed hc y hy).mono ?_ (adds_topStatements hr),
      fun y hy => (ih hr y hy).code ?_⟩
    · exact fun _ ⟨hst, hw⟩ => ⟨by rw [List.all_cons, hst, Bool.false_and], code, List.mem_cons_self .., hw⟩
    · exact fun _ ⟨hp, c, hc, hw⟩ => ⟨by rw [List.all_cons, hp, Bool.and_false], c, List.mem_cons_of_mem _ hc, hw⟩

lemma Comprises.holds {p : Program} {exported : Bool} {m : Wasm.Module} {code : List Instr}
    (h : Comprises p exported tables code s m) {e : Expr} (he : e ∈ p.parts) (href : e.isReference = false) :
    ∃ r x u, expression tables e r = .ok (x, u) ∧ u.strings.Within s.strings ∧ m.Holds x.code := by
  obtain htarget | ⟨r, x, u, hx, hstrings, hplace⟩ := topStatements_placed h.statements e he
  · cases htarget.symm.trans href
  refine ⟨r, x, u, hx, hstrings, ?_⟩
  unfold Wasm.Module.Holds
  rw [h.functions]
  obtain ⟨hstart, c, hc, hw⟩ | ⟨f, hf, hw⟩ := hplace
  · have hsome : startFunction p code s.scope =
        some ⟨startName, [], none, s.scope.vars, .block (some endLabel) none code⟩ := by
      unfold startFunction
      rw [hstart]
      rfl
    exact ⟨_, List.mem_append_right _ (Option.mem_toList.mpr hsome), .block hc hw⟩
  · exact ⟨f, List.mem_append_left _ hf, hw⟩

end Lowering

end Keel
