import Keel.Lowering.Code
import Mathlib.Tactic.Common
import Mathlib.Tactic.SplitIfs

namespace Keel.Lowering

variable {α β : Type} {s t : State}

lemma except_bind_ok {ε : Type} {x : Except ε α} {f : α → Except ε β} {b : β} :
    (x >>= f) = .ok b ↔ ∃ a, x = .ok a ∧ f a = .ok b := by
  cases x <;> simp [bind, Except.bind]

lemma except_bind_error {ε : Type} {x : Except ε α} {f : α → Except ε β} {e : ε} :
    (x >>= f) = .error e ↔ x = .error e ∨ ∃ a, x = .ok a ∧ f a = .error e := by
  cases x <;> simp [bind, Except.bind]

namespace Lower

lemma bind_ok {x : Lower α} {f : α → Lower β} {b : β} :
    (x >>= f) s = .ok (b, t) ↔ ∃ a u, x s = .ok (a, u) ∧ f a u = .ok (b, t) := by
  simp only [bind, StateT.bind, Except.bind]
  cases x s with
  | error e => simp
  | ok r =>
    constructor
    · intro h
      exact ⟨r.1, r.2, rfl, h⟩
    · rintro ⟨a, u, hr, h⟩
      cases hr
      exact h

lemma pure_ok {a b : α} : (pure a : Lower α) s = .ok (b, t) ↔ a = b ∧ s = t := by
  constructor
  · intro h
    cases h
    exact ⟨rfl, rfl⟩
  · rintro ⟨rfl, rfl⟩
    rfl

lemma fail_ok {cause : CompileCause} {place : Position} {a : α} :
    ¬ (fail cause place : Lower α) s = .ok (a, t) := by
  simp [fail, throw, throwThe, MonadExceptOf.throw, StateT.lift, bind, Except.bind]

lemma lift_ok {x : Except CompileError α} {a : α} :
    (liftM x : Lower α) s = .ok (a, t) ↔ x = .ok a ∧ s = t := by
  cases x <;> simp [liftM, monadLift, MonadLift.monadLift, StateT.lift, bind, Except.bind, pure, Except.pure]

lemma get_bind {f : State → Lower β} : (get >>= f) s = f s s := rfl

lemma internString_ok {value : String} {address : Nat} (h : internString value s = .ok (address, t)) :
    address = (s.strings.intern value).1 ∧ t = { s with strings := (s.strings.intern value).2 } := by
  cases h
  exact ⟨rfl, rfl⟩

lemma declareLocal_ok {name : String} {type : ValueType} {index : Nat}
    (h : declareLocal name type s = .ok (index, t)) :
    index = (s.scope.declare name type).1 ∧ t = { s with scope := (s.scope.declare name type).2 } := by
  cases h
  exact ⟨rfl, rfl⟩

lemma addFunction_ok {f : Wasm.Function} {a : Unit} (h : addFunction f s = .ok (a, t)) :
    t = { s with functions := s.functions ++ [f] } := by
  cases h
  rfl

lemma inScope_ok {scope : Scope} {body : Lower α} {r : α × Scope} (h : inScope scope body s = .ok (r, t)) :
    ∃ u, body { s with scope := scope } = .ok (r.1, u) ∧ r.2 = u.scope ∧ t = { u with scope := s.scope } := by
  unfold inScope at h
  rw [get_bind] at h
  obtain ⟨_, u, hu, h⟩ := bind_ok.mp h
  cases hu
  obtain ⟨a, v, hv, h⟩ := bind_ok.mp h
  cases h
  exact ⟨v, hv, rfl, rfl⟩

end Lower

open Lower

variable {tables : Tables} {place : Position} {name : String} {x : Lowered}

lemma reference_ok (h : reference tables place name s = .ok (x, t)) :
    s = t ∧ ((∃ v, s.scope.locals.lookup name = some v ∧ x = ⟨.localGet v.index, v.type⟩) ∨
      (s.scope.locals.lookup name = none ∧
        ∃ type, tables.globals.lookup name = some type ∧ x = ⟨.globalGet name, type⟩)) := by
  unfold reference at h
  rw [get_bind] at h
  cases hl : s.scope.locals.lookup name with
  | some v =>
    rw [hl] at h
    obtain ⟨rfl, rfl⟩ := pure_ok.mp h
    exact ⟨rfl, .inl ⟨v, rfl, rfl⟩⟩
  | none =>
    rw [hl] at h
    cases hg : tables.globals.lookup name with
    | some type =>
      rw [hg] at h
      obtain ⟨rfl, rfl⟩ := pure_ok.mp h
      exact ⟨rfl, .inr ⟨rfl, type, rfl, rfl⟩⟩
    | none =>
      rw [hg] at h
      exact absurd h fail_ok

lemma assignment_ok {value : Lower Lowered} (h : assignment tables place name value s = .ok (x, t)) :
    ∃ y z, value s = .ok (y, t) ∧
      ((∃ v, s.scope.locals.lookup name = some v ∧ coerce y v.type place = .ok z ∧
          x = ⟨.localTee v.index z.code, v.type⟩) ∨
        (s.scope.locals.lookup name = none ∧ ∃ type, tables.globals.lookup name = some type ∧
          coerce y type place = .ok z ∧
          x = ⟨.block none type.numType? [.globalSet name z.code, .globalGet name], type⟩)) := by
  unfold assignment at h
  rw [get_bind] at h
  cases hl : s.scope.locals.lookup name with
  | some v =>
    rw [hl] at h
    obtain ⟨y, u, hy, h⟩ := bind_ok.mp h
    obtain ⟨z, w, hz, h⟩ := bind_ok.mp h
    obtain ⟨hc, rfl⟩ := lift_ok.mp hz
    obtain ⟨rfl, rfl⟩ := pure_ok.mp h
    exact ⟨y, z, hy, .inl ⟨v, rfl, hc, rfl⟩⟩
  | none =>
    rw [hl] at h
    cases hg : tables.globals.lookup name with
    | some type =>
      rw [hg] at h
      obtain ⟨y, u, hy, h⟩ := bind_ok.mp h
      obtain ⟨z, w, hz, h⟩ := bind_ok.mp h
      obtain ⟨hc, rfl⟩ := lift_ok.mp hz
      obtain ⟨rfl, rfl⟩ := pure_ok.mp h
      exact ⟨y, z, hy, .inr ⟨rfl, type, rfl, hc, rfl⟩⟩
    | none =>
      rw [hg] at h
      exact absurd h fail_ok

lemma call_ok {callee : String} {given : Nat} {args : List ValueType → Lower (List Wasm.Instr)}
    (h : call tables place callee given args s = .ok (x, t)) :
    ∃ signature codes, tables.functions.lookup callee = some signature ∧ signature.parameters.length = given ∧
      args signature.parameters s = .ok (codes, t) ∧ x = ⟨.call callee codes, signature.result⟩ := by
  unfold call at h
  cases hs : tables.functions.lookup callee with
  | none =>
    rw [hs] at h
    exact absurd h fail_ok
  | some signature =>
    simp only [hs] at h
    split_ifs at h with hn
    · exact absurd h fail_ok
    · obtain ⟨codes, u, hc, h⟩ := bind_ok.mp h
      obtain ⟨rfl, rfl⟩ := pure_ok.mp h
      exact ⟨signature, codes, rfl, not_not.mp hn, hc, rfl⟩

lemma returning_ok {value : Lowered} {code : Wasm.Instr} (h : returning place value s = .ok (code, t)) :
    s = t ∧ ((s.scope.returnSlot = none ∧ code = .block none none [dropped value, .br endLabel]) ∨
      ∃ slot z, s.scope.returnSlot = some slot ∧ coerce value s.scope.result place = .ok z ∧
        code = .block none none [.localSet slot z.code, .br endLabel]) := by
  unfold returning at h
  rw [get_bind] at h
  cases hr : s.scope.returnSlot with
  | none =>
    simp only [hr] at h
    obtain ⟨rfl, rfl⟩ := pure_ok.mp h
    exact ⟨rfl, .inl ⟨rfl, rfl⟩⟩
  | some slot =>
    simp only [hr] at h
    obtain ⟨z, u, hz, h⟩ := bind_ok.mp h
    obtain ⟨hc, rfl⟩ := lift_ok.mp hz
    obtain ⟨rfl, rfl⟩ := pure_ok.mp h
    exact ⟨rfl, .inr ⟨slot, z, rfl, hc, rfl⟩⟩

lemma numType?_eq_none_iff {type : ValueType} : type.numType? = none ↔ type = .void := by
  cases type <;> simp [ValueType.numType?]

lemma exists_numType? {type : ValueType} (h : type ≠ .void) : ∃ t, type.numType? = some t :=
  Option.ne_none_iff_exists'.mp (mt numType?_eq_none_iff.mp h)

lemma changed?_ok {m n : Wasm.NumType} {code changed : Wasm.Instr}
    (h : changed? (some m) (some n) code = some changed) :
    (m = n ∧ changed = code) ∨ ∃ op, Wasm.Conversion.between? m n = some op ∧ changed = .convert op code := by
  unfold changed? at h
  split_ifs at h with hsame
  · exact .inl ⟨Option.some.inj hsame, (Option.some.inj h).symm⟩
  · obtain ⟨op, hop, rfl⟩ := Option.map_eq_some_iff.mp h
    exact .inr ⟨op, hop, rfl⟩

lemma changed?_isSome (m n : Wasm.NumType) (code : Wasm.Instr) :
    ∃ changed, changed? (some m) (some n) code = some changed := by
  cases m <;> cases n <;> exact ⟨_, rfl⟩

lemma coerce_isOk {target : ValueType} (place : Position) (hx : x.type ≠ .void) (htarget : target ≠ .void) :
    ∃ y, coerce x target place = .ok y := by
  obtain ⟨m, hm⟩ := exists_numType? hx
  obtain ⟨n, hn⟩ := exists_numType? htarget
  obtain ⟨changed, hchanged⟩ := changed?_isSome m n x.code
  unfold coerce
  rw [if_neg (not_or.mpr ⟨hx, htarget⟩), hm, hn, hchanged]
  split_ifs <;> exact ⟨_, rfl⟩

lemma coerce_ok {target : ValueType} {y : Lowered} (h : coerce x target place = .ok y) :
    (x.type = target ∧ y = x) ∨ (x.type ≠ target ∧ ∃ m n, x.type.numType? = some m ∧ target.numType? = some n ∧
      ((target = .bool ∧ y = ⟨nonzero m x.code, target⟩) ∨
        (target ≠ .bool ∧ ∃ changed, changed? (some m) (some n) x.code = some changed ∧
          y = ⟨if target.rank < x.type.rank then wrapped target changed else changed, target⟩))) := by
  unfold coerce at h
  by_cases htype : x.type = target
  · rw [if_pos htype] at h
    cases h
    exact .inl ⟨htype, rfl⟩
  by_cases hvoid : x.type = .void ∨ target = .void
  · rw [if_neg htype, if_pos hvoid] at h
    cases h
  obtain ⟨m, hm⟩ := exists_numType? (not_or.mp hvoid).1
  obtain ⟨n, hn⟩ := exists_numType? (not_or.mp hvoid).2
  rw [if_neg htype, if_neg hvoid, hm, hn] at h
  refine .inr ⟨htype, m, n, hm, hn, ?_⟩
  by_cases hbool : target = .bool
  · rw [if_pos hbool] at h
    cases h
    exact .inl ⟨hbool, rfl⟩
  · rw [if_neg hbool] at h
    cases hchanged : changed? (some m) (some n) x.code with
    | none =>
      rw [hchanged] at h
      cases h
    | some changed =>
      rw [hchanged] at h
      cases h
      exact .inr ⟨hbool, changed, rfl, rfl⟩

lemma commonType_ne_void {a b type : ValueType} {place : Position} (h : commonType a b place = .ok type) :
    a ≠ .void ∧ b ≠ .void := by
  unfold commonType at h
  split_ifs at h with hvoid
  · exact not_or.mp hvoid
  · exact not_or.mp hvoid

lemma commonType_eq {a b type : ValueType} (h : commonType a b place = .ok type) : type = a ∨ type = b := by
  unfold commonType at h
  split_ifs at h <;> cases h
  · exact .inl rfl
  · exact .inr rfl

lemma operation_ok {op : String} {a b : Lowered} (h : operation place op a b = .ok x) :
    ∃ wider type operator l r, commonType a.type b.type place = .ok wider ∧
      type = (if wider = .bool ∧ !yieldsTruth op then .i32 else wider) ∧ operator? type op = some operator ∧
      coerce a type place = .ok l ∧ coerce b type place = .ok r ∧
      x = if yieldsTruth op then ⟨.binary operator l.code r.code, .bool⟩
        else ⟨wrapped type (.binary operator l.code r.code), type⟩ := by
  unfold operation at h
  obtain ⟨wider, hw, h⟩ := except_bind_ok.mp h
  cases ho : operator? (if wider = .bool ∧ !yieldsTruth op then .i32 else wider) op with
  | none =>
    simp only [ho] at h
    cases h
  | some operator =>
    simp only [ho] at h
    obtain ⟨l, hl, h⟩ := except_bind_ok.mp h
    obtain ⟨r, hr, h⟩ := except_bind_ok.mp h
    cases h
    exact ⟨wider, _, operator, l, r, hw, rfl, ho, hl, hr, rfl⟩

lemma comparison_ok {op : String} {a b : Lowered} {code : Wasm.Instr} (h : comparison place op a b = .ok code) :
    ∃ type operator l r, commonType a.type b.type place = .ok type ∧ operator? type op = some operator ∧
      coerce a type place = .ok l ∧ coerce b type place = .ok r ∧ code = .binary operator l.code r.code := by
  unfold comparison at h
  obtain ⟨type, hw, h⟩ := except_bind_ok.mp h
  cases ho : operator? type op with
  | none =>
    simp only [ho] at h
    cases h
  | some operator =>
    simp only [ho] at h
    obtain ⟨l, hl, h⟩ := except_bind_ok.mp h
    obtain ⟨r, hr, h⟩ := except_bind_ok.mp h
    cases h
    exact ⟨type, operator, l, r, hw, ho, hl, hr, rfl⟩

lemma joined_ok {P : Wasm.Instr → Prop} (hchoice : ∀ c x y, P c → P x → P y → P (.ifElse c x y))
    (hconst : ∀ n, P (i32Const n)) {first code : Wasm.Instr} {rest : List Wasm.Instr} {separators : List String}
    (hfirst : P first) (hrest : ∀ c ∈ rest, P c) (h : joined first rest separators = some code) : P code := by
  induction rest generalizing first separators with
  | nil =>
    cases separators with
    | nil =>
      cases h
      exact hfirst
    | cons separator separators => cases h
  | cons next rest ih =>
    cases separators with
    | nil => cases h
    | cons separator separators =>
      rw [joined] at h
      refine ih ?_ (fun c hc => hrest c (List.mem_cons_of_mem _ hc)) h
      have hnext := hrest next (List.mem_cons_self ..)
      split_ifs
      · exact hchoice _ _ _ hfirst hnext (hconst 0)
      · exact hchoice _ _ _ hfirst (hconst 1) hnext

lemma joinedConditions_ok {P : Wasm.Instr → Prop} (hchoice : ∀ c x y, P c → P x → P y → P (.ifElse c x y))
    (hconst : ∀ n, P (i32Const n)) {code : Wasm.Instr} {codes : List Wasm.Instr} {separators : List String}
    (hcodes : ∀ c ∈ codes, P c) (h : joinedConditions place codes separators = .ok code) : P code := by
  unfold joinedConditions at h
  cases codes with
  | nil => cases h
  | cons first rest =>
    dsimp only at h
    cases hj : joined first rest separators with
    | none =>
      rw [hj] at h
      cases h
    | some joint =>
      rw [hj] at h
      cases h
      exact joined_ok hchoice hconst (hcodes first (List.mem_cons_self ..))
        (fun c hc => hcodes c (List.mem_cons_of_mem _ hc)) hj

-- The equations of these functions are derived here, once for all the lemmas below that rewrite with them.
attribute [local simp] expression arguments condition conditionList statement block

section Expressions

lemma expression_number {value : Double} {type : ValueType}
    (h : expression tables (.number place value type) s = .ok (x, t)) :
    literal value type place = .ok x ∧ s = t := by
  rw [expression] at h
  exact lift_ok.mp h

lemma expression_assignment {op : String} {lhs rhs : Expr} (hop : op = "=")
    (h : expression tables (.binary place op lhs rhs) s = .ok (x, t)) :
    ∃ site name, lhs = .reference site name ∧ assignment tables place name (expression tables rhs) s = .ok (x, t) := by
  cases lhs with
  | reference site name =>
    simp only [expression, if_pos hop] at h
    exact ⟨site, name, rfl, h⟩
  | _ =>
    simp only [expression, if_pos hop] at h
    exact absurd h fail_ok

lemma expression_operation {op : String} {lhs rhs : Expr} (hop : op ≠ "=")
    (h : expression tables (.binary place op lhs rhs) s = .ok (x, t)) :
    ∃ a u b, expression tables lhs s = .ok (a, u) ∧ expression tables rhs u = .ok (b, t) ∧
      operation place op a b = .ok x := by
  simp only [expression, if_neg hop] at h
  obtain ⟨a, u, ha, h⟩ := bind_ok.mp h
  obtain ⟨b, v, hb, h⟩ := bind_ok.mp h
  obtain ⟨ho, rfl⟩ := lift_ok.mp h
  exact ⟨a, u, b, ha, hb, ho⟩

lemma expression_cast {target : ValueType} {value : Expr}
    (h : expression tables (.cast place target value) s = .ok (x, t)) :
    ∃ y, expression tables value s = .ok (y, t) ∧ coerce y target place = .ok x := by
  rw [expression] at h
  obtain ⟨y, u, hy, h⟩ := bind_ok.mp h
  obtain ⟨ho, rfl⟩ := lift_ok.mp h
  exact ⟨y, hy, ho⟩

lemma expression_string {value : String} (h : expression tables (.string place value) s = .ok (x, t)) :
    x = ⟨i32Const (s.strings.intern value).1, .i32⟩ ∧ t = { s with strings := (s.strings.intern value).2 } := by
  rw [expression] at h
  obtain ⟨address, u, ha, h⟩ := bind_ok.mp h
  obtain ⟨rfl, rfl⟩ := internString_ok ha
  obtain ⟨rfl, rfl⟩ := pure_ok.mp h
  exact ⟨rfl, rfl⟩

lemma expression_conditional {conditions : List Condition} {separators : List String} {body : List Stmt}
    (h : expression tables (.conditional place conditions separators body) s = .ok (x, t)) :
    ∃ codes u condition statements, conditionList tables place conditions s = .ok (codes, u) ∧
      joinedConditions place codes separators = .ok condition ∧ block tables body u = .ok (statements, t) ∧
      x = ⟨.ifThen condition (.block none none statements), .void⟩ := by
  rw [expression] at h
  obtain ⟨codes, u, hc, h⟩ := bind_ok.mp h
  obtain ⟨condition, v, hj, h⟩ := bind_ok.mp h
  obtain ⟨hcond, rfl⟩ := lift_ok.mp hj
  obtain ⟨statements, w, hb, h⟩ := bind_ok.mp h
  obtain ⟨rfl, rfl⟩ := pure_ok.mp h
  exact ⟨codes, u, condition, statements, hc, hcond, hb, rfl⟩

lemma expression_import {path : String} (h : expression tables (.importFile place path) s = .ok (x, t)) :
    x = ⟨.nop, .void⟩ ∧ s = t := by
  rw [expression] at h
  obtain ⟨rfl, rfl⟩ := pure_ok.mp h
  exact ⟨rfl, rfl⟩

lemma arguments_nil {types : List ValueType} {codes : List Wasm.Instr}
    (h : arguments tables place [] types s = .ok (codes, t)) : codes = [] ∧ s = t := by
  simp only [arguments] at h
  obtain ⟨rfl, rfl⟩ := pure_ok.mp h
  exact ⟨rfl, rfl⟩

lemma arguments_cons {e : Expr} {es : List Expr} {type : ValueType} {types : List ValueType}
    {codes : List Wasm.Instr} (h : arguments tables place (e :: es) (type :: types) s = .ok (codes, t)) :
    ∃ y u z rest, expression tables e s = .ok (y, u) ∧ coerce y type place = .ok z ∧
      arguments tables place es types u = .ok (rest, t) ∧ codes = z.code :: rest := by
  rw [arguments] at h
  obtain ⟨y, u, hy, h⟩ := bind_ok.mp h
  obtain ⟨z, v, hz, h⟩ := bind_ok.mp h
  obtain ⟨hc, rfl⟩ := lift_ok.mp hz
  obtain ⟨rest, w, hr, h⟩ := bind_ok.mp h
  obtain ⟨rfl, rfl⟩ := pure_ok.mp h
  exact ⟨y, u, z, rest, hy, hc, hr, rfl⟩

lemma condition_compare {lhs rhs : Expr} {op : String} {code : Wasm.Instr}
    (h : condition tables place (.compare lhs op rhs) s = .ok (code, t)) :
    ∃ a u b, expression tables lhs s = .ok (a, u) ∧ expression tables rhs u = .ok (b, t) ∧
      comparison place op a b = .ok code := by
  rw [condition] at h
  obtain ⟨a, u, ha, h⟩ := bind_ok.mp h
  obtain ⟨b, v, hb, h⟩ := bind_ok.mp h
  obtain ⟨ho, rfl⟩ := lift_ok.mp h
  exact ⟨a, u, b, ha, hb, ho⟩

lemma conditionList_nil {codes : List Wasm.Instr} (h : conditionList tables place [] s = .ok (codes, t)) :
    codes = [] ∧ s = t := by
  rw [conditionList] at h
  obtain ⟨rfl, rfl⟩ := pure_ok.mp h
  exact ⟨rfl, rfl⟩

lemma conditionList_cons {c : Condition} {cs : List Condition} {codes : List Wasm.Instr}
    (h : conditionList tables place (c :: cs) s = .ok (codes, t)) :
    ∃ code u rest, condition tables place c s = .ok (code, u) ∧
      conditionList tables place cs u = .ok (rest, t) ∧ codes = code :: rest := by
  rw [conditionList] at h
  obtain ⟨code, u, hc, h⟩ := bind_ok.mp h
  obtain ⟨rest, v, hr, h⟩ := bind_ok.mp h
  obtain ⟨rfl, rfl⟩ := pure_ok.mp h
  exact ⟨code, u, rest, hc, hr, rfl⟩

end Expressions

section Statements

variable {code : Wasm.Instr}

lemma statement_expression {value : Expr} (h : statement tables (.expression value) s = .ok (code, t)) :
    ∃ y, expression tables value s = .ok (y, t) ∧ code = dropped y := by
  rw [statement] at h
  obtain ⟨y, u, hy, h⟩ := bind_ok.mp h
  obtain ⟨rfl, rfl⟩ := pure_ok.mp h
  exact ⟨y, hy, rfl⟩

lemma statement_call {callee : String} {args : List Expr}
    (h : statement tables (.call place callee args) s = .ok (code, t)) :
    ∃ y, expression tables (.call place callee args) s = .ok (y, t) ∧ code = dropped y := by
  rw [statement] at h
  obtain ⟨y, u, hy, h⟩ := bind_ok.mp h
  obtain ⟨rfl, rfl⟩ := pure_ok.mp h
  exact ⟨y, by rw [expression]; exact hy, rfl⟩

lemma statement_declare {type : ValueType} {value : Expr}
    (h : statement tables (.declare place type name value) s = .ok (code, t)) :
    ∃ y u z, expression tables value s = .ok (y, u) ∧ coerce y type place = .ok z ∧
      code = .localSet (u.scope.declare name type).1 z.code ∧
      t = { u with scope := (u.scope.declare name type).2 } := by
  rw [statement] at h
  obtain ⟨y, u, hy, h⟩ := bind_ok.mp h
  obtain ⟨z, v, hz, h⟩ := bind_ok.mp h
  obtain ⟨hc, rfl⟩ := lift_ok.mp hz
  obtain ⟨index, w, hi, h⟩ := bind_ok.mp h
  obtain ⟨rfl, rfl⟩ := declareLocal_ok hi
  obtain ⟨rfl, rfl⟩ := pure_ok.mp h
  exact ⟨y, u, z, hy, hc, rfl, rfl⟩

lemma statement_function {signature : Prototype} {types : List ValueType} {body : List Stmt}
    (h : statement tables (.function signature types body) s = .ok (code, t)) :
    ∃ statements u, block tables body
        { s with scope := .ofSignature (signature.taking types).parameters signature.result } = .ok (statements, u) ∧
      code = .nop ∧ t = { u with
        scope := s.scope, functions := u.functions ++ [functionOf (signature.taking types) statements u.scope] } := by
  rw [statement] at h
  obtain ⟨⟨statements, inner⟩, u, hb, h⟩ := bind_ok.mp h
  obtain ⟨v, hv, rfl, rfl⟩ := inScope_ok hb
  obtain ⟨_, w, hw, h⟩ := bind_ok.mp h
  obtain rfl := addFunction_ok hw
  obtain ⟨rfl, rfl⟩ := pure_ok.mp h
  exact ⟨statements, v, hv, rfl, rfl⟩

lemma statement_prototype {signature : Prototype} (h : statement tables (.prototype signature) s = .ok (code, t)) :
    code = .nop ∧ s = t := by
  rw [statement] at h
  obtain ⟨rfl, rfl⟩ := pure_ok.mp h
  exact ⟨rfl, rfl⟩

lemma statement_ret {value : Expr} (h : statement tables (.ret place value) s = .ok (code, t)) :
    ∃ y, expression tables value s = .ok (y, t) ∧ returning place y t = .ok (code, t) := by
  rw [statement] at h
  obtain ⟨y, u, hy, h⟩ := bind_ok.mp h
  obtain ⟨rfl, -⟩ := returning_ok h
  exact ⟨y, hy, h⟩

lemma block_nil {codes : List Wasm.Instr} (h : block tables [] s = .ok (codes, t)) : codes = [] ∧ s = t := by
  rw [block] at h
  obtain ⟨rfl, rfl⟩ := pure_ok.mp h
  exact ⟨rfl, rfl⟩

lemma block_cons {st : Stmt} {ss : List Stmt} {codes : List Wasm.Instr}
    (h : block tables (st :: ss) s = .ok (codes, t)) :
    ∃ code u rest, statement tables st s = .ok (code, u) ∧ block tables ss u = .ok (rest, t) ∧
      codes = code :: rest := by
  rw [block] at h
  obtain ⟨code, u, hc, h⟩ := bind_ok.mp h
  obtain ⟨rest, v, hr, h⟩ := bind_ok.mp h
  obtain ⟨rfl, rfl⟩ := pure_ok.mp h
  exact ⟨code, u, rest, hc, hr, rfl⟩

end Statements

end Keel.Lowering
