import Keel.Proofs.Syntax.Bounds
import Keel.Proofs.Syntax.Reading

namespace Keel.Parser

open Reader TokenStream

variable {table : Precedences} {s t : TokenStream}

lemma parameters_sound {depth : ℕ} {ps : List ValueType × List String} (h : parameters depth s = .ok ps t) :
    Derives table (.parameters ps.1 ps.2) s t := by
  induction depth generalizing s ps with
  | zero => exact (exhausted_ok h).elim
  | succ depth ih =>
    simp only [parameters, bind_ok, head_bind, next_bind, ite_ok, valueType_ok, identifier_ok, pure_ok, is_iff] at h
    obtain ⟨type, u, ⟨text, htext, htype⟩, name, v, hname, h⟩ := h
    rcases h with ⟨hcomma, rest, w, hrest, rfl, rfl⟩ | ⟨hcomma, rfl, rfl⟩
    · exact .nextParameter htext htype hname ⟨hcomma, rfl⟩ (ih hrest)
    · exact .lastParameter htext htype hname hcomma

lemma prototype_sound {depth : ℕ} {p : Prototype} (h : prototype depth s = .ok p t) :
    Derives table (.prototype p) s t := by
  simp only [prototype, next_bind, head_bind, bind_ok, ite_ok, identifier_ok, punctuation_ok, valueType_ok,
    pure_ok, is_iff] at h
  obtain ⟨name, u, hname, _, v, ⟨-, hopen⟩, h⟩ := h
  rcases h with ⟨hempty, _, w, ⟨rfl, rfl⟩, h⟩ | ⟨hsome, ⟨types, names⟩, w, hps, h⟩
  · obtain ⟨_, x, ⟨-, hclose⟩, _, y, ⟨-, harrow⟩, result, z, ⟨text, htext, hresult⟩, rfl, rfl⟩ := h
    exact .prototype hname hopen (.noParameters hempty) hclose harrow htext hresult
  · obtain ⟨_, x, ⟨-, hclose⟩, _, y, ⟨-, harrow⟩, result, z, ⟨text, htext, hresult⟩, rfl, rfl⟩ := h
    exact .prototype hname hopen (.someParameters hsome (parameters_sound hps)) hclose harrow htext hresult

lemma climb_nan {depth : ℕ} {result context : ValueType} {lhs e : Expr} :
    climb table depth result context .nan lhs s ≠ .ok e t := by
  -- a bound that is no number lets every token pass, and so the climb does not end before a token that begins no
  -- operand
  induction depth generalizing s t lhs e with
  | zero => exact exhausted_ok
  | succ depth ih =>
    intro h
    have hpass (x : Double) : x.lt .nan = false := by cases x <;> rfl
    simp only [climb, power_bind, hpass, Bool.false_eq_true, if_false, next_bind, bind_ok, ite_ok] at h
    obtain ⟨first, u, -, ⟨-, rhs, v, -, hclimb⟩ | ⟨-, rhs, v, -, hclimb⟩⟩ := h
    · exact ih hclimb
    · exact ih hclimb

structure Sound (table : Precedences) (depth : ℕ) : Prop where
  statement : ∀ {result s v t}, Parser.statement table depth result s = .ok v t →
    Derives table (.statement result v) s t
  body : ∀ {result s v t}, Parser.body table depth result s = .ok v t → Derives table (.body result v) s t
  expression : ∀ {result context s v t}, Parser.expression table depth result context s = .ok v t →
    Derives table (.expression result context v) s t
  primary : ∀ {result context s v t}, Parser.primary table depth result context s = .ok v t →
    Derives table (.primary result context v) s t
  arguments : ∀ {result s v t}, Parser.arguments table depth result s = .ok v t →
    Derives table (.arguments result v) s t
  climb : ∀ {result context least lhs s v t}, least.NotNegative →
    Parser.climb table depth result context least lhs s = .ok v t →
      Derives table (.climb result context least lhs v) s t
  conditional : ∀ {result context s v t}, Parser.conditional table depth result context s = .ok v t →
    Derives table (.conditional result context v) s t
  moreConditions : ∀ {result context s v t}, Parser.moreConditions table depth result context s = .ok v t →
    Derives table (.moreConditions result context v.1 v.2) s t
  condition : ∀ {result context s v t}, Parser.condition table depth result context s = .ok v t →
    Derives table (.condition result context v) s t
  operand : ∀ {result context s v t}, Parser.operand table depth result context s = .ok v t →
    Derives table (.operand result context v) s t
  expressionStatement : ∀ {result s v t}, Parser.expressionStatement table depth result s = .ok v t →
    OpensExpression s → Derives table (.statement result v) s t
  declaration : ∀ {result s v t}, Parser.declaration table depth result s = .ok v t →
    (s.look 1).kind ≠ .punctuation "(" → Derives table (.statement result v) s t
  function : ∀ {result s v t}, Parser.function table depth s = .ok v t → s.head.kind = .keyword "fn" →
    Derives table (.statement result v) s t

lemma sound_zero : Sound table 0 where
  statement h := (exhausted_ok h).elim
  body h := (exhausted_ok h).elim
  expression h := (exhausted_ok h).elim
  primary h := (exhausted_ok h).elim
  arguments h := (exhausted_ok h).elim
  climb _ h := (exhausted_ok h).elim
  conditional h := (exhausted_ok h).elim
  moreConditions h := (exhausted_ok h).elim
  condition h := (exhausted_ok h).elim
  operand h := (exhausted_ok h).elim
  expressionStatement h := (exhausted_ok h).elim
  declaration h := (exhausted_ok h).elim
  function h := (exhausted_ok h).elim

section Step

variable {depth : ℕ} (ih : Sound table depth)
include ih

lemma Sound.expression_succ {result context : ValueType} {e : Expr}
    (h : Parser.expression table (depth + 1) result context s = .ok e t) :
    Derives table (.expression result context e) s t := by
  simp only [Parser.expression, bind_ok] at h
  obtain ⟨lhs, u, hprimary, hclimb⟩ := h
  exact .expression (ih.primary hprimary) (ih.climb (Floating.notNegative_zero false) hclimb)

lemma Sound.operand_succ {result context : ValueType} {e : Expr}
    (h : Parser.operand table (depth + 1) result context s = .ok e t) :
    Derives table (.operand result context e) s t := by
  simp only [Parser.operand, bind_ok] at h
  obtain ⟨lhs, u, hprimary, hclimb⟩ := h
  exact .operand (ih.primary hprimary) (ih.climb (Precedences.notNegative_above Precedences.notNegative_ceiling) hclimb)

lemma Sound.condition_succ {result context : ValueType} {c : Condition}
    (h : Parser.condition table (depth + 1) result context s = .ok c t) :
    Derives table (.condition result context c) s t := by
  simp only [Parser.condition, bind_ok, comparison_ok, pure_ok] at h
  obtain ⟨lhs, u, hlhs, op, v, ⟨hop, htruth⟩, rhs, w, hrhs, rfl, rfl⟩ := h
  exact .condition (ih.operand hlhs) hop htruth (ih.operand hrhs)

lemma Sound.moreConditions_succ {result context : ValueType} {v : List String × List Condition}
    (h : Parser.moreConditions table (depth + 1) result context s = .ok v t) :
    Derives table (.moreConditions result context v.1 v.2) s t := by
  rw [Parser.moreConditions, head_bind] at h
  cases hsep : separator? s.head with
  | none =>
    simp only [hsep, pure_ok] at h
    obtain ⟨rfl, rfl⟩ := h
    exact .lastCondition hsep
  | some separator =>
    simp only [hsep] at h
    rw [next_bind] at h
    simp only [bind_ok, pure_ok] at h
    obtain ⟨second, u, hsecond, ⟨separators, conditions⟩, w, hrest, rfl, rfl⟩ := h
    exact .nextCondition hsep (ih.condition hsecond) (ih.moreConditions hrest)

lemma Sound.conditional_succ {result context : ValueType} {e : Expr}
    (h : Parser.conditional table (depth + 1) result context s = .ok e t) :
    Derives table (.conditional result context e) s t := by
  rw [Parser.conditional, next_bind] at h
  simp only [bind_ok, punctuation_ok, pure_ok] at h
  obtain ⟨_, u, ⟨-, hopen⟩, first, v, hfirst, ⟨separators, conditions⟩, w, hmore, _, x, ⟨-, hclose⟩, _, y,
    ⟨-, hbrace⟩, ss, z, hbody, rfl, rfl⟩ := h
  exact .conditional hopen (ih.condition hfirst) (ih.moreConditions hmore) hclose hbrace (ih.body hbody)

lemma Sound.arguments_succ {result : ValueType} {es : List Expr}
    (h : Parser.arguments table (depth + 1) result s = .ok es t) :
    Derives table (.arguments result es) s t := by
  simp only [Parser.arguments, bind_ok, head_bind, next_bind, ite_ok, pure_ok, is_iff] at h
  obtain ⟨first, u, hfirst, ⟨hcomma, rest, w, hrest, rfl, rfl⟩ | ⟨hcomma, rfl, rfl⟩⟩ := h
  · exact .nextArgument (ih.expression hfirst) ⟨hcomma, rfl⟩ (ih.arguments hrest)
  · exact .lastArgument (ih.expression hfirst) hcomma

lemma Sound.climb_succ {result context : ValueType} {least : Double} {lhs e : Expr} (hbound : least.NotNegative)
    (h : Parser.climb table (depth + 1) result context least lhs s = .ok e t) :
    Derives table (.climb result context least lhs e) s t := by
  have hnan : least ≠ .nan := by
    rintro rfl
    exact climb_nan h
  simp only [Parser.climb, power_bind, ite_ok, pure_ok, next_bind, bind_ok, Bool.not_eq_true] at h
  rcases h with ⟨hless, rfl, rfl⟩ | ⟨hleast, first, u, hfirst, h⟩
  · exact .climbEnd hless
  · cases hown : table.binding? s.head.lexeme with
    | none => exact absurd (Precedences.power_lt_of_none hown hbound hnan) (Bool.eq_false_iff.mp hleast)
    | some own =>
      rw [Precedences.power_of_binding? hown] at hleast h
      have hnext := Precedences.notNegative_binding? hown
      rcases h with ⟨htight, rhs, v, hrhs, hclimb⟩ | ⟨hloose, rhs, v, ⟨rfl, rfl⟩, hclimb⟩
      · obtain ⟨other, hother, hlt⟩ := Precedences.binding?_of_lt_power hnext htight
        exact .climbStep hown hleast (ih.primary hfirst)
          (.rightTighter hother hlt (ih.climb (Precedences.notNegative_above hnext) hrhs)) (ih.climb hbound hclimb)
      · exact .climbStep hown hleast (ih.primary hfirst) (.rightPlain hloose) (ih.climb hbound hclimb)

lemma Sound.primary_succ {result context : ValueType} {e : Expr}
    (h : Parser.primary table (depth + 1) result context s = .ok e t) :
    Derives table (.primary result context e) s t := by
  rw [Parser.primary, head_bind_ok] at h
  obtain ⟨x, hx, h⟩ := h
  split at hx <;> subst hx
  · simp only [literal, next_bind, pure_ok] at h
    obtain ⟨rfl, rfl⟩ := h
    exact .int ⟨‹_›, rfl⟩
  · simp only [literal, next_bind, pure_ok] at h
    obtain ⟨rfl, rfl⟩ := h
    exact .float ⟨‹_›, rfl⟩
  · simp only [literal, next_bind, pure_ok] at h
    obtain ⟨rfl, rfl⟩ := h
    exact .bool ⟨‹_›, rfl⟩
  · simp only [next_bind, pure_ok] at h
    obtain ⟨rfl, rfl⟩ := h
    exact .string ⟨‹_›, rfl⟩
  · rename_i hk
    simp only [next_bind, head_bind, ite_ok, bind_ok, punctuation_ok, pure_ok, is_iff] at h
    rcases h with ⟨hopen, h⟩ | ⟨hopen, h⟩
    · rcases h with ⟨hempty, es, u, ⟨rfl, rfl⟩, _, v, ⟨-, hclose⟩, rfl, rfl⟩ |
        ⟨hsome, es, u, hes, _, v, ⟨-, hclose⟩, rfl, rfl⟩
      · exact .call ⟨hk, rfl⟩ ⟨hopen, rfl⟩ (.noArguments hempty) hclose
      · exact .call ⟨hk, rfl⟩ ⟨hopen, rfl⟩ (.someArguments hsome (ih.arguments hes)) hclose
    · rcases h with ⟨hassign, value, u, hvalue, rfl, rfl⟩ | ⟨hassign, rfl, rfl⟩
      · exact .assign ⟨hk, rfl⟩ ⟨hassign, rfl⟩ (ih.expression hvalue)
      · exact .reference ⟨hk, rfl⟩ hopen hassign
  · simp only [next_bind, bind_ok, punctuation_ok, pure_ok] at h
    obtain ⟨e', u, he, _, v, ⟨-, hclose⟩, rfl, rfl⟩ := h
    exact .parens ⟨‹_›, rfl⟩ (ih.expression he) hclose
  · simp only [look_bind, ite_ok, bind_ok, valueType_ok, punctuation_ok, pure_ok, is_iff, fail_ok, and_false,
      or_false] at h
    obtain ⟨hlook, type, u, ⟨text', htext, htype⟩, _, v, ⟨-, hopen⟩, value, w, hvalue, _, x, ⟨-, hclose⟩, rfl,
      rfl⟩ := h
    exact .cast htext hlook htype hopen (ih.expression hvalue) hclose
  · exact .ifPrimary ‹_› (ih.conditional h)
  · simp only [importPath, next_bind, bind_ok, stringLiteral_ok, pure_ok] at h
    obtain ⟨path, u, hpath, rfl, rfl⟩ := h
    exact .importFile ⟨‹_›, rfl⟩ hpath
  · exact (fail_ok h).elim

lemma Sound.expressionStatement_succ {result : ValueType} {st : Stmt}
    (h : Parser.expressionStatement table (depth + 1) result s = .ok st t) (hs : OpensExpression s) :
    Derives table (.statement result st) s t := by
  simp only [Parser.expressionStatement, bind_ok, punctuation_ok, pure_ok] at h
  obtain ⟨e, u, he, _, v, ⟨-, hend⟩, rfl, rfl⟩ := h
  exact .expressionStatement hs (ih.expression he) hend

lemma Sound.declaration_succ {result : ValueType} {st : Stmt}
    (h : Parser.declaration table (depth + 1) result s = .ok st t) (hs : (s.look 1).kind ≠ .punctuation "(") :
    Derives table (.statement result st) s t := by
  simp only [Parser.declaration, head_bind, next_bind, bind_ok, valueType_ok, identifier_ok, ite_ok, is_iff,
    punctuation_ok, pure_ok, fail_ok, and_false, or_false] at h
  obtain ⟨type, u, ⟨text, htext, htype⟩, name, v, hname, hassign, value, w, hvalue, _, x, ⟨-, hend⟩, rfl, rfl⟩ := h
  exact .declaration htext hs htype hname ⟨hassign, rfl⟩ (ih.expression hvalue) hend

lemma Sound.function_succ {result : ValueType} {st : Stmt}
    (h : Parser.function table (depth + 1) s = .ok st t) (hs : s.head.kind = .keyword "fn") :
    Derives table (.statement result st) s t := by
  simp only [Parser.function, head_bind, next_bind, bind_ok, ite_ok, is_iff, punctuation_ok, pure_ok] at h
  obtain ⟨p, u, hp, ⟨hend, rfl, rfl⟩ | ⟨-, _, v, ⟨-, hbrace⟩, ss, w, hbody, rfl, rfl⟩⟩ := h
  · exact .hostFunction hs (prototype_sound hp) ⟨hend, rfl⟩
  · exact .function hs (prototype_sound hp) hbrace (ih.body hbody)

lemma Sound.body_succ {result : ValueType} {ss : List Stmt}
    (h : Parser.body table (depth + 1) result s = .ok ss t) : Derives table (.body result ss) s t := by
  simp only [Parser.body, head_bind, finished_bind, next_bind, bind_ok, ite_ok, is_iff, finished_iff, pure_ok, fail_ok,
    and_false, false_or] at h
  rcases h with ⟨hclose, rfl, rfl⟩ | ⟨hclose, hend, first, u, hfirst, rest, v, hrest, rfl, rfl⟩
  · exact .bodyEnd ⟨hclose, rfl⟩
  · exact .bodyNext hclose hend (ih.statement hfirst) (ih.body hrest)

lemma Sound.statement_succ {result : ValueType} {st : Stmt}
    (h : Parser.statement table (depth + 1) result s = .ok st t) :
    Derives table (.statement result st) s t := by
  rw [Parser.statement, head_bind_ok] at h
  obtain ⟨x, hx, h⟩ := h
  split at hx <;> subst hx
  · exact ih.function h ‹_›
  · rename_i hk
    simp only [next_bind, bind_ok, punctuation_ok, pure_ok] at h
    obtain ⟨e, u, he, _, v, ⟨-, hend⟩, rfl, rfl⟩ := h
    exact .ret ⟨hk, rfl⟩ (ih.expression he) hend
  · rename_i hk
    simp only [bind_ok, pure_ok] at h
    obtain ⟨e, u, he, rfl, rfl⟩ := h
    exact .ifStatement hk (ih.conditional he)
  · rename_i text hk
    simp only [look_bind, ite_ok, is_iff] at h
    rcases h with ⟨hopen, h⟩ | ⟨hopen, h⟩
    · exact ih.expressionStatement h (by simpa [OpensExpression, hk] using hopen)
    · exact ih.declaration h hopen
  · rename_i hfn hret hif htype
    refine ih.expressionStatement h ?_
    unfold OpensExpression
    split
    · exact hfn ‹_›
    · exact hret ‹_›
    · exact hif ‹_›
    · exact (htype _ ‹_›).elim
    · trivial

end Step

lemma sound (depth : ℕ) : Sound table depth := by
  induction depth with
  | zero => exact sound_zero
  | succ depth ih =>
    exact {
      statement := ih.statement_succ
      body := ih.body_succ
      expression := ih.expression_succ
      primary := ih.primary_succ
      arguments := ih.arguments_succ
      climb := ih.climb_succ
      conditional := ih.conditional_succ
      moreConditions := ih.moreConditions_succ
      condition := ih.condition_succ
      operand := ih.operand_succ
      expressionStatement := ih.expressionStatement_succ
      declaration := ih.declaration_succ
      function := ih.function_succ }

lemma program_sound {depth : ℕ} {p : Program} (h : program table depth s = .ok p t) :
    Derives table (.program p) s t := by
  induction depth generalizing s p with
  | zero => exact (exhausted_ok h).elim
  | succ depth ih =>
    simp only [program, finished_bind, ite_ok, bind_ok, finished_iff, pure_ok] at h
    rcases h with ⟨hend, rfl, rfl⟩ | ⟨hend, first, u, hfirst, rest, v, hrest, rfl, rfl⟩
    · exact .programEnd hend
    · exact .programNext hend ((sound depth).statement hfirst) (ih hrest)

lemma parse_sound {tokens : List Token} {p : Program} (h : parse tokens table = .ok p) :
    ∃ t, Derives table (.program p) (.ofTokens tokens) t := by
  unfold parse at h
  split at h
  · rename_i q u hq
    obtain rfl : q = p := by simpa using h
    exact ⟨u, program_sound hq⟩
  · simp at h

end Keel.Parser
