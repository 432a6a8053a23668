import Keel.Proofs.Syntax.Completeness

namespace Keel

namespace Reader

open TokenStream

variable {α β : Type} {s : TokenStream} {x y : Reader α} {f : α → Reader β}

def Halts (x : Reader α) (s : TokenStream) : Prop := ∀ t, x s ≠ .error .exhausted t

lemma Halts.bind (hx : Halts x s) (hf : ∀ a t, x s = .ok a t → Halts (f a) t) : Halts (x >>= f) s := by
  intro t h
  simp only [Bind.bind, EStateM.bind] at h
  cases hs : x s with
  | ok a u =>
    rw [hs] at h
    exact hf a u hs t h
  | error e u =>
    rw [hs] at h
    obtain ⟨rfl, -⟩ : e = .exhausted ∧ u = t := by simpa using h
    exact hx u hs

lemma halts_pure {a : α} : Halts (pure a) s := nofun

lemma halts_fail {c : ParseCause} : Halts (fail c : Reader α) s := nofun

lemma halts_ite {c : Prop} [Decidable c] (hx : c → Halts x s) (hy : ¬ c → Halts y s) :
    Halts (if c then x else y) s := by
  split_ifs with hc
  · exact hx hc
  · exact hy hc

lemma halts_head_bind {f : Token → Reader β} (h : Halts (f s.head) s) : Halts (head >>= f) s := h

lemma halts_finished_bind {f : Bool → Reader β} (h : Halts (f s.finished) s) : Halts (Reader.finished >>= f) s := h

lemma halts_look_bind {i : Int} {f : Token → Reader β} (h : Halts (f (s.look i)) s) : Halts (look i >>= f) s := h

lemma halts_next_bind {f : Token → Reader β} (h : Halts (f s.head) s.next) : Halts (next >>= f) s := h

lemma halts_next : Halts next s := nofun

lemma halts_punctuation {symbol : String} {code : ParseCode} : Halts (punctuation symbol code) s :=
  halts_head_bind (halts_ite (fun _ => halts_next) fun _ => halts_fail)

lemma halts_identifier {code : ParseCode} : Halts (identifier code) s := by
  refine halts_head_bind ?_
  split
  · exact halts_next_bind halts_pure
  · exact halts_fail

lemma halts_stringLiteral : Halts stringLiteral s := by
  refine halts_head_bind ?_
  split
  · exact halts_next_bind halts_pure
  · exact halts_fail

lemma halts_valueType : Halts valueType s := by
  refine halts_head_bind ?_
  split
  · exact halts_fail
  · split
    · exact halts_next_bind halts_pure
    · exact halts_fail
  · exact halts_fail

end Reader

namespace Parser

open Reader TokenStream

variable {table : Precedences} {s t : TokenStream}

lemma halts_comparison : Halts comparison s := by
  refine halts_head_bind ?_
  split
  · exact halts_ite (fun _ => halts_next_bind halts_pure) fun _ => halts_fail
  · exact halts_fail

lemma halts_power_bind {β : Type} {f : Double → Reader β} (h : Halts (f (table.power s.head.lexeme)) s) :
    Halts (Parser.power table >>= f) s := h

structure Halting (table : Precedences) (depth : ℕ) : Prop where
  parameters : ∀ {s}, 8 * s.rest.length + 1 ≤ depth → Halts (Parser.parameters depth) s
  statement : ∀ {result s}, 8 * s.rest.length + 5 ≤ depth → Halts (Parser.statement table depth result) s
  expressionStatement : ∀ {result s}, 8 * s.rest.length + 4 ≤ depth →
    Halts (Parser.expressionStatement table depth result) s
  declaration : ∀ {result s}, 8 * s.rest.length + 4 ≤ depth → Halts (Parser.declaration table depth result) s
  function : ∀ {s}, 8 * s.rest.length + 4 ≤ depth → Halts (Parser.function table depth) s
  body : ∀ {result s}, 8 * s.rest.length + 6 ≤ depth → Halts (Parser.body table depth result) s
  expression : ∀ {result context s}, 8 * s.rest.length + 3 ≤ depth →
    Halts (Parser.expression table depth result context) s
  primary : ∀ {result context s}, 8 * s.rest.length + 2 ≤ depth → Halts (Parser.primary table depth result context) s
  arguments : ∀ {result s}, 8 * s.rest.length + 4 ≤ depth → Halts (Parser.arguments table depth result) s
  climb : ∀ {result context least lhs s}, 8 * s.rest.length + 3 ≤ depth →
    Halts (Parser.climb table depth result context least lhs) s
  conditional : ∀ {result context s}, 8 * s.rest.length + 1 ≤ depth →
    Halts (Parser.conditional table depth result context) s
  moreConditions : ∀ {result context s}, 8 * s.rest.length + 1 ≤ depth →
    Halts (Parser.moreConditions table depth result context) s
  condition : ∀ {result context s}, 8 * s.rest.length + 4 ≤ depth →
    Halts (Parser.condition table depth result context) s
  operand : ∀ {result context s}, 8 * s.rest.length + 3 ≤ depth →
    Halts (Parser.operand table depth result context) s

lemma halting_zero : Halting table 0 := by
  constructor <;> intros <;> omega

lemma length_primary {depth : ℕ} {result context : ValueType} {e : Expr}
    (h : Parser.primary table depth result context s = .ok e t) : t.rest.length + 1 ≤ s.rest.length :=
  ((sound depth).primary h).length_le

lemma length_expression {depth : ℕ} {result context : ValueType} {e : Expr}
    (h : Parser.expression table depth result context s = .ok e t) : t.rest.length + 1 ≤ s.rest.length :=
  ((sound depth).expression h).length_le

lemma length_climb {depth : ℕ} {result context : ValueType} {least : Double} {lhs e : Expr}
    (h : Parser.climb table depth result context least lhs s = .ok e t) : t.rest.length ≤ s.rest.length := by
  induction depth generalizing least lhs s e t with
  | zero => exact (exhausted_ok h).elim
  | succ depth ih =>
    simp only [Parser.climb, power_bind, ite_ok, pure_ok, next_bind, bind_ok] at h
    obtain ⟨-, -, rfl⟩ | ⟨-, first, u, hfirst, h⟩ := h
    · exact le_rfl
    · have hfirst := length_primary hfirst
      have hnext := length_next s
      obtain ⟨-, rhs, v, hrhs, hclimb⟩ | ⟨-, rhs, v, ⟨-, rfl⟩, hclimb⟩ := h
      · have hrhs := ih hrhs
        have hclimb := ih hclimb
        omega
      · have hclimb := ih hclimb
        omega

lemma length_operand {depth : ℕ} {result context : ValueType} {e : Expr}
    (h : Parser.operand table depth result context s = .ok e t) : t.rest.length + 1 ≤ s.rest.length :=
  ((sound depth).operand h).length_le

lemma length_condition {depth : ℕ} {result context : ValueType} {c : Condition}
    (h : Parser.condition table depth result context s = .ok c t) : t.rest.length + 1 ≤ s.rest.length :=
  ((sound depth).condition h).length_le

lemma length_moreConditions {depth : ℕ} {result context : ValueType} {v : List String × List Condition}
    (h : Parser.moreConditions table depth result context s = .ok v t) : t.rest.length ≤ s.rest.length :=
  ((sound depth).moreConditions h).length_le

lemma length_statement {depth : ℕ} {result : ValueType} {st : Stmt}
    (h : Parser.statement table depth result s = .ok st t) : t.rest.length + 1 ≤ s.rest.length :=
  ((sound depth).statement h).length_le

lemma length_punctuation {symbol : String} {code : ParseCode} {a : Token} (h : punctuation symbol code s = .ok a t) :
    s.rest.length = t.rest.length + 1 :=
  (punctuation_ok.mp h).2.length (by simp)

lemma length_identifier {code : ParseCode} {name : String} (h : identifier code s = .ok name t) :
    s.rest.length = t.rest.length + 1 :=
  (identifier_ok.mp h).length (by simp)

lemma length_valueType {type : ValueType} (h : valueType s = .ok type t) : s.rest.length = t.rest.length + 1 := by
  obtain ⟨text, hp, -⟩ := valueType_ok.mp h
  exact hp.length (by simp)

lemma length_comparison {op : String} (h : comparison s = .ok op t) : s.rest.length = t.rest.length + 1 :=
  (comparison_ok.mp h).1.length (by simp)

lemma length_next_of_head {kind : TokenKind} (h : s.head.kind = kind) (hk : kind ≠ .endOfInput) :
    s.rest.length = s.next.rest.length + 1 :=
  Passes.length (⟨h, rfl⟩ : s.Passes kind s.next) hk

section Step

variable {depth : ℕ} (ih : Halting table depth)
include ih

lemma Halting.parameters_succ (h : 8 * s.rest.length + 1 ≤ depth + 1) : Halts (Parser.parameters (depth + 1)) s := by
  refine halts_valueType.bind fun type t htype => halts_identifier.bind fun name u hname =>
    halts_head_bind (halts_ite (fun _ => ?_) fun _ => halts_pure)
  have htype := length_valueType htype
  have hname := length_identifier hname
  have hnext := length_next u
  exact halts_next_bind ((ih.parameters (by omega)).bind fun _ _ _ => halts_pure)

lemma Halting.prototype (h : 8 * s.rest.length ≤ depth) : Halts (Parser.prototype depth) s := by
  have hnext := length_next s
  refine halts_next_bind (halts_identifier.bind fun name t hname => halts_punctuation.bind fun _ u hopen => ?_)
  have hname := length_identifier hname
  have hopen := length_punctuation hopen
  have hend : ∀ (types : List ValueType) (names : List String) (v : TokenStream), Halts (do
      let _ ← punctuation ")" .malformedPrototype
      let _ ← punctuation "->" .malformedPrototype
      let result ← valueType
      return (⟨s.head.position, name, names, types, result⟩ : Prototype)) v := fun _ _ _ =>
    halts_punctuation.bind fun _ _ _ => halts_punctuation.bind fun _ _ _ => halts_valueType.bind fun _ _ _ =>
      halts_pure
  refine halts_head_bind (halts_ite (fun _ => hend _ _ _) fun _ => ?_)
  exact (ih.parameters (by omega)).bind fun ps v _ => hend ps.1 ps.2 v

lemma Halting.expression_succ {result context : ValueType} (h : 8 * s.rest.length + 3 ≤ depth + 1) :
    Halts (Parser.expression table (depth + 1) result context) s := by
  refine (ih.primary (by omega)).bind fun lhs t hlhs => ih.climb ?_
  have := length_primary hlhs
  omega

lemma Halting.operand_succ {result context : ValueType} (h : 8 * s.rest.length + 3 ≤ depth + 1) :
    Halts (Parser.operand table (depth + 1) result context) s := by
  refine (ih.primary (by omega)).bind fun lhs t hlhs => ih.climb ?_
  have := length_primary hlhs
  omega

lemma Halting.condition_succ {result context : ValueType} (h : 8 * s.rest.length + 4 ≤ depth + 1) :
    Halts (Parser.condition table (depth + 1) result context) s := by
  refine (ih.operand (by omega)).bind fun lhs t hlhs => halts_comparison.bind fun op u hop => ?_
  have hlhs := length_operand hlhs
  have hop := length_comparison hop
  exact (ih.operand (by omega)).bind fun _ _ _ => halts_pure

lemma Halting.moreConditions_succ {result context : ValueType} (h : 8 * s.rest.length + 1 ≤ depth + 1) :
    Halts (Parser.moreConditions table (depth + 1) result context) s := by
  refine halts_head_bind ?_
  cases hsep : separator? s.head with
  | none => exact halts_pure
  | some separator =>
    have hkind : s.head.kind = .operator separator := by
      unfold separator? at hsep
      split at hsep
      · split_ifs at hsep
        rw [‹s.head.kind = _›, Option.some.inj hsep]
      · simp at hsep
    have hnext := length_next_of_head hkind (by simp)
    refine halts_next_bind ((ih.condition (by omega)).bind fun second t hsecond => ?_)
    have hsecond := length_condition hsecond
    exact (ih.moreConditions (by omega)).bind fun _ _ _ => halts_pure

lemma Halting.conditional_succ {result context : ValueType} (h : 8 * s.rest.length + 1 ≤ depth + 1) :
    Halts (Parser.conditional table (depth + 1) result context) s := by
  have hnext := length_next s
  refine halts_next_bind (halts_punctuation.bind fun _ t hopen => ?_)
  have hopen := length_punctuation hopen
  refine (ih.condition (by omega)).bind fun first u hfirst => ?_
  have hfirst := length_condition hfirst
  refine (ih.moreConditions (by omega)).bind fun rest v hrest => halts_punctuation.bind fun _ w hclose =>
    halts_punctuation.bind fun _ x hbrace => ?_
  have hrest := length_moreConditions hrest
  have hclose := length_punctuation hclose
  have hbrace := length_punctuation hbrace
  exact (ih.body (by omega)).bind fun _ _ _ => halts_pure

lemma Halting.arguments_succ {result : ValueType} (h : 8 * s.rest.length + 4 ≤ depth + 1) :
    Halts (Parser.arguments table (depth + 1) result) s := by
  refine (ih.expression (by omega)).bind fun first t hfirst =>
    halts_head_bind (halts_ite (fun _ => ?_) fun _ => halts_pure)
  have hfirst := length_expression hfirst
  have hnext := length_next t
  exact halts_next_bind ((ih.arguments (by omega)).bind fun _ _ _ => halts_pure)

lemma Halting.climb_succ {result context : ValueType} {least : Double} {lhs : Expr}
    (h : 8 * s.rest.length + 3 ≤ depth + 1) : Halts (Parser.climb table (depth + 1) result context least lhs) s := by
  have hnext := length_next s
  refine halts_power_bind (halts_ite (fun _ => halts_pure) fun _ =>
    halts_next_bind ((ih.primary (by omega)).bind fun first t hfirst => ?_))
  have hfirst := length_primary hfirst
  refine halts_power_bind (halts_ite (fun _ => ?_) fun _ => ih.climb (by omega))
  refine (ih.climb (by omega)).bind fun rhs u hrhs => ?_
  have hrhs := length_climb hrhs
  exact ih.climb (by omega)

lemma Halting.primary_succ {result context : ValueType} (h : 8 * s.rest.length + 2 ≤ depth + 1) :
    Halts (Parser.primary table (depth + 1) result context) s := by
  refine halts_head_bind ?_
  split
  · exact halts_next_bind halts_pure
  · exact halts_next_bind halts_pure
  · exact halts_next_bind halts_pure
  · exact halts_next_bind halts_pure
  · rename_i hk
    have hnext := length_next_of_head hk (by simp)
    have hnext' := length_next s.next
    refine halts_next_bind (halts_head_bind (halts_ite (fun _ => ?_) fun _ => halts_ite (fun _ => ?_) fun _ => ?_))
    · refine halts_next_bind (halts_head_bind (halts_ite (fun _ => ?_) fun _ => ?_))
      · exact halts_punctuation.bind fun _ _ _ => halts_pure
      · exact (ih.arguments (by omega)).bind fun _ _ _ => halts_punctuation.bind fun _ _ _ => halts_pure
    · exact halts_next_bind ((ih.expression (by omega)).bind fun _ _ _ => halts_pure)
    · exact halts_pure
  · rename_i hk
    have hnext := length_next_of_head hk (by simp)
    exact halts_next_bind ((ih.expression (by omega)).bind fun _ _ _ => halts_punctuation.bind fun _ _ _ => halts_pure)
  · refine halts_look_bind (halts_ite (fun _ => ?_) fun _ => halts_fail)
    refine halts_valueType.bind fun _ t htype => halts_punctuation.bind fun _ u hopen => ?_
    have htype := length_valueType htype
    have hopen := length_punctuation hopen
    exact (ih.expression (by omega)).bind fun _ _ _ => halts_punctuation.bind fun _ _ _ => halts_pure
  · exact ih.conditional (by omega)
  · exact halts_next_bind (halts_stringLiteral.bind fun _ _ _ => halts_pure)
  · exact halts_fail

lemma Halting.expressionStatement_succ {result : ValueType} (h : 8 * s.rest.length + 4 ≤ depth + 1) :
    Halts (Parser.expressionStatement table (depth + 1) result) s :=
  (ih.expression (by omega)).bind fun _ _ _ => halts_punctuation.bind fun _ _ _ => halts_pure

lemma Halting.declaration_succ {result : ValueType} (h : 8 * s.rest.length + 4 ≤ depth + 1) :
    Halts (Parser.declaration table (depth + 1) result) s := by
  refine halts_head_bind (halts_valueType.bind fun type t htype => halts_identifier.bind fun name u hname =>
    halts_head_bind (halts_ite (fun _ => ?_) fun _ => halts_fail))
  have htype := length_valueType htype
  have hname := length_identifier hname
  have hnext := length_next u
  exact halts_next_bind ((ih.expression (by omega)).bind fun _ _ _ => halts_punctuation.bind fun _ _ _ => halts_pure)

lemma Halting.function_succ (h : 8 * s.rest.length + 4 ≤ depth + 1) :
    Halts (Parser.function table (depth + 1)) s := by
  refine (ih.prototype (s := s) (by omega)).bind fun p t hp => halts_head_bind (halts_ite (fun _ => ?_) fun _ => ?_)
  · exact halts_next_bind halts_pure
  · refine halts_punctuation.bind fun _ u hbrace => ?_
    have hderived : Derives table (.prototype p) s t := prototype_sound hp
    have hp : t.rest.length + 1 ≤ s.rest.length := hderived.length_le
    have hbrace := length_punctuation hbrace
    exact (ih.body (by omega)).bind fun _ _ _ => halts_pure

lemma Halting.body_succ {result : ValueType} (h : 8 * s.rest.length + 6 ≤ depth + 1) :
    Halts (Parser.body table (depth + 1) result) s := by
  refine halts_head_bind (halts_ite (fun _ => halts_next_bind halts_pure) fun _ =>
    halts_finished_bind (halts_ite (fun _ => halts_fail) fun _ => ?_))
  refine (ih.statement (by omega)).bind fun first t hfirst => ?_
  have hfirst := length_statement hfirst
  exact (ih.body (by omega)).bind fun _ _ _ => halts_pure

lemma Halting.statement_succ {result : ValueType} (h : 8 * s.rest.length + 5 ≤ depth + 1) :
    Halts (Parser.statement table (depth + 1) result) s := by
  refine halts_head_bind ?_
  split
  · exact ih.function (by omega)
  · rename_i hk
    have hnext := length_next_of_head hk (by simp)
    exact halts_next_bind ((ih.expression (by omega)).bind fun _ _ _ => halts_punctuation.bind fun _ _ _ => halts_pure)
  · exact (ih.conditional (by omega)).bind fun _ _ _ => halts_pure
  · exact halts_look_bind (halts_ite (fun _ => ih.expressionStatement (by omega)) fun _ => ih.declaration (by omega))
  · exact ih.expressionStatement (by omega)

end Step

lemma halting (depth : ℕ) : Halting table depth := by
  induction depth with
  | zero => exact halting_zero
  | succ depth ih =>
    exact {
      parameters := ih.parameters_succ
      statement := ih.statement_succ
      expressionStatement := ih.expressionStatement_succ
      declaration := ih.declaration_succ
      function := ih.function_succ
      body := ih.body_succ
      expression := ih.expression_succ
      primary := ih.primary_succ
      arguments := ih.arguments_succ
      climb := ih.climb_succ
      conditional := ih.conditional_succ
      moreConditions := ih.moreConditions_succ
      condition := ih.condition_succ
      operand := ih.operand_succ }

lemma halts_program {depth : ℕ} (h : 8 * s.rest.length + 6 ≤ depth) : Halts (Parser.program table depth) s := by
  induction depth generalizing s with
  | zero => omega
  | succ depth ih =>
    refine halts_finished_bind (halts_ite (fun _ => halts_pure) fun _ => ?_)
    refine ((halting depth).statement (by omega)).bind fun first t hfirst => ?_
    have hfirst := length_statement hfirst
    exact (ih (by omega)).bind fun _ _ _ => halts_pure

end Parser

lemma parse_ne_exhausted (tokens : List Token) (table : Precedences) :
    parse tokens table ≠ .error .exhausted := by
  intro h
  unfold parse at h
  split at h
  · simp at h
  · rename_i e t hread
    obtain rfl : e = .exhausted := by simpa using h
    exact Parser.halts_program (by simp only [TokenStream.ofTokens, Parser.depthFor]; omega) t hread

end Keel
