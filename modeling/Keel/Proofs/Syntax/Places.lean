import Keel.Proofs.Syntax.Mapping
import Keel.Proofs.Syntax.Reading
import Keel.Syntax.Alike

namespace Keel

def unplacing : Mapping := ⟨fun _ => .start, id⟩

def Token.unplaced (t : Token) : Token := { t with position := .start }

def TokenStream.unplaced (s : TokenStream) : TokenStream := ⟨s.passed.map Token.unplaced, s.rest.map Token.unplaced⟩

def ParseError.unplaced (e : ParseError) : ParseError := { e with token := e.token.unplaced }

def Halt.unplaced : Halt → Halt
  | .error e => .error e.unplaced
  | .exhausted => .exhausted

def Program.unplaced (p : Program) : Program := p.mapped unplacing

lemma Prototype.mapped_unplacing (p : Prototype) : p.mapped unplacing = { p with position := .start } := by
  unfold Prototype.mapped
  congr 1
  exact List.map_id _

lemma Prototype.alike_iff (p q : Prototype) : p.alike q = true ↔ p.mapped unplacing = q.mapped unplacing := by
  simp [Prototype.alike, Prototype.mapped_unplacing, and_assoc]

mutual

lemma Expr.alike_iff : ∀ a b : Expr, a.alike b = true ↔ a.mapped unplacing = b.mapped unplacing
  | .number _ _ _, b | .reference _ _, b | .string _ _, b | .importFile _ _, b => by
    cases b <;> simp [Expr.alike, Expr.mapped, unplacing]
  | .binary _ _ lhs rhs, b => by
    cases b <;> simp [Expr.alike, Expr.mapped, lhs.alike_iff, rhs.alike_iff, and_assoc, unplacing]
  | .call _ _ args, b => by
    cases b <;> simp [Expr.alike, Expr.mapped, Expr.allAlike_iff args, unplacing]
  | .cast _ _ value, b => by
    cases b <;> simp [Expr.alike, Expr.mapped, value.alike_iff, unplacing]
  | .assign _ _ value, b => by
    cases b <;> simp [Expr.alike, Expr.mapped, value.alike_iff, unplacing]
  | .conditional _ conditions _ body, b => by
    cases b <;> simp [Expr.alike, Expr.mapped, Condition.allAlike_iff conditions, Stmt.allAlike_iff body, and_assoc,
      unplacing]

lemma Expr.allAlike_iff : ∀ as bs : List Expr, Expr.allAlike as bs = true ↔
    Expr.mappedAll unplacing as = Expr.mappedAll unplacing bs
  | [], bs => by cases bs <;> simp [Expr.allAlike, Expr.mappedAll]
  | a :: as, bs => by cases bs <;> simp [Expr.allAlike, Expr.mappedAll, a.alike_iff, Expr.allAlike_iff as]

lemma Condition.alike_iff : ∀ a b : Condition, a.alike b = true ↔ a.mapped unplacing = b.mapped unplacing
  | .compare lhs _ rhs, .compare _ _ _ => by
    simp only [Condition.alike, Condition.mapped, lhs.alike_iff, rhs.alike_iff, Bool.and_eq_true, decide_eq_true_eq,
      Condition.compare.injEq, and_assoc]
    exact and_left_comm

lemma Condition.allAlike_iff : ∀ as bs : List Condition, Condition.allAlike as bs = true ↔
    Condition.mappedAll unplacing as = Condition.mappedAll unplacing bs
  | [], bs => by cases bs <;> simp [Condition.allAlike, Condition.mappedAll]
  | a :: as, bs => by
    cases bs <;> simp [Condition.allAlike, Condition.mappedAll, a.alike_iff, Condition.allAlike_iff as]

lemma Stmt.alike_iff : ∀ a b : Stmt, a.alike b = true ↔ a.mapped unplacing = b.mapped unplacing
  | .expression value, b | .ret _ value, b => by
    cases b <;> simp [Stmt.alike, Stmt.mapped, value.alike_iff, unplacing]
  | .call _ _ args, b => by
    cases b <;> simp [Stmt.alike, Stmt.mapped, Expr.allAlike_iff args, unplacing]
  | .declare _ _ _ value, b => by
    cases b <;> simp [Stmt.alike, Stmt.mapped, value.alike_iff, and_assoc, unplacing]
  | .function signature types body, b => by
    cases b <;> simp [Stmt.alike, Stmt.mapped, signature.alike_iff, Stmt.allAlike_iff body, and_assoc, unplacing]
  | .prototype signature, b => by
    cases b <;> simp [Stmt.alike, Stmt.mapped, signature.alike_iff]

lemma Stmt.allAlike_iff : ∀ as bs : List Stmt, Stmt.allAlike as bs = true ↔
    Stmt.mappedAll unplacing as = Stmt.mappedAll unplacing bs
  | [], bs => by cases bs <;> simp [Stmt.allAlike, Stmt.mappedAll]
  | a :: as, bs => by cases bs <;> simp [Stmt.allAlike, Stmt.mappedAll, a.alike_iff, Stmt.allAlike_iff as]

end

lemma Program.alike_iff {p q : Program} : p.alike q = true ↔ p.unplaced = q.unplaced := Stmt.allAlike_iff p q

namespace TokenStream

variable (s : TokenStream)

lemma endToken_unplaced : s.unplaced.endToken = s.endToken.unplaced := by
  unfold endToken unplaced
  rw [List.getLast?_map, List.head?_map, ← Option.map_or]
  cases s.rest.getLast?.or s.passed.head? <;> rfl

lemma look_unplaced (offset : Int) : s.unplaced.look offset = (s.look offset).unplaced := by
  unfold look
  cases offset with
  | ofNat n =>
    simp only [unplaced, List.getElem?_map]
    cases s.rest[n]? with
    | some t => rfl
    | none => exact endToken_unplaced s
  | negSucc n =>
    simp only [unplaced, List.getElem?_map]
    cases s.passed[n]? with
    | some t => rfl
    | none => exact endToken_unplaced s

lemma next_unplaced : s.unplaced.next = s.next.unplaced := by
  obtain ⟨passed, rest⟩ := s
  cases rest <;> rfl

end TokenStream

namespace Reader

open TokenStream

variable {α β γ δ : Type}

def Blind (φ : α → β) (x : Reader α) (y : Reader β) : Prop := ∀ s, y s.unplaced =
  match x s with
  | .ok a t => .ok (φ a) t.unplaced
  | .error e t => .error e.unplaced t.unplaced

variable {φ : α → β} {ψ : γ → δ} {x : Reader α} {y : Reader β}

lemma blind_pure (a : α) : Blind φ (pure a) (pure (φ a)) := fun _ => rfl

lemma Blind.bind {f : α → Reader γ} {g : β → Reader δ} (h : Blind φ x y) (hf : ∀ a, Blind ψ (f a) (g (φ a))) :
    Blind ψ (x >>= f) (y >>= g) := by
  intro s
  simp only [Bind.bind, EStateM.bind]
  rw [h s]
  cases x s with
  | ok a t => exact hf a t
  | error e t => rfl

lemma blind_head : Blind Token.unplaced head head := fun s => congrArg₂ _ (look_unplaced s 0) rfl

lemma blind_finished : Blind id finished finished := by
  intro s
  change EStateM.Result.ok s.unplaced.finished s.unplaced = .ok s.finished s.unplaced
  rw [TokenStream.finished, TokenStream.head, look_unplaced]
  rfl

lemma blind_look (offset : Int) : Blind Token.unplaced (look offset) (look offset) :=
  fun s => congrArg₂ _ (look_unplaced s offset) rfl

lemma blind_next : Blind Token.unplaced next next :=
  fun s => congrArg₂ _ (look_unplaced s 0) (next_unplaced s)

lemma blind_exhausted : Blind φ exhausted exhausted := fun _ => rfl

lemma blind_fail (cause : ParseCause) : Blind φ (fail cause) (fail cause) :=
  blind_head.bind fun _ _ => rfl

lemma blind_ite {c : Prop} [Decidable c] {x' : Reader α} {y' : Reader β} (hx : Blind φ x y) (hy : Blind φ x' y') :
    Blind φ (if c then x else x') (if c then y else y') := by
  split_ifs
  · exact hx
  · exact hy

lemma blind_punctuation (symbol : String) (code : ParseCode) :
    Blind Token.unplaced (punctuation symbol code) (punctuation symbol code) :=
  blind_head.bind fun _ => blind_ite blind_next (blind_fail _)

lemma blind_identifier (code : ParseCode) : Blind id (identifier code) (identifier code) := by
  refine blind_head.bind fun t => ?_
  obtain ⟨kind, lexeme, place⟩ := t
  cases kind with
  | identifier name => exact blind_next.bind fun _ => blind_pure name
  | _ => exact blind_fail _

lemma blind_stringLiteral : Blind id stringLiteral stringLiteral := by
  refine blind_head.bind fun t => ?_
  obtain ⟨kind, lexeme, place⟩ := t
  cases kind with
  | string value => exact blind_next.bind fun _ => blind_pure value
  | _ => exact blind_fail _

lemma blind_valueType : Blind id valueType valueType := by
  refine blind_head.bind fun t => ?_
  obtain ⟨kind, lexeme, place⟩ := t
  cases kind with
  | typeKeyword name =>
    dsimp only [Token.unplaced]
    cases ValueType.ofKeyword? name with
    | some type => exact blind_next.bind fun _ => blind_pure type
    | none => exact blind_fail _
  | _ => exact blind_fail _

end Reader

namespace Parser

open Reader

variable {table : Precedences} {depth : ℕ}

lemma blind_comparison : Blind id comparison comparison := by
  refine blind_head.bind fun t => ?_
  obtain ⟨kind, lexeme, place⟩ := t
  cases kind with
  | operator op => exact blind_ite (blind_next.bind fun _ => blind_pure op) (blind_fail _)
  | _ => exact blind_fail _

lemma blind_power (table : Precedences) : Blind id (power table) (power table) :=
  blind_head.bind fun t => blind_pure (table.power t.lexeme)

lemma statementOf_mapped (e : Expr) : statementOf (e.mapped unplacing) = (statementOf e).mapped unplacing := by
  cases e <;> rfl

lemma blind_literal (value : Double) (type : ValueType) : Blind (Expr.mapped unplacing) (literal value type)
    (literal value type) :=
  blind_next.bind fun t => blind_pure (Expr.number t.position value type)

lemma blind_importPath : Blind (Expr.mapped unplacing) importPath importPath :=
  blind_next.bind fun t => blind_stringLiteral.bind fun path => blind_pure (Expr.importFile t.position path)

structure Blindness (table : Precedences) (depth : ℕ) : Prop where
  parameters : Blind id (Parser.parameters depth) (Parser.parameters depth)
  statement : ∀ result, Blind (Stmt.mapped unplacing) (Parser.statement table depth result)
    (Parser.statement table depth result)
  expressionStatement : ∀ result, Blind (Stmt.mapped unplacing) (Parser.expressionStatement table depth result)
    (Parser.expressionStatement table depth result)
  declaration : ∀ result, Blind (Stmt.mapped unplacing) (Parser.declaration table depth result)
    (Parser.declaration table depth result)
  function : Blind (Stmt.mapped unplacing) (Parser.function table depth) (Parser.function table depth)
  body : ∀ result, Blind (Stmt.mappedAll unplacing) (Parser.body table depth result) (Parser.body table depth result)
  expression : ∀ result context, Blind (Expr.mapped unplacing) (Parser.expression table depth result context)
    (Parser.expression table depth result context)
  primary : ∀ result context, Blind (Expr.mapped unplacing) (Parser.primary table depth result context)
    (Parser.primary table depth result context)
  arguments : ∀ result, Blind (Expr.mappedAll unplacing) (Parser.arguments table depth result)
    (Parser.arguments table depth result)
  climb : ∀ result context least lhs, Blind (Expr.mapped unplacing) (Parser.climb table depth result context least lhs)
    (Parser.climb table depth result context least (lhs.mapped unplacing))
  conditional : ∀ result context, Blind (Expr.mapped unplacing) (Parser.conditional table depth result context)
    (Parser.conditional table depth result context)
  moreConditions : ∀ result context, Blind (fun r => (r.1, Condition.mappedAll unplacing r.2))
    (Parser.moreConditions table depth result context) (Parser.moreConditions table depth result context)
  condition : ∀ result context, Blind (Condition.mapped unplacing) (Parser.condition table depth result context)
    (Parser.condition table depth result context)
  operand : ∀ result context, Blind (Expr.mapped unplacing) (Parser.operand table depth result context)
    (Parser.operand table depth result context)

lemma blindness_zero : Blindness table 0 := by
  constructor <;> intros <;> exact blind_exhausted

section Step

variable (ih : Blindness table depth)
include ih

lemma Blindness.parameters_succ : Blind id (Parser.parameters (depth + 1)) (Parser.parameters (depth + 1)) :=
  blind_valueType.bind fun type => (blind_identifier _).bind fun name => blind_head.bind fun _ => blind_ite
    (blind_next.bind fun _ => ih.parameters.bind fun rest => blind_pure (type :: rest.1, name :: rest.2))
    (blind_pure ([type], [name]))

lemma Blindness.prototype : Blind (Prototype.mapped unplacing) (Parser.prototype depth) (Parser.prototype depth) := by
  refine blind_next.bind fun fn => (blind_identifier _).bind fun name => (blind_punctuation _ _).bind fun _ => ?_
  have hend : ∀ params : List ValueType × List String, Blind (Prototype.mapped unplacing)
      (do
        let _ ← punctuation ")" .malformedPrototype
        let _ ← punctuation "->" .malformedPrototype
        let result ← valueType
        return (⟨fn.position, name, params.2, params.1, result⟩ : Prototype))
      (do
        let _ ← punctuation ")" .malformedPrototype
        let _ ← punctuation "->" .malformedPrototype
        let result ← valueType
        return (⟨.start, name, params.2, params.1, result⟩ : Prototype)) := by
    intro params
    refine (blind_punctuation _ _).bind fun _ => (blind_punctuation _ _).bind fun _ =>
      blind_valueType.bind fun result => ?_
    have hpure : Blind (Prototype.mapped unplacing) 
        (pure ⟨fn.position, name, params.2, params.1, result⟩) _ := blind_pure _
    rwa [Prototype.mapped_unplacing] at hpure
  exact blind_head.bind fun _ => blind_ite (hend ([], [])) (ih.parameters.bind fun params => hend params)

lemma Blindness.statement_succ (result : ValueType) : Blind (Stmt.mapped unplacing)
    (Parser.statement table (depth + 1) result) (Parser.statement table (depth + 1) result) := by
  refine blind_head.bind fun t => ?_
  obtain ⟨kind, lexeme, place⟩ := t
  dsimp only [Token.unplaced]
  split
  · exact ih.function
  · exact blind_next.bind fun _ => (ih.expression _ _).bind fun value => (blind_punctuation _ _).bind fun _ =>
      blind_pure (Stmt.ret place value)
  · exact (ih.conditional _ _).bind fun e => blind_pure (Stmt.expression e)
  · exact (blind_look 1).bind fun _ => blind_ite (ih.expressionStatement _) (ih.declaration _)
  · exact ih.expressionStatement _

lemma Blindness.expressionStatement_succ (result : ValueType) : Blind (Stmt.mapped unplacing)
    (Parser.expressionStatement table (depth + 1) result) (Parser.expressionStatement table (depth + 1) result) := by
  refine (ih.expression _ _).bind fun e => (blind_punctuation _ _).bind fun _ => ?_
  rw [statementOf_mapped]
  exact blind_pure (statementOf e)

lemma Blindness.declaration_succ (result : ValueType) : Blind (Stmt.mapped unplacing)
    (Parser.declaration table (depth + 1) result) (Parser.declaration table (depth + 1) result) :=
  blind_head.bind fun start => blind_valueType.bind fun type => (blind_identifier _).bind fun name =>
    blind_head.bind fun _ => blind_ite
      (blind_next.bind fun _ => (ih.expression _ _).bind fun value => (blind_punctuation _ _).bind fun _ =>
        blind_pure (Stmt.declare start.position type name value))
      (blind_fail _)

lemma Blindness.function_succ : Blind (Stmt.mapped unplacing) (Parser.function table (depth + 1))
    (Parser.function table (depth + 1)) :=
  ih.prototype.bind fun p => blind_head.bind fun _ => blind_ite
    (blind_next.bind fun _ => blind_pure (Stmt.prototype p))
    ((blind_punctuation _ _).bind fun _ => (ih.body _).bind fun ss =>
      blind_pure (Stmt.function p p.parameterTypes ss))

lemma Blindness.body_succ (result : ValueType) : Blind (Stmt.mappedAll unplacing)
    (Parser.body table (depth + 1) result) (Parser.body table (depth + 1) result) :=
  blind_head.bind fun _ => blind_ite (blind_next.bind fun _ => blind_pure [])
    (blind_finished.bind fun _ => blind_ite (blind_fail _) ((ih.statement _).bind fun first =>
      (ih.body _).bind fun rest => blind_pure (first :: rest)))

lemma Blindness.expression_succ (result context : ValueType) : Blind (Expr.mapped unplacing)
    (Parser.expression table (depth + 1) result context) (Parser.expression table (depth + 1) result context) :=
  (ih.primary _ _).bind fun lhs => ih.climb _ _ _ lhs

lemma Blindness.operand_succ (result context : ValueType) : Blind (Expr.mapped unplacing)
    (Parser.operand table (depth + 1) result context) (Parser.operand table (depth + 1) result context) :=
  (ih.primary _ _).bind fun lhs => ih.climb _ _ _ lhs

lemma Blindness.primary_succ (result context : ValueType) : Blind (Expr.mapped unplacing)
    (Parser.primary table (depth + 1) result context) (Parser.primary table (depth + 1) result context) := by
  refine blind_head.bind fun t => ?_
  obtain ⟨kind, lexeme, place⟩ := t
  dsimp only [Token.unplaced]
  split
  · exact blind_literal _ _
  · exact blind_literal _ _
  · exact blind_literal _ _
  · exact blind_next.bind fun _ => blind_pure (Expr.string place _)
  · rename_i name
    refine blind_next.bind fun _ => blind_head.bind fun _ => blind_ite ?_ (blind_ite ?_ ?_)
    · have hend : ∀ args, Blind (Expr.mapped unplacing)
          (do
            let _ ← punctuation ")"
            return Expr.call place name args)
          (do
            let _ ← punctuation ")"
            return Expr.call .start name (Expr.mappedAll unplacing args)) :=
        fun args => (blind_punctuation _ _).bind fun _ => blind_pure (Expr.call place name args)
      exact blind_next.bind fun _ => blind_head.bind fun _ => blind_ite (hend [])
        ((ih.arguments _).bind fun args => hend args)
    · exact blind_next.bind fun _ => (ih.expression _ _).bind fun value => blind_pure (Expr.assign place name value)
    · exact blind_pure (Expr.reference place name)
  · exact blind_next.bind fun _ => (ih.expression _ _).bind fun e => (blind_punctuation _ _).bind fun _ => blind_pure e
  · exact (blind_look 1).bind fun _ => blind_ite
      (blind_valueType.bind fun target => (blind_punctuation _ _).bind fun _ => (ih.expression _ _).bind fun value =>
        (blind_punctuation _ _).bind fun _ => blind_pure (Expr.cast place target value))
      (blind_fail _)
  · exact ih.conditional _ _
  · exact blind_importPath
  · exact blind_fail _

lemma Blindness.arguments_succ (result : ValueType) : Blind (Expr.mappedAll unplacing)
    (Parser.arguments table (depth + 1) result) (Parser.arguments table (depth + 1) result) :=
  (ih.expression _ _).bind fun first => blind_head.bind fun _ => blind_ite
    (blind_next.bind fun _ => (ih.arguments _).bind fun rest => blind_pure (first :: rest)) (blind_pure [first])

lemma Blindness.conditional_succ (result context : ValueType) : Blind (Expr.mapped unplacing)
    (Parser.conditional table (depth + 1) result context) (Parser.conditional table (depth + 1) result context) :=
  blind_next.bind fun start => (blind_punctuation _ _).bind fun _ => (ih.condition _ _).bind fun first =>
    (ih.moreConditions _ _).bind fun rest => (blind_punctuation _ _).bind fun _ => (blind_punctuation _ _).bind fun _ =>
      (ih.body _).bind fun ss => blind_pure (Expr.conditional start.position (first :: rest.2) rest.1 ss)

lemma Blindness.moreConditions_succ (result context : ValueType) :
    Blind (fun r => (r.1, Condition.mappedAll unplacing r.2)) (Parser.moreConditions table (depth + 1) result context)
      (Parser.moreConditions table (depth + 1) result context) := by
  refine blind_head.bind fun t => ?_
  rw [show separator? t.unplaced = separator? t from rfl]
  cases separator? t with
  | none => exact blind_pure ([], [])
  | some separator =>
    exact blind_next.bind fun _ => (ih.condition _ _).bind fun second => (ih.moreConditions _ _).bind fun rest =>
      blind_pure (separator :: rest.1, second :: rest.2)

lemma Blindness.condition_succ (result context : ValueType) : Blind (Condition.mapped unplacing)
    (Parser.condition table (depth + 1) result context) (Parser.condition table (depth + 1) result context) :=
  (ih.operand _ _).bind fun lhs => blind_comparison.bind fun op => (ih.operand _ _).bind fun rhs =>
    blind_pure (Condition.compare lhs op rhs)

lemma Blindness.climb_succ (result context : ValueType) (least : Double) (lhs : Expr) : Blind (Expr.mapped unplacing)
    (Parser.climb table (depth + 1) result context least lhs)
    (Parser.climb table (depth + 1) result context least (lhs.mapped unplacing)) := by
  rw [Parser.climb, Parser.climb]
  refine (blind_power table).bind fun own => blind_ite (blind_pure lhs) (blind_next.bind fun op =>
    (ih.primary _ _).bind fun first => (blind_power table).bind fun _ => ?_)
  have hend : ∀ rhs, Blind (Expr.mapped unplacing)
      (Parser.climb table depth result context least (.binary lhs.position op.lexeme lhs rhs))
      (Parser.climb table depth result context least
        (.binary (lhs.mapped unplacing).position op.lexeme (lhs.mapped unplacing) (rhs.mapped unplacing))) := by
    intro rhs
    rw [Expr.position_mapped]
    exact ih.climb _ _ _ (.binary lhs.position op.lexeme lhs rhs)
  exact blind_ite ((ih.climb _ _ _ first).bind hend) (hend first)

end Step

lemma blindness (depth : ℕ) : Blindness table depth := by
  induction depth with
  | zero => exact blindness_zero
  | succ depth ih =>
    exact {
      parameters := ih.parameters_succ
      statement := ih.statement_succ
      expressionStatement := ih.expressionStatement_succ
      declaration := ih.declaration_succ
      function := ih.function_succ
      body := ih.body_succ
      expression := ih.expression_succ
      primary := ih.primary_succ
      arguments := ih.arguments_succ
      climb := ih.climb_succ
      conditional := ih.conditional_succ
      moreConditions := ih.moreConditions_succ
      condition := ih.condition_succ
      operand := ih.operand_succ }

lemma blind_program (depth : ℕ) : Blind Program.unplaced (Parser.program table depth) (Parser.program table depth) := by
  induction depth with
  | zero => exact blind_exhausted
  | succ depth ih =>
    exact blind_finished.bind fun _ => blind_ite (blind_pure [])
      (((blindness depth).statement _).bind fun first => ih.bind fun rest => blind_pure (first :: rest))

end Parser

lemma parse_unplaced (tokens : List Token) (table : Precedences) : parse (tokens.map Token.unplaced) table =
    match parse tokens table with
    | .ok p => .ok p.unplaced
    | .error e => .error e.unplaced := by
  have hdepth : Parser.depthFor (tokens.map Token.unplaced) = Parser.depthFor tokens := by
    simp [Parser.depthFor]
  have hprogram := @Parser.blind_program table (Parser.depthFor tokens) (.ofTokens tokens)
  unfold parse
  rw [hdepth, show TokenStream.ofTokens (tokens.map Token.unplaced) = (TokenStream.ofTokens tokens).unplaced from rfl,
    hprogram]
  cases Parser.program table (Parser.depthFor tokens) (.ofTokens tokens) <;> rfl

end Keel
