import Keel.Proofs.Syntax.Stretches

/-! The parser keeps what the tokens of a text say, each once and in order. -/

namespace Keel

inductive Leaf where
  | keyword (word : String)
  | name (name : String)
  | type (word : String)
  | operator (symbol : String)
  | number (value : Double)
  | string (value : String)
  deriving DecidableEq, Repr

/-- Brackets, commas, semicolons, arrows and the end of the text say nothing. A truth value is a number. -/
def TokenKind.leaf? : TokenKind → Option Leaf
  | .int value | .float value => some (.number value)
  | .bool value => some (.number (.ofInt value.toInt))
  | .string value => some (.string value)
  | .identifier name => some (.name name)
  | .typeKeyword word => some (.type word)
  | .keyword word => some (.keyword word)
  | .operator symbol => some (.operator symbol)
  | .punctuation _ | .endOfInput => none

def ValueType.leaf (t : ValueType) : Leaf := .type t.keyword

def Parameter.yield (p : Parameter) : List Leaf := [p.type.leaf, .name p.name]

def Prototype.yield (p : Prototype) : List Leaf :=
  .keyword "fn" :: .name p.name :: (p.parameters.flatMap Parameter.yield ++ [p.result.leaf])

mutual

def Expr.yield : Expr → List Leaf
  | .number _ value _ => [.number value]
  | .reference _ name => [.name name]
  | .binary _ op lhs rhs => lhs.yield ++ .operator op :: rhs.yield
  | .call _ callee args => .name callee :: Expr.yieldOfAll args
  | .cast _ target value => target.leaf :: value.yield
  | .assign _ name value => .name name :: .operator "=" :: value.yield
  | .string _ value => [.string value]
  | .conditional _ conditions separators body =>
    Condition.yieldOfAll (.keyword "if" :: separators.map .operator) conditions ++ Stmt.yieldOfAll body
  | .importFile _ path => [.keyword "import", .string path]

def Expr.yieldOfAll : List Expr → List Leaf
  | [] => []
  | e :: es => e.yield ++ Expr.yieldOfAll es

def Condition.yield : Condition → List Leaf
  | .compare lhs op rhs => lhs.yield ++ .operator op :: rhs.yield

def Condition.yieldOfAll (words : List Leaf) : List Condition → List Leaf
  | [] => words
  | c :: cs => words.head?.toList ++ c.yield ++ Condition.yieldOfAll words.tail cs

def Stmt.yield : Stmt → List Leaf
  | .expression value => value.yield
  | .call _ callee args => .name callee :: Expr.yieldOfAll args
  | .declare _ type name value => type.leaf :: .name name :: .operator "=" :: value.yield
  | .function signature _ body => signature.yield ++ Stmt.yieldOfAll body
  | .prototype signature => signature.yield
  | .ret _ value => .keyword "return" :: value.yield

def Stmt.yieldOfAll : List Stmt → List Leaf
  | [] => []
  | s :: ss => s.yield ++ Stmt.yieldOfAll ss

end

def Program.yield (p : Program) : List Leaf := Stmt.yieldOfAll p

def Part.yield : Part → List Leaf
  | expression e => e.yield
  | argumentList es | arguments es => Expr.yieldOfAll es
  | condition c => c.yield
  | moreConditions separators cs => Condition.yieldOfAll (separators.map .operator) cs
  | prototype p => p.yield
  | parameterList types names | parameters types names =>
    (List.zipWith Parameter.mk types names).flatMap Parameter.yield
  | statement st => st.yield
  | statements ss => Stmt.yieldOfAll ss

def leaves (ts : List Token) : List Leaf := ts.filterMap fun t => t.kind.leaf?

section Leaves

variable {t : Token} {ts us : List Token}

lemma leaves_cons : leaves (t :: ts) = t.kind.leaf?.toList ++ leaves ts := by
  rw [leaves, List.filterMap_cons]
  cases t.kind.leaf? <;> rfl

lemma leaves_append : leaves (ts ++ us) = leaves ts ++ leaves us := List.filterMap_append

end Leaves

lemma yield_statementOf (e : Expr) : (Parser.statementOf e).yield = e.yield := by
  cases e with
  | call place callee args => rfl
  | _ => rfl

open TokenKind in
lemma WrittenAs.leaves_eq {part : Part} {ts : List Token} (h : WrittenAs part ts) : leaves ts = part.yield := by
  have hnil : leaves [] = [] := rfl
  induction h with
  | int ht | float ht | bool ht | string ht | reference ht =>
    simp [leaves_cons, hnil, ht, leaf?, Part.yield, Expr.yield]
  | importFile ht hu => simp [leaves_cons, hnil, ht, hu, leaf?, Part.yield, Expr.yield]
  | parens hl _ hr ih => simp [leaves_cons, leaves_append, hnil, hl, ih, hr, leaf?]
  | binary _ ht _ _ ihl ihr =>
    simp only [Part.yield] at ihl ihr ⊢
    simp [leaves_append, leaves_cons, ihl, ht, ihr, leaf?, Expr.yield]
  | call ht hl _ hr ih | cast ht hl _ hr ih =>
    simp only [Part.yield] at ih ⊢
    simp [leaves_cons, leaves_append, hnil, ht, hl, ih, hr, leaf?, Expr.yield, ValueType.leaf]
  | assign ht hu _ ih =>
    simp only [Part.yield] at ih ⊢
    simp [leaves_cons, ht, hu, ih, leaf?, Expr.yield]
  | conditional ht hl _ _ hr hb _ hd ihc ihm ih =>
    simp only [Part.yield] at ihc ihm ih ⊢
    simp [leaves_cons, leaves_append, hnil, ht, hl, ihc, ihm, hr, hb, ih, hd, leaf?, Expr.yield, Condition.yieldOfAll]
  | noArguments | noParameters | noStatements | lastCondition => rfl
  | someArguments _ ih | someParameters _ ih | ifStatement _ _ ih => exact ih
  | lastArgument _ ih =>
    simp only [Part.yield] at ih ⊢
    simp [ih, Expr.yieldOfAll]
  | nextArgument _ ht _ ihe ih =>
    simp only [Part.yield] at ihe ih ⊢
    simp [leaves_append, leaves_cons, ihe, ht, ih, leaf?, Expr.yieldOfAll]
  | condition _ ht _ _ ihl ihr =>
    simp only [Part.yield] at ihl ihr ⊢
    simp [leaves_append, leaves_cons, ihl, ht, ihr, leaf?, Condition.yield]
  | nextCondition ht _ _ _ ihc ih =>
    simp only [Part.yield] at ihc ih ⊢
    simp [leaves_cons, leaves_append, ht, ihc, ih, leaf?, Condition.yieldOfAll]
  | prototype ht hn hl _ hr ha hy ih =>
    simp only [Part.yield] at ih ⊢
    simp [leaves_cons, leaves_append, hnil, ht, hn, hl, ih, hr, ha, hy, leaf?, Prototype.yield, Prototype.parameters,
      ValueType.leaf]
  | lastParameter hy hn => simp [leaves_cons, hnil, hy, hn, leaf?, Part.yield, Parameter.yield, ValueType.leaf]
  | nextParameter hy hn ht _ ih =>
    simp only [Part.yield] at ih ⊢
    simp [leaves_cons, hy, hn, ht, ih, leaf?, Parameter.yield, ValueType.leaf]
  | hostFunction _ ht ih =>
    simp only [Part.yield] at ih ⊢
    simp [leaves_append, leaves_cons, hnil, ih, ht, leaf?, Stmt.yield]
  | function _ hb _ hd ihp ih =>
    simp only [Part.yield] at ihp ih ⊢
    simp [leaves_append, leaves_cons, hnil, ihp, hb, ih, hd, leaf?, Stmt.yield]
  | ret ht _ hu ih =>
    simp only [Part.yield] at ih ⊢
    simp [leaves_cons, leaves_append, hnil, ht, ih, hu, leaf?, Stmt.yield]
  | declaration hy hn ht _ hu ih =>
    simp only [Part.yield] at ih ⊢
    simp [leaves_cons, leaves_append, hnil, hy, hn, ht, ih, hu, leaf?, Stmt.yield, ValueType.leaf]
  | expressionStatement _ ht ih =>
    simp only [Part.yield] at ih ⊢
    simp [leaves_append, leaves_cons, hnil, ih, ht, leaf?, yield_statementOf]
  | moreStatements _ _ ihs ih =>
    simp only [Part.yield] at ihs ih ⊢
    simp [leaves_append, ihs, ih, Stmt.yieldOfAll]

/-- Read from left to right, a program says what its tokens say. -/
theorem parseText_yield {source : String} {p : Program} (h : parseText source .standard = .ok p) :
    ∃ tokens, lex source = .ok tokens ∧ p.yield = tokens.filterMap fun t => t.kind.leaf? := by
  obtain ⟨tokens, last, hlex, hp⟩ := parseText_written h
  refine ⟨_, hlex, hp.leaves_eq.symm.trans ?_⟩
  change leaves tokens = leaves (tokens ++ [.endOfInput last])
  rw [leaves_append]
  exact (List.append_nil _).symm

def groupedSource : String :=
  "if(a*2<1+b&&f(1.5,true)==c)\x7bfn g(i8 n)->void;x=i64(n)-1;\x7dreturn(2+3)*4;"

def groupedLeaves : List Leaf :=
  [.keyword "if", .name "a", .operator "*", .number (.ofInt 2), .operator "<", .number (.ofInt 1), .operator "+",
    .name "b", .operator "&&", .name "f", .number (Decimal.toFloating false ⟨15, -1⟩), .number (.ofInt 1),
    .operator "==", .name "c", .keyword "fn", .name "g", .type "i8", .name "n", .type "void", .name "x",
    .operator "=", .type "i64", .name "n", .operator "-", .number (.ofInt 1), .keyword "return",
    .number (.ofInt 2), .operator "+", .number (.ofInt 3), .operator "*", .number (.ofInt 4)]

theorem parseText_yield_grouped : ∃ p tokens, parseText groupedSource .standard = .ok p ∧
    lex groupedSource = .ok tokens ∧ p.yield = tokens.filterMap (fun t => t.kind.leaf?) ∧ p.yield = groupedLeaves := by
  have hcheck : (parseText groupedSource .standard).toOption.map Program.yield = some groupedLeaves := by
    decide +kernel
  cases hp : parseText groupedSource .standard with
  | error e =>
    rw [hp] at hcheck
    cases hcheck
  | ok p =>
    rw [hp] at hcheck
    obtain ⟨tokens, hlex, hyield⟩ := parseText_yield hp
    exact ⟨p, tokens, rfl, hlex, hyield, Option.some.inj hcheck⟩

end Keel
