import Keel.Syntax.Parser
import Mathlib.Tactic.Lemma

namespace Keel

namespace TokenStream

def Passes (s : TokenStream) (kind : TokenKind) (t : TokenStream) : Prop :=
  s.head.kind = kind ∧ t = s.next

end TokenStream

namespace Precedences

def Stops (table : Precedences) (least : Double) (lexeme : String) : Prop :=
  (table.power lexeme).lt least = true

def NotTighter (table : Precedences) (power : Double) (lexeme : String) : Prop :=
  power.lt (table.power lexeme) = false

end Precedences

namespace Parser

def OpensExpression (s : TokenStream) : Prop :=
  match s.head.kind with
  | .keyword "fn" | .keyword "return" | .keyword "if" => False
  | .typeKeyword _ => (s.look 1).kind = .punctuation "("
  | _ => True

inductive Phrase where
  | parameters (types : List ValueType) (names : List String)
  | parameterList (types : List ValueType) (names : List String)
  | prototype (p : Prototype)
  | statement (result : ValueType) (s : Stmt)
  | body (result : ValueType) (ss : List Stmt)
  | expression (result context : ValueType) (e : Expr)
  | primary (result context : ValueType) (e : Expr)
  | arguments (result : ValueType) (es : List Expr)
  | argumentList (result : ValueType) (es : List Expr)
  | climb (result context : ValueType) (least : Double) (lhs e : Expr)
  | right (result context : ValueType) (power : Double) (first e : Expr)
  | conditional (result context : ValueType) (e : Expr)
  | moreConditions (result context : ValueType) (separators : List String) (cs : List Condition)
  | condition (result context : ValueType) (c : Condition)
  | operand (result context : ValueType) (e : Expr)
  | program (p : Program)

inductive Derives (table : Precedences) : Phrase → TokenStream → TokenStream → Prop
  | lastParameter {s t u text name type} : s.Passes (.typeKeyword text) t →
      ValueType.ofKeyword? text = some type → t.Passes (.identifier name) u →
      u.head.kind ≠ .punctuation "," → Derives table (.parameters [type] [name]) s u
  | nextParameter {s t u v w text name type types names} : s.Passes (.typeKeyword text) t →
      ValueType.ofKeyword? text = some type → t.Passes (.identifier name) u →
      u.Passes (.punctuation ",") v → Derives table (.parameters types names) v w →
      Derives table (.parameters (type :: types) (name :: names)) s w
  | noParameters {s} : s.head.kind = .punctuation ")" → Derives table (.parameterList [] []) s s
  | someParameters {s t types names} : s.head.kind ≠ .punctuation ")" →
      Derives table (.parameters types names) s t → Derives table (.parameterList types names) s t
  | prototype {s t u v w x y name types names text result} : s.next.Passes (.identifier name) t →
      t.Passes (.punctuation "(") u → Derives table (.parameterList types names) u v →
      v.Passes (.punctuation ")") w → w.Passes (.punctuation "->") x → x.Passes (.typeKeyword text) y →
      ValueType.ofKeyword? text = some result →
      Derives table (.prototype ⟨s.head.position, name, names, types, result⟩) s y
  | hostFunction {s t u result p} : s.head.kind = .keyword "fn" → Derives table (.prototype p) s t →
      t.Passes (.punctuation ";") u → Derives table (.statement result (.prototype p)) s u
  | function {s t u v result p ss} : s.head.kind = .keyword "fn" → Derives table (.prototype p) s t →
      t.Passes (.punctuation "\x7b") u → Derives table (.body p.result ss) u v →
      Derives table (.statement result (.function p p.parameterTypes ss)) s v
  | ret {s t u v result e} : s.Passes (.keyword "return") t →
      Derives table (.expression result (returnContext result) e) t u → u.Passes (.punctuation ";") v →
      Derives table (.statement result (.ret s.head.position e)) s v
  | ifStatement {s t result e} : s.head.kind = .keyword "if" →
      Derives table (.conditional result defaultType e) s t → Derives table (.statement result (.expression e)) s t
  | declaration {s t u v w x result text type name e} : s.Passes (.typeKeyword text) t →
      (s.look 1).kind ≠ .punctuation "(" → ValueType.ofKeyword? text = some type →
      t.Passes (.identifier name) u → u.Passes (.operator "=") v →
      Derives table (.expression result type e) v w → w.Passes (.punctuation ";") x →
      Derives table (.statement result (.declare s.head.position type name e)) s x
  | expressionStatement {s t u result e} : OpensExpression s →
      Derives table (.expression result defaultType e) s t → t.Passes (.punctuation ";") u →
      Derives table (.statement result (statementOf e)) s u
  | bodyEnd {s t result} : s.Passes (.punctuation "\x7d") t → Derives table (.body result []) s t
  | bodyNext {s t u result st ss} : s.head.kind ≠ .punctuation "\x7d" → s.head.kind ≠ .endOfInput →
      Derives table (.statement result st) s t → Derives table (.body result ss) t u →
      Derives table (.body result (st :: ss)) s u
  | expression {s t u result context first e} : Derives table (.primary result context first) s t →
      Derives table (.climb result context (.zero false) first e) t u →
      Derives table (.expression result context e) s u
  | int {s t result context value} : s.Passes (.int value) t →
      Derives table (.primary result context (.number s.head.position value context)) s t
  | float {s t result context value} : s.Passes (.float value) t →
      Derives table (.primary result context (.number s.head.position value .double)) s t
  | bool {s t result context} {value : Bool} : s.Passes (.bool value) t →
      Derives table (.primary result context (.number s.head.position (.ofInt value.toInt) .bool)) s t
  | string {s t result context value} : s.Passes (.string value) t →
      Derives table (.primary result context (.string s.head.position value)) s t
  | call {s t u v w result context name es} : s.Passes (.identifier name) t →
      t.Passes (.punctuation "(") u → Derives table (.argumentList result es) u v →
      v.Passes (.punctuation ")") w → Derives table (.primary result context (.call s.head.position name es)) s w
  | assign {s t u v result context name e} : s.Passes (.identifier name) t →
      t.Passes (.operator "=") u → Derives table (.expression result context e) u v →
      Derives table (.primary result context (.assign s.head.position name e)) s v
  | reference {s t result context name} : s.Passes (.identifier name) t →
      t.head.kind ≠ .punctuation "(" → t.head.kind ≠ .operator "=" →
      Derives table (.primary result context (.reference s.head.position name)) s t
  | parens {s t u v result context e} : s.Passes (.punctuation "(") t →
      Derives table (.expression result context e) t u → u.Passes (.punctuation ")") v →
      Derives table (.primary result context e) s v
  | cast {s t u v w result context text type e} : s.Passes (.typeKeyword text) t →
      (s.look 1).kind = .punctuation "(" → ValueType.ofKeyword? text = some type →
      t.Passes (.punctuation "(") u → Derives table (.expression result defaultType e) u v →
      v.Passes (.punctuation ")") w → Derives table (.primary result context (.cast s.head.position type e)) s w
  | ifPrimary {s t result context e} : s.head.kind = .keyword "if" →
      Derives table (.conditional result context e) s t → Derives table (.primary result context e) s t
  | importFile {s t u result context path} : s.Passes (.keyword "import") t → t.Passes (.string path) u →
      Derives table (.primary result context (.importFile s.head.position path)) s u
  | noArguments {s result} : s.head.kind = .punctuation ")" → Derives table (.argumentList result []) s s
  | someArguments {s t result es} : s.head.kind ≠ .punctuation ")" →
      Derives table (.arguments result es) s t → Derives table (.argumentList result es) s t
  | lastArgument {s t result e} : Derives table (.expression result defaultType e) s t →
      t.head.kind ≠ .punctuation "," → Derives table (.arguments result [e]) s t
  | nextArgument {s t u v result e es} : Derives table (.expression result defaultType e) s t →
      t.Passes (.punctuation ",") u → Derives table (.arguments result es) u v →
      Derives table (.arguments result (e :: es)) s v
  | climbEnd {s result context least lhs} : table.Stops least s.head.lexeme →
      Derives table (.climb result context least lhs lhs) s s
  | climbStep {s t u v result context least power lhs first rhs e} :
      table.binding? s.head.lexeme = some power → power.lt least = false →
      Derives table (.primary result context first) s.next t →
      Derives table (.right result context power first rhs) t u →
      Derives table (.climb result context least (.binary lhs.position s.head.lexeme lhs rhs) e) u v →
      Derives table (.climb result context least lhs e) s v
  | rightPlain {s result context power first} : table.NotTighter power s.head.lexeme →
      Derives table (.right result context power first first) s s
  | rightTighter {s t result context power other first e} : table.binding? s.head.lexeme = some other →
      power.lt other = true → Derives table (.climb result context (Precedences.above power) first e) s t →
      Derives table (.right result context power first e) s t
  | conditional {s t u v w x result context c separators cs ss} : s.next.Passes (.punctuation "(") t →
      Derives table (.condition result context c) t u →
      Derives table (.moreConditions result context separators cs) u v → v.Passes (.punctuation ")") w →
      w.Passes (.punctuation "\x7b") x → Derives table (.body result ss) x y →
      Derives table (.conditional result context (.conditional s.head.position (c :: cs) separators ss)) s y
  | lastCondition {s result context} : separator? s.head = none →
      Derives table (.moreConditions result context [] []) s s
  | nextCondition {s t u result context separator separators c cs} : separator? s.head = some separator →
      Derives table (.condition result context c) s.next t →
      Derives table (.moreConditions result context separators cs) t u →
      Derives table (.moreConditions result context (separator :: separators) (c :: cs)) s u
  | condition {s t u v result context lhs rhs op} : Derives table (.operand result context lhs) s t →
      t.Passes (.operator op) u → yieldsTruth op = true → Derives table (.operand result context rhs) u v →
      Derives table (.condition result context (.compare lhs op rhs)) s v
  | operand {s t u result context first e} : Derives table (.primary result context first) s t →
      Derives table (.climb result context (Precedences.above table.ceiling) first e) t u →
      Derives table (.operand result context e) s u
  | programEnd {s} : s.head.kind = .endOfInput → Derives table (.program []) s s
  | programNext {s t u st p} : s.head.kind ≠ .endOfInput → Derives table (.statement defaultType st) s t →
      Derives table (.program p) t u → Derives table (.program (st :: p)) s u

end Parser

end Keel
