import Keel.Proofs.Syntax.Soundness

namespace Keel

-- A class, so that the lemmas on passing a token find the condition for the kind that a rule names.
class TokenKind.Inner (kind : TokenKind) : Prop where
  ne_endOfInput : kind ≠ .endOfInput

namespace TokenKind

variable (text : String)

instance (value : Double) : Inner (.int value) := ⟨by simp⟩
instance (value : Double) : Inner (.float value) := ⟨by simp⟩
instance (value : Bool) : Inner (.bool value) := ⟨by simp⟩
instance : Inner (.string text) := ⟨by simp⟩
instance : Inner (.identifier text) := ⟨by simp⟩
instance : Inner (.typeKeyword text) := ⟨by simp⟩
instance : Inner (.keyword text) := ⟨by simp⟩
instance : Inner (.punctuation text) := ⟨by simp⟩
instance : Inner (.operator text) := ⟨by simp⟩

end TokenKind

open TokenKind (Inner)

namespace TokenStream

variable {s t : TokenStream} {kind : TokenKind}

lemma head_kind_of_rest_nil (h : s.rest = []) : s.head.kind = .endOfInput := by
  simp only [head, look, endToken, h, List.getElem?_nil]
  split <;> rfl

lemma length_next (s : TokenStream) : s.next.rest.length = s.rest.length - 1 := by
  unfold next
  split <;> simp_all

lemma rest_of_head (hk : s.head.kind ≠ .endOfInput) : s.rest = s.head :: s.next.rest := by
  cases hrest : s.rest with
  | nil => exact absurd (head_kind_of_rest_nil hrest) hk
  | cons t ts => simp [head, look, next, hrest]

lemma Passes.rest [hk : Inner kind] (h : s.Passes kind t) : s.rest = s.head :: t.rest := by
  obtain ⟨rfl, rfl⟩ := h
  exact rest_of_head hk.ne_endOfInput

lemma Passes.length (h : s.Passes kind t) (hk : kind ≠ .endOfInput) :
    s.rest.length = t.rest.length + 1 := by
  obtain ⟨rfl, rfl⟩ := h
  rw [rest_of_head hk, List.length_cons]

end TokenStream

namespace Parser

open Reader TokenStream

variable {table : Precedences} {s t : TokenStream}

namespace Phrase

def least : Phrase → ℕ
  | parameterList _ _ | argumentList _ _ | climb _ _ _ _ _ | right _ _ _ _ _ | moreConditions _ _ _ _
  | program _ => 0
  | _ => 1

def rank : Phrase → ℕ
  | climb _ _ _ _ _ | moreConditions _ _ _ _ | conditional _ _ _ | parameters _ _ | parameterList _ _
  | right _ _ _ _ _ | prototype _ => 1
  | primary _ _ _ => 2
  | expression _ _ _ | operand _ _ _ => 3
  | condition _ _ _ | arguments _ _ | argumentList _ _ => 4
  | statement _ _ => 5
  | body _ _ | program _ => 6

def Read (table : Precedences) (depth : ℕ) (s t : TokenStream) : Phrase → Prop
  | parameters types names => Parser.parameters depth s = .ok (types, names) t
  | parameterList types names =>
    (s.head.kind = .punctuation ")" ∧ types = [] ∧ names = [] ∧ t = s) ∨
      (s.head.kind ≠ .punctuation ")" ∧ Parser.parameters depth s = .ok (types, names) t)
  | prototype p => Parser.prototype depth s = .ok p t
  | statement result st => Parser.statement table depth result s = .ok st t
  | body result ss => Parser.body table depth result s = .ok ss t
  | expression result context e => Parser.expression table depth result context s = .ok e t
  | primary result context e => Parser.primary table depth result context s = .ok e t
  | arguments result es => Parser.arguments table depth result s = .ok es t
  | argumentList result es =>
    (s.head.kind = .punctuation ")" ∧ es = [] ∧ t = s) ∨
      (s.head.kind ≠ .punctuation ")" ∧ Parser.arguments table depth result s = .ok es t)
  | climb result context least lhs e => Parser.climb table depth result context least lhs s = .ok e t
  | right result context power first e =>
    (table.NotTighter power s.head.lexeme ∧ e = first ∧ t = s) ∨
      ∃ other, table.binding? s.head.lexeme = some other ∧ power.lt other = true ∧
        Parser.climb table depth result context (Precedences.above power) first s = .ok e t
  | conditional result context e => Parser.conditional table depth result context s = .ok e t
  | moreConditions result context separators cs =>
    Parser.moreConditions table depth result context s = .ok (separators, cs) t
  | condition result context c => Parser.condition table depth result context s = .ok c t
  | operand result context e => Parser.operand table depth result context s = .ok e t
  | program p => Parser.program table depth s = .ok p t

def ReadEnough (table : Precedences) (s t : TokenStream) (φ : Phrase) : Prop :=
  ∀ depth, 8 * s.rest.length + φ.rank ≤ depth → φ.Read table depth s t

end Phrase

lemma Derives.length_le {φ : Phrase} (h : Derives table φ s t) : t.rest.length + φ.least ≤ s.rest.length := by
  induction h with
  | _ => grind [Phrase.least, Passes.length, length_next]

lemma Phrase.ReadEnough.of_succ {φ : Phrase}
    (h : ∀ depth, 8 * s.rest.length + φ.rank ≤ depth + 1 → φ.Read table (depth + 1) s t) :
    φ.ReadEnough table s t := by
  intro depth hd
  have hrank : 1 ≤ φ.rank := by cases φ <;> simp [Phrase.rank]
  obtain ⟨d, rfl⟩ : ∃ d, depth = d + 1 := ⟨depth - 1, by omega⟩
  exact h d hd

lemma Phrase.ReadEnough.part {φ ψ : Phrase} {u v : TokenStream} {depth : ℕ} (h : ψ.ReadEnough table u v)
    (hd : 8 * s.rest.length + φ.rank ≤ depth + 1)
    (hu : u.rest.length < s.rest.length ∨ u.rest.length = s.rest.length ∧ ψ.rank < φ.rank) :
    ψ.Read table depth u v := by
  have hψ : ψ.rank ≤ 6 := by cases ψ <;> simp [Phrase.rank]
  have hφ : 1 ≤ φ.rank := by cases φ <;> simp [Phrase.rank]
  exact h depth (by omega)

/-! The parser takes the step of each rule, if it reads the parts. -/

section Steps

variable {u v w x y : TokenStream} {depth : ℕ} {result context type : ValueType} {text name : String}

lemma parameters_last (htext : s.Passes (.typeKeyword text) t) (htype : ValueType.ofKeyword? text = some type)
    (hname : t.Passes (.identifier name) u) (hcomma : u.head.kind ≠ .punctuation ",") :
    Parser.parameters (depth + 1) s = .ok ([type], [name]) u := by
  simp only [Parser.parameters, bind_ok, valueType_ok, identifier_ok, head_bind, ite_ok, is_iff, pure_ok]
  exact ⟨_, _, ⟨_, htext, htype⟩, _, _, hname, .inr ⟨hcomma, rfl, rfl⟩⟩

lemma parameters_next {types : List ValueType} {names : List String} (htext : s.Passes (.typeKeyword text) t)
    (htype : ValueType.ofKeyword? text = some type) (hname : t.Passes (.identifier name) u)
    (hcomma : u.Passes (.punctuation ",") v) (hrest : Parser.parameters depth v = .ok (types, names) w) :
    Parser.parameters (depth + 1) s = .ok (type :: types, name :: names) w := by
  obtain ⟨hkind, rfl⟩ := hcomma
  simp only [Parser.parameters, bind_ok, valueType_ok, identifier_ok, head_bind, ite_ok, is_iff, pure_ok, next_bind]
  exact ⟨_, _, ⟨_, htext, htype⟩, _, _, hname, .inl ⟨hkind, _, _, hrest, rfl, rfl⟩⟩

lemma prototype_read {types : List ValueType} {names : List String} (hname : s.next.Passes (.identifier name) t)
    (hopen : t.Passes (.punctuation "(") u) (hps : (Phrase.parameterList types names).Read table depth u v)
    (hclose : v.Passes (.punctuation ")") w) (harrow : w.Passes (.punctuation "->") x)
    (htext : x.Passes (.typeKeyword text) y) (hresult : ValueType.ofKeyword? text = some result) :
    Parser.prototype depth s = .ok ⟨s.head.position, name, names, types, result⟩ y := by
  simp only [Parser.prototype, next_bind, head_bind, bind_ok, ite_ok, identifier_ok, punctuation_ok, valueType_ok,
    pure_ok, is_iff]
  obtain ⟨hempty, rfl, rfl, rfl⟩ | ⟨hsome, hps⟩ := hps
  · exact ⟨_, _, hname, _, _, ⟨rfl, hopen⟩, .inl ⟨hempty, _, _, ⟨rfl, rfl⟩, _, _, ⟨rfl, hclose⟩, _, _,
      ⟨rfl, harrow⟩, _, _, ⟨_, htext, hresult⟩, rfl, rfl⟩⟩
  · exact ⟨_, _, hname, _, _, ⟨rfl, hopen⟩, .inr ⟨hsome, _, _, hps, _, _, ⟨rfl, hclose⟩, _, _,
      ⟨rfl, harrow⟩, _, _, ⟨_, htext, hresult⟩, rfl, rfl⟩⟩

lemma statement_hostFunction {p : Prototype} (hfn : s.head.kind = .keyword "fn")
    (hp : Parser.prototype depth s = .ok p t) (hend : t.Passes (.punctuation ";") u) :
    Parser.statement table (depth + 2) result s = .ok (.prototype p) u := by
  obtain ⟨hkind, rfl⟩ := hend
  simp only [Parser.statement, head_bind, hfn, Parser.function, bind_ok, ite_ok, is_iff, next_bind, pure_ok]
  exact ⟨_, _, hp, .inl ⟨hkind, rfl, rfl⟩⟩

lemma statement_function {p : Prototype} {ss : List Stmt} (hfn : s.head.kind = .keyword "fn")
    (hp : Parser.prototype depth s = .ok p t) (hbrace : t.Passes (.punctuation "\x7b") u)
    (hss : Parser.body table depth p.result u = .ok ss v) :
    Parser.statement table (depth + 2) result s = .ok (.function p p.parameterTypes ss) v := by
  simp only [Parser.statement, head_bind, hfn, Parser.function, bind_ok, ite_ok, is_iff, next_bind, pure_ok,
    punctuation_ok]
  exact ⟨_, _, hp, .inr ⟨by simp [hbrace.1], _, _, ⟨rfl, hbrace⟩, _, _, hss, rfl, rfl⟩⟩

lemma statement_ret {e : Expr} (hret : s.Passes (.keyword "return") t)
    (he : Parser.expression table depth result (returnContext result) t = .ok e u)
    (hend : u.Passes (.punctuation ";") v) :
    Parser.statement table (depth + 1) result s = .ok (.ret s.head.position e) v := by
  obtain ⟨hkind, rfl⟩ := hret
  simp only [Parser.statement, head_bind, hkind, next_bind, bind_ok, punctuation_ok, pure_ok]
  exact ⟨_, _, he, _, _, ⟨rfl, hend⟩, rfl, rfl⟩

lemma statement_if {e : Expr} (hif : s.head.kind = .keyword "if")
    (he : Parser.conditional table depth result defaultType s = .ok e t) :
    Parser.statement table (depth + 1) result s = .ok (.expression e) t := by
  simp only [Parser.statement, head_bind, hif, bind_ok, pure_ok]
  exact ⟨_, _, he, rfl, rfl⟩

lemma statement_declaration {e : Expr} (htext : s.Passes (.typeKeyword text) t)
    (hlook : (s.look 1).kind ≠ .punctuation "(") (htype : ValueType.ofKeyword? text = some type)
    (hname : t.Passes (.identifier name) u) (hassign : u.Passes (.operator "=") v)
    (he : Parser.expression table depth result type v = .ok e w) (hend : w.Passes (.punctuation ";") x) :
    Parser.statement table (depth + 2) result s = .ok (.declare s.head.position type name e) x := by
  obtain ⟨hkind, rfl⟩ := hassign
  simp only [Parser.statement, head_bind, htext.1, look_bind, ite_ok, is_iff, Parser.declaration, bind_ok,
    valueType_ok, identifier_ok, next_bind, punctuation_ok, pure_ok]
  exact .inr ⟨hlook, _, _, ⟨_, htext, htype⟩, _, _, hname, .inl ⟨hkind, _, _, he, _, _, ⟨rfl, hend⟩, rfl, rfl⟩⟩

lemma expressionStatement_ok {e : Expr} (he : Parser.expression table depth result defaultType s = .ok e t)
    (hend : t.Passes (.punctuation ";") u) :
    Parser.expressionStatement table (depth + 1) result s = .ok (statementOf e) u := by
  simp only [Parser.expressionStatement, bind_ok, punctuation_ok, pure_ok]
  exact ⟨_, _, he, _, _, ⟨rfl, hend⟩, rfl, rfl⟩

lemma statement_of_opens {st : Stmt} (hs : OpensExpression s)
    (h : Parser.expressionStatement table depth result s = .ok st t) :
    Parser.statement table (depth + 1) result s = .ok st t := by
  unfold OpensExpression at hs
  split at hs
  · exact hs.elim
  · exact hs.elim
  · exact hs.elim
  · rename_i text hk
    simp only [Parser.statement, head_bind, hk, look_bind, ite_ok, is_iff]
    exact .inl ⟨hs, h⟩
  · rename_i hfn hret hif htype
    rw [Parser.statement, head_bind_ok]
    refine ⟨_, ?_, h⟩
    split
    · exact (hfn ‹_›).elim
    · exact (hret ‹_›).elim
    · exact (hif ‹_›).elim
    · exact (htype _ ‹_›).elim
    · rfl

lemma body_end (hclose : s.Passes (.punctuation "\x7d") t) : Parser.body table (depth + 1) result s = .ok [] t := by
  obtain ⟨hkind, rfl⟩ := hclose
  simp only [Parser.body, head_bind, ite_ok, is_iff, next_bind, pure_ok]
  exact .inl ⟨hkind, trivial, trivial⟩

lemma body_next {st : Stmt} {ss : List Stmt} (hclose : s.head.kind ≠ .punctuation "\x7d")
    (hend : s.head.kind ≠ .endOfInput) (hst : Parser.statement table depth result s = .ok st t)
    (hss : Parser.body table depth result t = .ok ss u) :
    Parser.body table (depth + 1) result s = .ok (st :: ss) u := by
  simp only [Parser.body, head_bind, finished_bind, ite_ok, is_iff, finished_iff, next_bind, bind_ok, pure_ok]
  exact .inr ⟨hclose, .inr ⟨hend, _, _, hst, _, _, hss, rfl, rfl⟩⟩

lemma expression_of_climb {first e : Expr} (hfirst : Parser.primary table depth result context s = .ok first t)
    (he : Parser.climb table depth result context (.zero false) first t = .ok e u) :
    Parser.expression table (depth + 1) result context s = .ok e u := by
  simp only [Parser.expression, bind_ok]
  exact ⟨_, _, hfirst, he⟩

lemma operand_of_climb {first e : Expr} (hfirst : Parser.primary table depth result context s = .ok first t)
    (he : Parser.climb table depth result context (Precedences.above table.ceiling) first t = .ok e u) :
    Parser.operand table (depth + 1) result context s = .ok e u := by
  simp only [Parser.operand, bind_ok]
  exact ⟨_, _, hfirst, he⟩

lemma primary_int {value : Double} (h : s.Passes (.int value) t) :
    Parser.primary table (depth + 1) result context s = .ok (.number s.head.position value context) t := by
  simp only [Parser.primary, head_bind, h.1, literal, next_bind, pure_ok, h.2, and_self]

lemma primary_float {value : Double} (h : s.Passes (.float value) t) :
    Parser.primary table (depth + 1) result context s = .ok (.number s.head.position value .double) t := by
  simp only [Parser.primary, head_bind, h.1, literal, next_bind, pure_ok, h.2, and_self]

lemma primary_bool {value : Bool} (h : s.Passes (.bool value) t) :
    Parser.primary table (depth + 1) result context s =
      .ok (.number s.head.position (.ofInt value.toInt) .bool) t := by
  simp only [Parser.primary, head_bind, h.1, literal, next_bind, pure_ok, h.2, and_self]

lemma primary_string {value : String} (h : s.Passes (.string value) t) :
    Parser.primary table (depth + 1) result context s = .ok (.string s.head.position value) t := by
  simp only [Parser.primary, head_bind, h.1, next_bind, pure_ok, h.2, and_self]

lemma primary_call {es : List Expr} (hname : s.Passes (.identifier name) t) (hopen : t.Passes (.punctuation "(") u)
    (hes : (Phrase.argumentList result es).Read table depth u v) (hclose : v.Passes (.punctuation ")") w) :
    Parser.primary table (depth + 1) result context s = .ok (.call s.head.position name es) w := by
  obtain ⟨hkind, rfl⟩ := hname
  obtain ⟨hparen, rfl⟩ := hopen
  simp only [Parser.primary, head_bind, hkind, next_bind, ite_ok, bind_ok, punctuation_ok, pure_ok, is_iff]
  obtain ⟨hempty, rfl, rfl⟩ | ⟨hsome, hes⟩ := hes
  · exact .inl ⟨hparen, .inl ⟨hempty, _, _, ⟨rfl, rfl⟩, _, _, ⟨rfl, hclose⟩, rfl, rfl⟩⟩
  · exact .inl ⟨hparen, .inr ⟨hsome, _, _, hes, _, _, ⟨rfl, hclose⟩, rfl, rfl⟩⟩

lemma primary_assign {e : Expr} (hname : s.Passes (.identifier name) t) (hassign : t.Passes (.operator "=") u)
    (he : Parser.expression table depth result context u = .ok e v) :
    Parser.primary table (depth + 1) result context s = .ok (.assign s.head.position name e) v := by
  obtain ⟨hkind, rfl⟩ := hname
  obtain ⟨hsign, rfl⟩ := hassign
  simp only [Parser.primary, head_bind, hkind, next_bind, ite_ok, bind_ok, pure_ok, is_iff]
  exact .inr ⟨by simp [hsign], .inl ⟨hsign, _, _, he, rfl, rfl⟩⟩

lemma primary_reference (hname : s.Passes (.identifier name) t) (hopen : t.head.kind ≠ .punctuation "(")
    (hassign : t.head.kind ≠ .operator "=") :
    Parser.primary table (depth + 1) result context s = .ok (.reference s.head.position name) t := by
  obtain ⟨hkind, rfl⟩ := hname
  simp only [Parser.primary, head_bind, hkind, next_bind, ite_ok, bind_ok, pure_ok, is_iff]
  exact .inr ⟨hopen, .inr ⟨hassign, trivial, trivial⟩⟩

lemma primary_parens {e : Expr} (hopen : s.Passes (.punctuation "(") t)
    (he : Parser.expression table depth result context t = .ok e u) (hclose : u.Passes (.punctuation ")") v) :
    Parser.primary table (depth + 1) result context s = .ok e v := by
  obtain ⟨hkind, rfl⟩ := hopen
  simp only [Parser.primary, head_bind, hkind, next_bind, bind_ok, punctuation_ok, pure_ok]
  exact ⟨_, _, he, _, _, ⟨rfl, hclose⟩, rfl, rfl⟩

lemma primary_cast {e : Expr} (htext : s.Passes (.typeKeyword text) t) (hlook : (s.look 1).kind = .punctuation "(")
    (htype : ValueType.ofKeyword? text = some type) (hopen : t.Passes (.punctuation "(") u)
    (he : Parser.expression table depth result defaultType u = .ok e v) (hclose : v.Passes (.punctuation ")") w) :
    Parser.primary table (depth + 1) result context s = .ok (.cast s.head.position type e) w := by
  simp only [Parser.primary, head_bind, htext.1, look_bind, ite_ok, bind_ok, valueType_ok, punctuation_ok, pure_ok,
    is_iff]
  exact .inl ⟨hlook, _, _, ⟨_, htext, htype⟩, _, _, ⟨rfl, hopen⟩, _, _, he, _, _, ⟨rfl, hclose⟩, rfl, rfl⟩

lemma primary_if {e : Expr} (hif : s.head.kind = .keyword "if")
    (he : Parser.conditional table depth result context s = .ok e t) :
    Parser.primary table (depth + 1) result context s = .ok e t := by
  simpa only [Parser.primary, head_bind, hif] using he

lemma primary_importFile {path : String} (himport : s.Passes (.keyword "import") t)
    (hpath : t.Passes (.string path) u) :
    Parser.primary table (depth + 1) result context s = .ok (.importFile s.head.position path) u := by
  obtain ⟨hkind, rfl⟩ := himport
  simp only [Parser.primary, head_bind, hkind, importPath, next_bind, bind_ok, stringLiteral_ok, pure_ok]
  exact ⟨_, _, hpath, rfl, rfl⟩

lemma arguments_last {e : Expr} (he : Parser.expression table depth result defaultType s = .ok e t)
    (hcomma : t.head.kind ≠ .punctuation ",") : Parser.arguments table (depth + 1) result s = .ok [e] t := by
  simp only [Parser.arguments, bind_ok, head_bind, ite_ok, is_iff, pure_ok]
  exact ⟨_, _, he, .inr ⟨hcomma, rfl, rfl⟩⟩

lemma arguments_next {e : Expr} {es : List Expr} (he : Parser.expression table depth result defaultType s = .ok e t)
    (hcomma : t.Passes (.punctuation ",") u) (hes : Parser.arguments table depth result u = .ok es v) :
    Parser.arguments table (depth + 1) result s = .ok (e :: es) v := by
  obtain ⟨hkind, rfl⟩ := hcomma
  simp only [Parser.arguments, bind_ok, head_bind, ite_ok, is_iff, next_bind, pure_ok]
  exact ⟨_, _, he, .inl ⟨hkind, _, _, hes, rfl, rfl⟩⟩

lemma climb_of_stops {least : Double} {lhs : Expr} (h : table.Stops least s.head.lexeme) :
    Parser.climb table (depth + 1) result context least lhs s = .ok lhs s := by
  have hless : (table.power s.head.lexeme).lt least = true := h
  simp only [Parser.climb, power_bind, hless, if_true, pure_ok, and_self]

lemma climb_step {least own : Double} {lhs first rhs e : Expr} (hown : table.binding? s.head.lexeme = some own)
    (hleast : own.lt least = false) (hfirst : Parser.primary table depth result context s.next = .ok first t)
    (hrhs : (Phrase.right result context own first rhs).Read table depth t u)
    (he : Parser.climb table depth result context least (.binary lhs.position s.head.lexeme lhs rhs) u = .ok e v) :
    Parser.climb table (depth + 1) result context least lhs s = .ok e v := by
  simp only [Parser.climb, power_bind, Precedences.power_of_binding? hown, hleast, Bool.false_eq_true, if_false,
    next_bind, bind_ok, ite_ok, pure_ok]
  refine ⟨_, _, hfirst, ?_⟩
  obtain ⟨hloose, rfl, rfl⟩ | ⟨other, hother, htight, hrhs⟩ := hrhs
  · exact .inr ⟨Bool.eq_false_iff.mp hloose, _, _, ⟨rfl, rfl⟩, he⟩
  · exact .inl ⟨Precedences.power_of_binding? hother ▸ htight, _, _, hrhs, he⟩

lemma conditional_read {c : Condition} {separators : List String} {cs : List Condition} {ss : List Stmt}
    (hopen : s.next.Passes (.punctuation "(") t) (hc : Parser.condition table depth result context t = .ok c u)
    (hcs : Parser.moreConditions table depth result context u = .ok (separators, cs) v)
    (hclose : v.Passes (.punctuation ")") w) (hbrace : w.Passes (.punctuation "\x7b") x)
    (hss : Parser.body table depth result x = .ok ss y) :
    Parser.conditional table (depth + 1) result context s =
      .ok (.conditional s.head.position (c :: cs) separators ss) y := by
  simp only [Parser.conditional, next_bind, bind_ok, punctuation_ok, pure_ok]
  exact ⟨_, _, ⟨rfl, hopen⟩, _, _, hc, _, _, hcs, _, _, ⟨rfl, hclose⟩, _, _, ⟨rfl, hbrace⟩, _, _, hss, rfl, rfl⟩

lemma moreConditions_last (hsep : separator? s.head = none) :
    Parser.moreConditions table (depth + 1) result context s = .ok ([], []) s := by
  simp only [Parser.moreConditions, head_bind, hsep, pure_ok, and_self]

lemma moreConditions_next {separator : String} {c : Condition} {separators : List String} {cs : List Condition}
    (hsep : separator? s.head = some separator) (hc : Parser.condition table depth result context s.next = .ok c t)
    (hcs : Parser.moreConditions table depth result context t = .ok (separators, cs) u) :
    Parser.moreConditions table (depth + 1) result context s = .ok (separator :: separators, c :: cs) u := by
  simp only [Parser.moreConditions, head_bind, hsep, next_bind, bind_ok, pure_ok]
  exact ⟨_, _, hc, _, _, hcs, rfl, rfl⟩

lemma condition_read {lhs rhs : Expr} {op : String} (hlhs : Parser.operand table depth result context s = .ok lhs t)
    (hop : t.Passes (.operator op) u) (htruth : yieldsTruth op = true)
    (hrhs : Parser.operand table depth result context u = .ok rhs v) :
    Parser.condition table (depth + 1) result context s = .ok (.compare lhs op rhs) v := by
  simp only [Parser.condition, bind_ok, comparison_ok, pure_ok]
  exact ⟨_, _, hlhs, _, _, ⟨hop, htruth⟩, _, _, hrhs, rfl, rfl⟩

lemma program_end (hend : s.head.kind = .endOfInput) : Parser.program table (depth + 1) s = .ok [] s := by
  simp only [Parser.program, finished_bind, ite_ok, finished_iff, pure_ok]
  exact .inl ⟨hend, trivial, trivial⟩

lemma program_next {st : Stmt} {p : Program} (hend : s.head.kind ≠ .endOfInput)
    (hst : Parser.statement table depth defaultType s = .ok st t) (hp : Parser.program table depth t = .ok p u) :
    Parser.program table (depth + 1) s = .ok (st :: p) u := by
  simp only [Parser.program, finished_bind, ite_ok, finished_iff, bind_ok, pure_ok]
  exact .inr ⟨hend, _, _, hst, _, _, hp, rfl, rfl⟩

end Steps

attribute [local grind →] Passes.length Derives.length_le

attribute [local grind =] length_next

attribute [local grind] Phrase.least Phrase.rank

open Phrase.ReadEnough in
lemma Derives.readEnough {φ : Phrase} (h : Derives table φ s t) : φ.ReadEnough table s t := by
  induction h with
  | lastParameter htext htype hname hcomma => exact of_succ fun _ _ => parameters_last htext htype hname hcomma
  | nextParameter htext htype hname hcomma _ ih =>
    exact of_succ fun _ hd => parameters_next htext htype hname hcomma (ih.part hd (by grind))
  | noParameters hclose => exact fun _ _ => .inl ⟨hclose, rfl, rfl, rfl⟩
  | someParameters hclose _ ih => exact fun depth hd => .inr ⟨hclose, ih depth hd⟩
  | prototype hname hopen _ hclose harrow htext hresult ih =>
    exact fun depth hd => prototype_read hname hopen (ih depth (by grind)) hclose harrow htext hresult
  | hostFunction hfn _ hend ih =>
    refine of_succ fun depth hd => ?_
    obtain ⟨depth, rfl⟩ : ∃ d, depth = d + 1 := ⟨depth - 1, by grind⟩
    exact statement_hostFunction hfn (ih depth (by grind)) hend
  | function hfn _ hbrace _ ihp ih =>
    refine of_succ fun depth hd => ?_
    obtain ⟨depth, rfl⟩ : ∃ d, depth = d + 1 := ⟨depth - 1, by grind⟩
    exact statement_function hfn (ihp depth (by grind)) hbrace (ih depth (by grind))
  | ret hret _ hend ih => exact of_succ fun _ hd => statement_ret hret (ih.part hd (by grind)) hend
  | ifStatement hif _ ih => exact of_succ fun _ hd => statement_if hif (ih.part hd (by grind))
  | declaration htext hlook htype hname hassign _ hend ih =>
    refine of_succ fun depth hd => ?_
    obtain ⟨depth, rfl⟩ : ∃ d, depth = d + 1 := ⟨depth - 1, by grind⟩
    exact statement_declaration htext hlook htype hname hassign (ih depth (by grind)) hend
  | expressionStatement hopens _ hend ih =>
    refine of_succ fun depth hd => ?_
    obtain ⟨depth, rfl⟩ : ∃ d, depth = d + 1 := ⟨depth - 1, by grind⟩
    exact statement_of_opens hopens (expressionStatement_ok (ih depth (by grind)) hend)
  | bodyEnd hclose => exact of_succ fun _ _ => body_end hclose
  | bodyNext hclose hend _ _ ihs ih =>
    exact of_succ fun _ hd => body_next hclose hend (ihs.part hd (by grind)) (ih.part hd (by grind))
  | expression _ _ ihp ihc =>
    exact of_succ fun _ hd => expression_of_climb (ihp.part hd (by grind)) (ihc.part hd (by grind))
  | int h => exact of_succ fun _ _ => primary_int h
  | float h => exact of_succ fun _ _ => primary_float h
  | bool h => exact of_succ fun _ _ => primary_bool h
  | string h => exact of_succ fun _ _ => primary_string h
  | call hname hopen _ hclose ih =>
    exact of_succ fun depth hd => primary_call hname hopen (ih depth (by grind)) hclose
  | assign hname hassign _ ih => exact of_succ fun _ hd => primary_assign hname hassign (ih.part hd (by grind))
  | reference hname hopen hassign => exact of_succ fun _ _ => primary_reference hname hopen hassign
  | parens hopen _ hclose ih => exact of_succ fun _ hd => primary_parens hopen (ih.part hd (by grind)) hclose
  | cast htext hlook htype hopen _ hclose ih =>
    exact of_succ fun _ hd => primary_cast htext hlook htype hopen (ih.part hd (by grind)) hclose
  | ifPrimary hif _ ih => exact of_succ fun _ hd => primary_if hif (ih.part hd (by grind))
  | importFile himport hpath => exact of_succ fun _ _ => primary_importFile himport hpath
  | noArguments hclose => exact fun _ _ => .inl ⟨hclose, rfl, rfl⟩
  | someArguments hclose _ ih => exact fun depth hd => .inr ⟨hclose, ih depth (by grind)⟩
  | lastArgument _ hcomma ih => exact of_succ fun _ hd => arguments_last (ih.part hd (by grind)) hcomma
  | nextArgument _ hcomma _ ihe ih =>
    exact of_succ fun _ hd => arguments_next (ihe.part hd (by grind)) hcomma (ih.part hd (by grind))
  | climbEnd hstops => exact of_succ fun _ _ => climb_of_stops hstops
  | climbStep hown hleast _ _ _ ihp ihr ih =>
    exact of_succ fun depth hd => climb_step hown hleast (ihp.part hd (by grind)) (ihr depth (by grind))
      (ih.part hd (by grind))
  | rightPlain hloose => exact fun _ _ => .inl ⟨hloose, rfl, rfl⟩
  | rightTighter hother htight _ ih => exact fun depth hd => .inr ⟨_, hother, htight, ih depth (by grind)⟩
  | conditional hopen _ _ hclose hbrace _ ihc ihm ih =>
    exact of_succ fun _ hd => conditional_read hopen (ihc.part hd (by grind)) (ihm.part hd (by grind)) hclose hbrace
      (ih.part hd (by grind))
  | lastCondition hsep => exact of_succ fun _ _ => moreConditions_last hsep
  | nextCondition hsep _ _ ihc ih =>
    exact of_succ fun _ hd => moreConditions_next hsep (ihc.part hd (by grind)) (ih.part hd (by grind))
  | condition _ hop htruth _ ihl ihr =>
    exact of_succ fun _ hd => condition_read (ihl.part hd (by grind)) hop htruth (ihr.part hd (by grind))
  | operand _ _ ihp ihc =>
    exact of_succ fun _ hd => operand_of_climb (ihp.part hd (by grind)) (ihc.part hd (by grind))
  | programEnd hend => exact of_succ fun _ _ => program_end hend
  | programNext hend _ _ ihs ih =>
    exact of_succ fun _ hd => program_next hend (ihs.part hd (by grind)) (ih.part hd (by grind))

lemma Derives.read {φ : Phrase} (h : Derives table φ s t) {depth : ℕ} (hd : 8 * s.rest.length + φ.rank ≤ depth) :
    φ.Read table depth s t :=
  h.readEnough depth hd

lemma parse_complete {tokens : List Token} {p : Program} (h : Derives table (.program p) (.ofTokens tokens) t) :
    parse tokens table = .ok p := by
  have hread : Parser.program table (depthFor tokens) (.ofTokens tokens) = .ok p t :=
    h.read (by simp only [depthFor, ofTokens, Phrase.rank]; omega)
  rw [parse, hread]

end Parser

end Keel
