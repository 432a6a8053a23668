import Keel.Proofs.Syntax.Contents
import Keel.Proofs.Syntax.Soundness
import Keel.Proofs.Token.Genuine
import Keel.Unit.Linked

namespace Keel

mutual

def Expr.parts : Expr → List Expr
  | .number place value type => [.number place value type]
  | .reference place name => [.reference place name]
  | .binary place op lhs rhs => .binary place op lhs rhs :: (lhs.parts ++ rhs.parts)
  | .call place callee args => .call place callee args :: Expr.partsOfAll args
  | .cast place target value => .cast place target value :: value.parts
  | .assign place name value => .assign place name value :: value.parts
  | .string place value => [.string place value]
  | .conditional place conditions separators body =>
    .conditional place conditions separators body :: (Condition.partsOfAll conditions ++ Stmt.partsOfAll body)
  | .importFile place path => [.importFile place path]

def Expr.partsOfAll : List Expr → List Expr
  | [] => []
  | e :: es => e.parts ++ Expr.partsOfAll es

def Condition.parts : Condition → List Expr
  | .compare lhs _ rhs => lhs.parts ++ rhs.parts

def Condition.partsOfAll : List Condition → List Expr
  | [] => []
  | c :: cs => c.parts ++ Condition.partsOfAll cs

def Stmt.parts : Stmt → List Expr
  | .expression value => value.parts
  | .call _ _ args => Expr.partsOfAll args
  | .declare _ _ _ value => value.parts
  | .function _ _ body => Stmt.partsOfAll body
  | .prototype _ => []
  | .ret _ value => value.parts

def Stmt.partsOfAll : List Stmt → List Expr
  | [] => []
  | s :: ss => s.parts ++ Stmt.partsOfAll ss

end

lemma Expr.self_mem_parts (e : Expr) : e ∈ e.parts := by cases e <;> simp [Expr.parts]

def Program.parts (p : Program) : List Expr := Stmt.partsOfAll p

def Prototype.Shaped (p : Prototype) : Prop :=
  Lexer.IsName p.name ∧ p.Paired ∧ ∀ name ∈ p.parameterNames, Lexer.IsName name

def Literal.Shaped (value : Double) (type context : ValueType) : Prop :=
  value.isFinite → value.IsLiteral ∧
    (type = context ∧ value.isInteger ∨ type = .double ∨ type = .bool ∧ ∃ b : Bool, value = .ofInt b.toInt)

def Precedences.Separator (table : Precedences) (separator : String) : Prop :=
  (separator = "&&" ∨ separator = "||") ∧ table.Stops (Precedences.above table.ceiling) separator

def Expr.IsCall : Expr → Prop
  | .call _ _ _ => True
  | _ => False

variable (table : Precedences)

mutual

/-- What holds of an expression that was read where literals take the type `context`. -/
def Expr.Shaped (result context : ValueType) : Expr → Prop
  | .number _ value type => Literal.Shaped value type context
  | .reference _ name => Lexer.IsName name
  | .binary _ op lhs rhs =>
    (∃ power, table.binding? op = some power) ∧ lhs.Shaped result context ∧ rhs.Shaped result context
  | .call _ callee args => Lexer.IsName callee ∧ Expr.AllShaped result args
  | .cast _ _ value => value.Shaped result Parser.defaultType
  | .assign _ name value => Lexer.IsName name ∧ value.Shaped result context
  | .string _ _ | .importFile _ _ => True
  | .conditional _ conditions separators body =>
    separators.length + 1 = conditions.length ∧ (∀ s ∈ separators, table.Separator s) ∧
      Condition.AllShaped result context conditions ∧ Stmt.AllShaped result body

def Expr.AllShaped (result : ValueType) : List Expr → Prop
  | [] => True
  | e :: es => e.Shaped result Parser.defaultType ∧ Expr.AllShaped result es

def Condition.Shaped (result context : ValueType) : Condition → Prop
  | .compare lhs op rhs => yieldsTruth op = true ∧ lhs.Shaped result context ∧ rhs.Shaped result context

def Condition.AllShaped (result context : ValueType) : List Condition → Prop
  | [] => True
  | c :: cs => c.Shaped result context ∧ Condition.AllShaped result context cs

def Stmt.Shaped (result : ValueType) : Stmt → Prop
  | .expression value => ¬ value.IsCall ∧ value.Shaped result Parser.defaultType
  | .call _ callee args => Lexer.IsName callee ∧ Expr.AllShaped result args
  | .declare _ type name value => Lexer.IsName name ∧ value.Shaped result type
  | .function signature types body =>
    signature.Shaped ∧ types = signature.parameterTypes ∧ Stmt.AllShaped signature.result body
  | .prototype signature => signature.Shaped
  | .ret _ value => value.Shaped result (Parser.returnContext result)

def Stmt.AllShaped (result : ValueType) : List Stmt → Prop
  | [] => True
  | s :: ss => s.Shaped result ∧ Stmt.AllShaped result ss

end

def Program.Shaped (p : Program) : Prop := Stmt.AllShaped table Parser.defaultType p

namespace TokenStream

variable {s t : TokenStream} {kind : TokenKind}

def Genuine (s : TokenStream) : Prop := ∀ t ∈ s.passed ++ s.rest, t.Genuine

lemma next_subset (s : TokenStream) : s.next.passed ++ s.next.rest ⊆ s.passed ++ s.rest := by
  intro t ht
  unfold TokenStream.next at ht
  split at ht
  · exact ht
  · rename_i a ts hrest
    simp only [hrest, List.cons_append, List.mem_cons, List.mem_append] at ht ⊢
    tauto

lemma Genuine.next (h : s.Genuine) : s.next.Genuine := fun t ht => h t (s.next_subset ht)

lemma Genuine.passes (h : s.Genuine) (hp : s.Passes kind t) : t.Genuine := hp.2 ▸ h.next

lemma Genuine.head (h : s.Genuine) : s.head.Genuine := by
  unfold TokenStream.head look
  simp only
  split
  · rename_i t ht
    exact h t (List.mem_append_right _ (List.mem_of_getElem? ht))
  · unfold endToken
    split <;> rfl

end TokenStream

namespace Parser

variable {table} {s t : TokenStream}

def Phrase.Shaped (table : Precedences) (s t : TokenStream) : Phrase → Prop
  | parameters types names | parameterList types names =>
    names.length = types.length ∧ ∀ name ∈ names, Lexer.IsName name
  | prototype p => p.Shaped
  | statement result st => st.Shaped table result
  | body result ss => Stmt.AllShaped table result ss
  | expression result context e | primary result context e | conditional result context e =>
    e.Shaped table result context
  | arguments result es | argumentList result es => Expr.AllShaped table result es
  | climb result context least lhs e =>
    table.Stops least t.head.lexeme ∧ (lhs.Shaped table result context → e.Shaped table result context)
  | right result context _ first e => first.Shaped table result context → e.Shaped table result context
  | moreConditions result context separators cs =>
    table.Stops (Precedences.above table.ceiling) s.head.lexeme →
      separators.length = cs.length ∧ (∀ x ∈ separators, table.Separator x) ∧
        Condition.AllShaped table result context cs
  | condition result context c =>
    table.Stops (Precedences.above table.ceiling) t.head.lexeme ∧ c.Shaped table result context
  | operand result context e =>
    table.Stops (Precedences.above table.ceiling) t.head.lexeme ∧ e.Shaped table result context
  | program p => p.Shaped table

lemma isName_of_passes {name : String} (h : s.Genuine) (hp : s.Passes (.identifier name) t) :
    Lexer.IsName name := by
  have hg := h.head
  simp only [Token.Genuine, hp.1] at hg
  exact hg.2

lemma separator_lexeme {separator : String} (h : s.Genuine) (hs : separator? s.head = some separator) :
    s.head.lexeme = separator ∧ (separator = "&&" ∨ separator = "||") := by
  have hg := h.head
  unfold separator? at hs
  split at hs
  · rename_i op hop
    simp only [Token.Genuine, hop] at hg
    split_ifs at hs with hc
    obtain rfl := Option.some.inj hs
    exact ⟨hg, by simpa using hc⟩
  · simp at hs

lemma literal_int_shaped {value : Double} {context : ValueType} (h : s.Genuine) (hp : s.Passes (.int value) t) :
    Literal.Shaped value context context := by
  have hg := h.head
  simp only [Token.Genuine, hp.1] at hg
  exact fun hf => ⟨(hg hf).1, .inl ⟨rfl, (hg hf).2⟩⟩

lemma literal_float_shaped {value : Double} {context : ValueType} (h : s.Genuine)
    (hp : s.Passes (.float value) t) : Literal.Shaped value .double context := by
  have hg := h.head
  simp only [Token.Genuine, hp.1] at hg
  exact fun hf => ⟨hg hf, .inr (.inl rfl)⟩

lemma literal_bool_shaped (b : Bool) (context : ValueType) : Literal.Shaped (.ofInt b.toInt) .bool context := by
  refine fun _ => ⟨Floating.isLiteral_ofInt ?_ ?_, .inr (.inr ⟨rfl, b, rfl⟩)⟩
  · cases b <;> decide
  · cases b <;> simp [Floating.ExactInt]

lemma statementOf_shaped {result : ValueType} {e : Expr} (h : e.Shaped table result defaultType) :
    (statementOf e).Shaped table result := by
  cases e with
  | call place callee args => exact h
  | _ => exact ⟨id, h⟩

lemma Derives.shaped {φ : Phrase} (h : Derives table φ s t) (hs : s.Genuine) :
    t.Genuine ∧ φ.Shaped table s t := by
  induction h with
  | lastParameter htext _ hname _ =>
    have hname' := isName_of_passes (hs.passes htext) hname
    exact ⟨(hs.passes htext).passes hname, rfl, by simpa using hname'⟩
  | nextParameter htext _ hname hcomma _ ih =>
    have hname' := isName_of_passes (hs.passes htext) hname
    obtain ⟨ht, hlength, hnames⟩ := ih (((hs.passes htext).passes hname).passes hcomma)
    exact ⟨ht, congrArg Nat.succ hlength, List.forall_mem_cons.mpr ⟨hname', hnames⟩⟩
  | noParameters _ => exact ⟨hs, rfl, by simp⟩
  | someParameters _ _ ih => exact ih hs
  | prototype hname hopen _ hclose harrow htext _ ih =>
    have hname' := isName_of_passes hs.next hname
    obtain ⟨hv, hps⟩ := ih ((hs.next.passes hname).passes hopen)
    exact ⟨((hv.passes hclose).passes harrow).passes htext, hname', hps⟩
  | hostFunction _ _ hend ih =>
    obtain ⟨ht, hp⟩ := ih hs
    exact ⟨ht.passes hend, hp⟩
  | function _ _ hbrace _ ihp ih =>
    obtain ⟨ht, hp⟩ := ihp hs
    obtain ⟨hv, hss⟩ := ih (ht.passes hbrace)
    exact ⟨hv, hp, rfl, hss⟩
  | ret hret _ hend ih =>
    obtain ⟨hu, he⟩ := ih (hs.passes hret)
    exact ⟨hu.passes hend, he⟩
  | ifStatement _ hc ih =>
    obtain ⟨ht, he⟩ := ih hs
    refine ⟨ht, ?_, he⟩
    cases hc
    exact id
  | declaration htext _ _ hname hassign _ hend ih =>
    have hname' := isName_of_passes (hs.passes htext) hname
    obtain ⟨hw, he⟩ := ih (((hs.passes htext).passes hname).passes hassign)
    exact ⟨hw.passes hend, hname', he⟩
  | expressionStatement _ _ hend ih =>
    obtain ⟨ht, he⟩ := ih hs
    exact ⟨ht.passes hend, statementOf_shaped he⟩
  | bodyEnd hclose => exact ⟨hs.passes hclose, trivial⟩
  | bodyNext _ _ _ _ ihs ih =>
    obtain ⟨ht, hst⟩ := ihs hs
    obtain ⟨hu, hss⟩ := ih ht
    exact ⟨hu, hst, hss⟩
  | expression _ _ ihp ihc =>
    obtain ⟨ht, hfirst⟩ := ihp hs
    obtain ⟨hu, -, he⟩ := ihc ht
    exact ⟨hu, he hfirst⟩
  | int h => exact ⟨hs.passes h, literal_int_shaped hs h⟩
  | float h => exact ⟨hs.passes h, literal_float_shaped hs h⟩
  | bool h => exact ⟨hs.passes h, literal_bool_shaped _ _⟩
  | string h => exact ⟨hs.passes h, trivial⟩
  | call hname hopen _ hclose ih =>
    have hname' := isName_of_passes hs hname
    obtain ⟨hv, hes⟩ := ih ((hs.passes hname).passes hopen)
    exact ⟨hv.passes hclose, hname', hes⟩
  | assign hname hassign _ ih =>
    have hname' := isName_of_passes hs hname
    obtain ⟨hv, he⟩ := ih ((hs.passes hname).passes hassign)
    exact ⟨hv, hname', he⟩
  | reference hname _ _ => exact ⟨hs.passes hname, isName_of_passes hs hname⟩
  | parens hopen _ hclose ih =>
    obtain ⟨hu, he⟩ := ih (hs.passes hopen)
    exact ⟨hu.passes hclose, he⟩
  | cast htext _ _ hopen _ hclose ih =>
    obtain ⟨hv, he⟩ := ih ((hs.passes htext).passes hopen)
    exact ⟨hv.passes hclose, he⟩
  | ifPrimary _ _ ih => exact ih hs
  | importFile himport hpath => exact ⟨(hs.passes himport).passes hpath, trivial⟩
  | noArguments _ => exact ⟨hs, trivial⟩
  | someArguments _ _ ih => exact ih hs
  | lastArgument _ _ ih =>
    obtain ⟨ht, he⟩ := ih hs
    exact ⟨ht, he, trivial⟩
  | nextArgument _ hcomma _ ihe ih =>
    obtain ⟨ht, he⟩ := ihe hs
    obtain ⟨hv, hes⟩ := ih (ht.passes hcomma)
    exact ⟨hv, he, hes⟩
  | climbEnd hstops => exact ⟨hs, hstops, id⟩
  | climbStep hpower _ _ _ _ ihp ihr ih =>
    obtain ⟨ht, hfirst⟩ := ihp hs.next
    obtain ⟨hu, hrhs⟩ := ihr ht
    obtain ⟨hv, hstops, he⟩ := ih hu
    exact ⟨hv, hstops, fun hlhs => he ⟨⟨_, hpower⟩, hlhs, hrhs hfirst⟩⟩
  | rightPlain _ => exact ⟨hs, id⟩
  | rightTighter _ _ _ ih =>
    obtain ⟨ht, -, he⟩ := ih hs
    exact ⟨ht, he⟩
  | conditional hopen _ _ hclose hbrace _ ihc ihm ih =>
    obtain ⟨hu, hstops, hc⟩ := ihc (hs.next.passes hopen)
    obtain ⟨hv, hmore⟩ := ihm hu
    obtain ⟨hlength, hsep, hcs⟩ := hmore hstops
    obtain ⟨hy, hss⟩ := ih ((hv.passes hclose).passes hbrace)
    exact ⟨hy, by simp [hlength], hsep, ⟨hc, hcs⟩, hss⟩
  | lastCondition _ => exact ⟨hs, fun _ => ⟨rfl, by simp, trivial⟩⟩
  | nextCondition hsep _ _ ihc ih =>
    obtain ⟨ht, hstops, hc⟩ := ihc hs.next
    obtain ⟨hu, hmore⟩ := ih ht
    obtain ⟨hlength, hseps, hcs⟩ := hmore hstops
    obtain ⟨hlexeme, hword⟩ := separator_lexeme hs hsep
    refine ⟨hu, fun hstart => ⟨by simp [hlength], ?_, hc, hcs⟩⟩
    rw [hlexeme] at hstart
    simpa using ⟨⟨hword, hstart⟩, hseps⟩
  | condition _ hop htruth _ ihl ihr =>
    obtain ⟨ht, -, hlhs⟩ := ihl hs
    obtain ⟨hv, hstops, hrhs⟩ := ihr (ht.passes hop)
    exact ⟨hv, hstops, htruth, hlhs, hrhs⟩
  | operand _ _ ihp ihc =>
    obtain ⟨ht, hfirst⟩ := ihp hs
    obtain ⟨hu, hstops, he⟩ := ihc ht
    exact ⟨hu, hstops, he hfirst⟩
  | programEnd _ => exact ⟨hs, trivial⟩
  | programNext _ _ _ ihs ih =>
    obtain ⟨ht, hst⟩ := ihs hs
    obtain ⟨hu, hp⟩ := ih ht
    exact ⟨hu, hst, hp⟩

lemma parse_shaped {tokens : List Token} {p : Program} (ht : ∀ t ∈ tokens, t.Genuine)
    (hp : parse tokens table = .ok p) : p.Shaped table := by
  obtain ⟨t, h⟩ := parse_sound hp
  exact (h.shaped (by simpa [TokenStream.Genuine, TokenStream.ofTokens] using ht)).2

end Parser

variable {table} {source : String} {p : Program}

lemma parseText_ok : parseText source table = .ok p ↔
    ∃ tokens, lex source = .ok tokens ∧ parse tokens table = .ok p := by
  unfold parseText
  cases lex source with
  | error e => simp
  | ok tokens => cases hparse : parse tokens table <;> simp [Except.mapError, hparse]

lemma parseText_shaped (h : parseText source table = .ok p) : p.Shaped table := by
  obtain ⟨tokens, hlex, hparse⟩ := parseText_ok.mp h
  exact Parser.parse_shaped (lex_genuine hlex) hparse

end Keel
