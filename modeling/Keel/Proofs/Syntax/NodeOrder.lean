import Keel.Proofs.Syntax.Stretches
import Keel.Proofs.Token.Lossless

/-! Nodes stand at the first token of their stretch, before their children, and one behind another. -/

namespace Keel

inductive Node where
  | expression (e : Expr)
  | statement (st : Stmt)
  | prototype (p : Prototype)

def Condition.operands : Condition → List Expr
  | .compare lhs _ rhs => [lhs, rhs]

def Expr.children : Expr → List Node
  | .number _ _ _ | .reference _ _ | .string _ _ | .importFile _ _ => []
  | .binary _ _ lhs rhs => [.expression lhs, .expression rhs]
  | .call _ _ args => args.map .expression
  | .cast _ _ value | .assign _ _ value => [.expression value]
  | .conditional _ conditions _ body => (conditions.flatMap Condition.operands).map .expression ++ body.map .statement

def Stmt.children : Stmt → List Node
  | .expression value | .declare _ _ _ value | .ret _ value => [.expression value]
  | .call _ _ args => args.map .expression
  | .function signature _ body => .prototype signature :: body.map .statement
  | .prototype signature => [.prototype signature]

namespace Node

def position : Node → Position
  | expression e => e.position
  | statement st => st.position
  | prototype p => p.position

def part : Node → Part
  | expression e => .expression e
  | statement st => .statement st
  | prototype p => .prototype p

def children : Node → List Node
  | expression e => e.children
  | statement st => st.children
  | prototype _ => []

def Before (m n : Node) : Prop := m.position.offset < n.position.offset

inductive Within : Node → List Node → Prop
  | here {n ns} : n ∈ ns → Within n ns
  | under {m n ns} : m ∈ ns → Within n m.children → Within n ns

end Node

def Part.nodes : Part → List Node
  | expression e => [.expression e]
  | argumentList es | arguments es => es.map .expression
  | condition c => c.operands.map .expression
  | moreConditions _ cs => (cs.flatMap Condition.operands).map .expression
  | prototype p => [.prototype p]
  | parameterList _ _ | parameters _ _ => []
  | statement st => [.statement st]
  | statements ss => ss.map .statement

def beginning? (ts : List Token) : Option Position :=
  (ts.find? fun t => !t.is (.punctuation "(")).map Token.position

section Beginning

variable {ts us : List Token} {t : Token} {place : Position}

lemma beginning?_cons (h : t.kind ≠ .punctuation "(") : beginning? (t :: ts) = some t.position := by
  simp [beginning?, Token.is, h]

lemma beginning?_parens (h : t.kind = .punctuation "(") : beginning? (t :: ts) = beginning? ts := by
  simp [beginning?, Token.is, h]

lemma beginning?_append (h : beginning? ts = some place) : beginning? (ts ++ us) = some place := by
  rw [beginning?, List.find?_append, Option.map_or]
  rw [beginning?] at h
  rw [h, Option.some_or]

end Beginning

lemma position_statementOf (e : Expr) : (Parser.statementOf e).position = e.position := by
  cases e <;> rfl

def Part.Begins (ts : List Token) : Part → Prop
  | expression e => beginning? ts = some e.position
  | statement st => beginning? ts = some st.position
  | prototype p => beginning? ts = some p.position
  | _ => True

lemma WrittenAs.begins {part : Part} {ts : List Token} (h : WrittenAs part ts) : part.Begins ts := by
  induction h with
  | int ht | float ht | bool ht | string ht | reference ht => exact beginning?_cons (by simp [ht])
  | importFile ht _ | call ht _ _ _ _ | cast ht _ _ _ _ | assign ht _ _ _ | conditional ht _ _ _ _ _ _ _ _ _ _
  | prototype ht _ _ _ _ _ _ _ | ret ht _ _ _ | declaration ht _ _ _ _ _ => exact beginning?_cons (by simp [ht])
  | parens hopen _ _ ih => exact (beginning?_parens hopen).trans (beginning?_append ih)
  | binary _ _ _ _ ih _ | hostFunction _ _ ih | function _ _ _ _ ih _ => exact beginning?_append ih
  | ifStatement _ _ ih => exact ih
  | @expressionStatement t e ts _ _ ih =>
    have hplace : beginning? (ts ++ [t]) = some e.position := beginning?_append ih
    rwa [← position_statementOf] at hplace
  | _ => trivial

lemma WrittenAs.beginning {n : Node} {ts : List Token} (h : WrittenAs n.part ts) : beginning? ts = some n.position := by
  cases n <;> exact h.begins

inductive Spread : List Node → List Token → Prop
  | none (ts : List Token) : Spread [] ts
  | node {n : Node} {ts : List Token} : WrittenAs n.part ts → Spread n.children ts → Spread [n] ts
  | append {ms ns : List Node} {ts us : List Token} : Spread ms ts → Spread ns us → Spread (ms ++ ns) (ts ++ us)

namespace Spread

variable {m n : Node} {ms ns : List Node} {ts us : List Token}

lemma behind (h : Spread ns ts) (before : List Token) : Spread ns (before ++ ts) := (Spread.none before).append h

lemma ahead (h : Spread ns ts) (after : List Token) : Spread ns (ts ++ after) := by
  have hspread := h.append (.none after)
  rwa [List.append_nil] at hspread

lemma expressions {es fs : List Expr} (h : Spread (es.map .expression) ts) (h' : Spread (fs.map .expression) us) :
    Spread ((es ++ fs).map .expression) (ts ++ us) := by
  rw [List.map_append]
  exact h.append h'

lemma exists_stretch (h : Spread ns ts) (hn : n ∈ ns) :
    ∃ us, us <:+: ts ∧ WrittenAs n.part us ∧ Spread n.children us := by
  induction h with
  | none ts => cases hn
  | @node m ts hwritten hchildren _ =>
    obtain rfl := List.mem_singleton.mp hn
    exact ⟨ts, List.infix_rfl, hwritten, hchildren⟩
  | append _ _ ihm ihn =>
    rcases List.mem_append.mp hn with hn | hn
    · obtain ⟨us, hus, hn⟩ := ihm hn
      exact ⟨us, hus.trans (List.prefix_append _ _).isInfix, hn⟩
    · obtain ⟨us, hus, hn⟩ := ihn hn
      exact ⟨us, hus.trans (List.suffix_append _ _).isInfix, hn⟩

lemma statementOf {e : Expr} (h : Spread [.expression e] ts) : Spread (Parser.statementOf e).children ts := by
  cases e with
  | call place callee args =>
    obtain ⟨us, ⟨before, after, rfl⟩, -, hargs⟩ := h.exists_stretch (List.mem_singleton_self _)
    exact (hargs.behind before).ahead after
  | _ => exact h

end Spread

lemma WrittenAs.spread {part : Part} {ts : List Token} (h : WrittenAs part ts) : Spread part.nodes ts := by
  induction h with
  | int ht => exact .node (.int ht) (.none _)
  | float ht => exact .node (.float ht) (.none _)
  | bool ht => exact .node (.bool ht) (.none _)
  | string ht => exact .node (.string ht) (.none _)
  | reference ht => exact .node (.reference ht) (.none _)
  | importFile ht hu => exact .node (.importFile ht hu) (.none _)
  | @parens l r e ts _ _ _ ih => exact (ih.ahead [r]).behind [l]
  | @binary t op lhs rhs ls rs hlhs ht hop hrhs ihl ihr =>
    exact .node (.binary hlhs ht hop hrhs) (ihl.append (ihr.behind [t]))
  | @call t l r name es ts ht hl hes hr ih => exact .node (.call ht hl hes hr) ((ih.ahead [r]).behind [t, l])
  | @cast t l r type e ts ht hl he hr ih => exact .node (.cast ht hl he hr) ((ih.ahead [r]).behind [t, l])
  | @assign t u name e ts ht hu he ih => exact .node (.assign ht hu he) (ih.behind [t, u])
  | @conditional t l r b d c separators cs ss ts us vs ht hl hc hcs hr hb hss hd ihc ihm ih =>
    exact .node (.conditional ht hl hc hcs hr hb hss hd)
      (((ihc.expressions ihm).append ((ih.ahead [d]).behind [r, b])).behind [t, l])
  | noArguments | lastCondition | noParameters | lastParameter _ _ | noStatements => exact .none _
  | someArguments _ ih | lastArgument _ ih | someParameters _ ih => exact ih
  | @nextArgument t e es ts us _ _ _ ihe ih => exact ihe.append (ih.behind [t])
  | @condition t op lhs rhs ls rs _ _ _ _ ihl ihr => exact ihl.append (ihr.behind [t])
  | @nextCondition t separator separators c cs ts us _ _ _ _ ihc ih => exact (ihc.expressions ih).behind [t]
  | prototype ht hn hl hps hr ha hy _ => exact .node (.prototype ht hn hl hps hr ha hy) (.none _)
  | nextParameter _ _ _ _ _ => exact .none _
  | hostFunction hp ht ih => exact .node (.hostFunction hp ht) (ih.ahead _)
  | @function b d p ss ts us hp hb hss hd ihp ih =>
    exact .node (.function hp hb hss hd) (ihp.append ((ih.ahead [d]).behind [b]))
  | @ret t u e ts ht he hu ih => exact .node (.ret ht he hu) ((ih.ahead [u]).behind [t])
  | ifStatement ht he ih => exact .node (.ifStatement ht he) ih
  | @declaration y n t u type name e ts hy hn ht he hu ih =>
    exact .node (.declaration hy hn ht he hu) ((ih.ahead [u]).behind [y, n, t])
  | expressionStatement he ht ih => exact .node (.expressionStatement he ht) (ih.statementOf.ahead _)
  | moreStatements _ _ ihs ih => exact ihs.append ih

def Ascending (ts : List Token) : Prop := ts.Pairwise fun t u => t.position.offset < u.position.offset

section Ascending

variable {ts us : List Token} {place : Position} {n : Node} {ns : List Node}

lemma Ascending.beginning_le (h : Ascending ts) (hplace : beginning? ts = some place) {t : Token} (ht : t ∈ ts)
    (hkind : t.kind ≠ .punctuation "(") : place.offset ≤ t.position.offset := by
  obtain ⟨u, hu, rfl⟩ := Option.map_eq_some_iff.mp hplace
  obtain ⟨-, before, after, rfl, hbefore⟩ := List.find?_eq_some_iff_append.mp hu
  obtain ht | ht := List.mem_append.mp ht
  · exact absurd (hbefore t ht) (by simp [Token.is, hkind])
  obtain rfl | ht := List.mem_cons.mp ht
  · exact le_rfl
  · exact le_of_lt (List.rel_of_pairwise_cons (List.pairwise_append.mp h).2.1 ht)

lemma Spread.exists_token (h : Spread ns ts) (hn : n ∈ ns) :
    ∃ t ∈ ts, t.kind ≠ .punctuation "(" ∧ t.position = n.position := by
  obtain ⟨us, hus, hwritten, -⟩ := h.exists_stretch hn
  obtain ⟨t, ht, hplace⟩ := Option.map_eq_some_iff.mp hwritten.beginning
  refine ⟨t, hus.subset (List.mem_of_find?_eq_some ht), ?_, hplace⟩
  simpa [Token.is] using List.find?_some ht

lemma Spread.ordered (h : Spread ns ts) (hts : Ascending ts) : ns.Pairwise Node.Before := by
  induction h with
  | none ts => exact .nil
  | node _ _ _ => exact List.pairwise_singleton _ _
  | append hms hns ihm ihn =>
    obtain ⟨hts, hus, hbetween⟩ := List.pairwise_append.mp hts
    refine List.pairwise_append.mpr ⟨ihm hts, ihn hus, fun m hm n hn => ?_⟩
    obtain ⟨t, ht, -, hm⟩ := hms.exists_token hm
    obtain ⟨u, hu, -, hn⟩ := hns.exists_token hn
    rw [Node.Before, ← hm, ← hn]
    exact hbetween t ht u hu

end Ascending

namespace Node

variable {n : Node} {ns : List Node} {ts tokens : List Token}

/-- How a node stands among the tokens of its text. -/
structure Placed (tokens : List Token) (n : Node) : Prop where
  begun : ∃ stretch, stretch <:+: tokens ∧ WrittenAs n.part stretch ∧ Spread n.children stretch ∧
    beginning? stretch = some n.position
  token : ∃ t ∈ tokens, t.position = n.position
  above : ∀ m ∈ n.children, n.position.offset ≤ m.position.offset
  ordered : n.children.Pairwise Before

lemma placed_of_written (hts : ts <:+: tokens) (hwritten : WrittenAs n.part ts) (hchildren : Spread n.children ts)
    (htokens : Ascending tokens) : n.Placed tokens := by
  have hascending : Ascending ts := htokens.sublist hts.sublist
  have hbeginning := hwritten.beginning
  constructor
  · exact ⟨ts, hts, hwritten, hchildren, hbeginning⟩
  · obtain ⟨t, ht, hplace⟩ := Option.map_eq_some_iff.mp hbeginning
    exact ⟨t, hts.subset (List.mem_of_find?_eq_some ht), hplace⟩
  · intro m hm
    obtain ⟨t, ht, hkind, hplace⟩ := hchildren.exists_token hm
    rw [← hplace]
    exact hascending.beginning_le hbeginning ht hkind
  · exact hchildren.ordered hascending

lemma Within.placed (h : n.Within ns) (hns : Spread ns ts) (hts : ts <:+: tokens) (htokens : Ascending tokens) :
    n.Placed tokens := by
  induction h generalizing ts with
  | here hn =>
    obtain ⟨us, hus, hwritten, hchildren⟩ := hns.exists_stretch hn
    exact placed_of_written (hus.trans hts) hwritten hchildren htokens
  | under hm _ ih =>
    obtain ⟨us, hus, -, hchildren⟩ := hns.exists_stretch hm
    exact ih hchildren (hus.trans hts)

end Node

lemma Token.offset_lt_finish {t : Token} (h : t.lexeme.toList ≠ []) : t.position.offset < t.finish := by
  obtain ⟨c, cs, hlexeme⟩ := List.exists_cons_of_ne_nil h
  have hunits : t.units = Text.unitsOf c ++ Text.units cs := by rw [units, hlexeme, Text.units, List.flatMap_cons]; rfl
  have hwidth : 0 < (Text.unitsOf c).length := by
    rw [Text.length_unitsOf, Text.width]
    split_ifs <;> decide
  rw [finish, hunits, List.length_append]
  omega

lemma lex_ascending {source : String} {tokens : List Token} {last : Position}
    (h : lex source = .ok (tokens ++ [.endOfInput last])) : Ascending tokens := by
  have htiled := (Lexer.scanned [] source.toList).tiled _ h
  obtain ⟨before, hbefore, hspelt⟩ := htiled.closed
  obtain ⟨rfl, -⟩ := List.append_inj' hbefore rfl
  have hordered := (List.pairwise_append.mp htiled.ordered).1
  exact hordered.imp_of_mem fun ht _ hle => lt_of_lt_of_le (Token.offset_lt_finish (hspelt _ ht).ne_nil) hle

def Program.nodes (p : Program) : List Node := p.map .statement

/-- Every node of a program stands at the first token, parentheses aside, of the stretch that it is read from: not
behind its children, and nodes side by side one behind another. -/
theorem parseText_placed {source : String} {p : Program} (h : parseText source .standard = .ok p) :
    ∃ tokens last, lex source = .ok (tokens ++ [.endOfInput last]) ∧ WrittenAs (.statements p) tokens ∧
      p.nodes.Pairwise Node.Before ∧ ∀ n : Node, n.Within p.nodes → n.Placed tokens := by
  obtain ⟨tokens, last, hlex, hwritten⟩ := parseText_written h
  have hspread : Spread p.nodes tokens := hwritten.spread
  have hascending := lex_ascending hlex
  exact ⟨tokens, last, hlex, hwritten, hspread.ordered hascending,
    fun n hn => hn.placed hspread List.infix_rfl hascending⟩

def parenthesizedSource : String := "((a) + b) * 2;\nfn g(i8 n) -> void { (f((n), 1)); }"

theorem parseText_placed_parenthesized : ∃ p tokens last, parseText parenthesizedSource .standard = .ok p ∧
    lex parenthesizedSource = .ok (tokens ++ [.endOfInput last]) ∧ WrittenAs (.statements p) tokens ∧
    p.nodes.Pairwise Node.Before ∧ (∀ n : Node, n.Within p.nodes → n.Placed tokens) ∧
    p.nodes.map (fun n => n.position.offset) = [2, 15] ∧
    (p.nodes.flatMap Node.children).map (fun n => n.position.offset) = [2, 15, 37] ∧
    ((p.nodes.flatMap Node.children).flatMap Node.children).map (fun n => n.position.offset) = [2, 12, 40, 44] := by
  have hcheck : (parseText parenthesizedSource .standard).toOption.map (fun p =>
      (p.nodes.map (fun n => n.position.offset), (p.nodes.flatMap Node.children).map (fun n => n.position.offset),
        ((p.nodes.flatMap Node.children).flatMap Node.children).map (fun n => n.position.offset))) =
      some ([2, 15], [2, 15, 37], [2, 12, 40, 44]) := by decide +kernel
  cases hp : parseText parenthesizedSource .standard with
  | error e =>
    rw [hp] at hcheck
    cases hcheck
  | ok p =>
    rw [hp] at hcheck
    obtain ⟨tokens, last, hlex, hwritten, hnodes, hplaced⟩ := parseText_placed hp
    have hoffsets := Prod.mk.inj (Option.some.inj hcheck)
    have hbelow := Prod.mk.inj hoffsets.2
    exact ⟨p, tokens, last, rfl, hlex, hwritten, hnodes, hplaced, hoffsets.1, hbelow.1, hbelow.2⟩

end Keel
