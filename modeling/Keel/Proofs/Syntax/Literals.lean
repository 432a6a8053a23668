import Keel.Proofs.Syntax.Shape

namespace Keel

structure PlacedLiteral where
  position : Position
  value : Double
  type : ValueType
  context : ValueType
  deriving DecidableEq, Repr

mutual

def Expr.placedLiterals (result context : ValueType) : Expr → List PlacedLiteral
  | .number place value type => [⟨place, value, type, context⟩]
  | .reference _ _ | .string _ _ | .importFile _ _ => []
  | .binary _ _ lhs rhs => lhs.placedLiterals result context ++ rhs.placedLiterals result context
  | .call _ _ args => Expr.placedLiteralsOfAll result args
  | .cast _ _ value => value.placedLiterals result Parser.defaultType
  | .assign _ _ value => value.placedLiterals result context
  | .conditional _ conditions _ body =>
    Condition.placedLiteralsOfAll result context conditions ++ Stmt.placedLiteralsOfAll result body

def Expr.placedLiteralsOfAll (result : ValueType) : List Expr → List PlacedLiteral
  | [] => []
  | e :: es => e.placedLiterals result Parser.defaultType ++ Expr.placedLiteralsOfAll result es

def Condition.placedLiterals (result context : ValueType) : Condition → List PlacedLiteral
  | .compare lhs _ rhs => lhs.placedLiterals result context ++ rhs.placedLiterals result context

def Condition.placedLiteralsOfAll (result context : ValueType) : List Condition → List PlacedLiteral
  | [] => []
  | c :: cs => c.placedLiterals result context ++ Condition.placedLiteralsOfAll result context cs

def Stmt.placedLiterals (result : ValueType) : Stmt → List PlacedLiteral
  | .expression value => value.placedLiterals result Parser.defaultType
  | .call _ _ args => Expr.placedLiteralsOfAll result args
  | .declare _ type _ value => value.placedLiterals result type
  | .function signature _ body => Stmt.placedLiteralsOfAll signature.result body
  | .prototype _ => []
  | .ret _ value => value.placedLiterals result (Parser.returnContext result)

def Stmt.placedLiteralsOfAll (result : ValueType) : List Stmt → List PlacedLiteral
  | [] => []
  | s :: ss => s.placedLiterals result ++ Stmt.placedLiteralsOfAll result ss

end

def Program.placedLiterals (p : Program) : List PlacedLiteral := Stmt.placedLiteralsOfAll Parser.defaultType p

def PlacedLiteral.node (l : PlacedLiteral) : Expr := .number l.position l.value l.type

mutual

lemma Expr.node_mem_parts (result context : ValueType) : ∀ e : Expr, ∀ l ∈ e.placedLiterals result context,
    l.node ∈ e.parts
  | .number place value type, l, hl => by
    obtain rfl := List.mem_singleton.mp hl
    exact List.mem_singleton_self _
  | .reference _ _, _, hl | .string _ _, _, hl | .importFile _ _, _, hl => nomatch hl
  | .binary _ _ lhs rhs, l, hl => by
    obtain hl | hl := List.mem_append.mp hl
    · exact List.mem_cons_of_mem _ (List.mem_append_left _ (lhs.node_mem_parts result context l hl))
    · exact List.mem_cons_of_mem _ (List.mem_append_right _ (rhs.node_mem_parts result context l hl))
  | .call _ _ args, l, hl => List.mem_cons_of_mem _ (Expr.node_mem_partsOfAll result args l hl)
  | .cast _ _ value, l, hl => List.mem_cons_of_mem _ (value.node_mem_parts result Parser.defaultType l hl)
  | .assign _ _ value, l, hl => List.mem_cons_of_mem _ (value.node_mem_parts result context l hl)
  | .conditional _ conditions _ body, l, hl => by
    obtain hl | hl := List.mem_append.mp hl
    · exact List.mem_cons_of_mem _ (List.mem_append_left _
        (Condition.node_mem_partsOfAll result context conditions l hl))
    · exact List.mem_cons_of_mem _ (List.mem_append_right _ (Stmt.node_mem_partsOfAll result body l hl))

lemma Expr.node_mem_partsOfAll (result : ValueType) : ∀ es : List Expr, ∀ l ∈ Expr.placedLiteralsOfAll result es,
    l.node ∈ Expr.partsOfAll es
  | [], _, hl => nomatch hl
  | e :: es, l, hl => by
    obtain hl | hl := List.mem_append.mp hl
    · exact List.mem_append_left _ (e.node_mem_parts result Parser.defaultType l hl)
    · exact List.mem_append_right _ (Expr.node_mem_partsOfAll result es l hl)

lemma Condition.node_mem_parts (result context : ValueType) : ∀ c : Condition, ∀ l ∈ c.placedLiterals result context,
    l.node ∈ c.parts
  | .compare lhs _ rhs, l, hl => by
    obtain hl | hl := List.mem_append.mp hl
    · exact List.mem_append_left _ (lhs.node_mem_parts result context l hl)
    · exact List.mem_append_right _ (rhs.node_mem_parts result context l hl)

lemma Condition.node_mem_partsOfAll (result context : ValueType) : ∀ cs : List Condition,
    ∀ l ∈ Condition.placedLiteralsOfAll result context cs, l.node ∈ Condition.partsOfAll cs
  | [], _, hl => nomatch hl
  | c :: cs, l, hl => by
    obtain hl | hl := List.mem_append.mp hl
    · exact List.mem_append_left _ (c.node_mem_parts result context l hl)
    · exact List.mem_append_right _ (Condition.node_mem_partsOfAll result context cs l hl)

lemma Stmt.node_mem_parts (result : ValueType) : ∀ st : Stmt, ∀ l ∈ st.placedLiterals result, l.node ∈ st.parts
  | .expression value, l, hl => value.node_mem_parts result Parser.defaultType l hl
  | .call _ _ args, l, hl => Expr.node_mem_partsOfAll result args l hl
  | .declare _ type _ value, l, hl => value.node_mem_parts result type l hl
  | .function signature _ body, l, hl => Stmt.node_mem_partsOfAll signature.result body l hl
  | .prototype _, _, hl => nomatch hl
  | .ret _ value, l, hl => value.node_mem_parts result (Parser.returnContext result) l hl

lemma Stmt.node_mem_partsOfAll (result : ValueType) : ∀ ss : List Stmt, ∀ l ∈ Stmt.placedLiteralsOfAll result ss,
    l.node ∈ Stmt.partsOfAll ss
  | [], _, hl => nomatch hl
  | s :: ss, l, hl => by
    obtain hl | hl := List.mem_append.mp hl
    · exact List.mem_append_left _ (s.node_mem_parts result l hl)
    · exact List.mem_append_right _ (Stmt.node_mem_partsOfAll result ss l hl)

end

/-- The literal was read from the token: a whole number takes the type of its context, every other literal its own. -/
def Token.Denotes (t : Token) (l : PlacedLiteral) : Prop :=
  t.position = l.position ∧
    match t.kind with
    | .int value => l.value = value ∧ l.type = l.context
    | .float value => l.value = value ∧ l.type = .double
    | .bool value => l.value = .ofInt value.toInt ∧ l.type = .bool
    | _ => False

def Denoted (tokens : List Token) (ls : List PlacedLiteral) : Prop := ∀ l ∈ ls, ∃ t ∈ tokens, t.Denotes l

section Denoted

variable {tokens : List Token} {ls ls' : List PlacedLiteral}

lemma denoted_nil : Denoted tokens [] := fun _ hl => nomatch hl

lemma denoted_singleton {t : Token} {l : PlacedLiteral} (ht : t ∈ tokens) (h : t.Denotes l) : Denoted tokens [l] :=
  List.forall_mem_singleton.mpr ⟨t, ht, h⟩

lemma denoted_append : Denoted tokens (ls ++ ls') ↔ Denoted tokens ls ∧ Denoted tokens ls' := List.forall_mem_append

end Denoted

namespace TokenStream

variable {s t : TokenStream} {kind : TokenKind} {tokens : List Token}

def Among (tokens : List Token) (s : TokenStream) : Prop := s.passed ++ s.rest ⊆ tokens

lemma Among.next (h : s.Among tokens) : s.next.Among tokens := List.Subset.trans s.next_subset h

lemma Among.passes (h : s.Among tokens) (hp : s.Passes kind t) : t.Among tokens := hp.2 ▸ h.next

lemma Among.head (h : s.Among tokens) (hp : s.Passes kind t) (hkind : kind ≠ .endOfInput) : s.head ∈ tokens := by
  obtain ⟨hk, -⟩ := hp
  unfold TokenStream.head look at hk ⊢
  simp only at hk ⊢
  split at hk
  · rename_i t ht
    exact h (List.mem_append_right _ (List.mem_of_getElem? ht))
  · refine absurd hk.symm ?_
    unfold endToken
    split <;> exact hkind

end TokenStream

namespace Parser

variable {table : Precedences} {s t : TokenStream} {tokens : List Token}

def Phrase.Denoted (tokens : List Token) : Phrase → Prop
  | parameters _ _ | parameterList _ _ | prototype _ => True
  | statement result st => Keel.Denoted tokens (st.placedLiterals result)
  | body result ss => Keel.Denoted tokens (Stmt.placedLiteralsOfAll result ss)
  | expression result context e | primary result context e | conditional result context e
  | operand result context e => Keel.Denoted tokens (e.placedLiterals result context)
  | arguments result es | argumentList result es => Keel.Denoted tokens (Expr.placedLiteralsOfAll result es)
  | climb result context _ lhs e | right result context _ lhs e =>
    Keel.Denoted tokens (lhs.placedLiterals result context) → Keel.Denoted tokens (e.placedLiterals result context)
  | moreConditions result context _ cs => Keel.Denoted tokens (Condition.placedLiteralsOfAll result context cs)
  | condition result context c => Keel.Denoted tokens (c.placedLiterals result context)
  | program p => Keel.Denoted tokens p.placedLiterals

lemma placedLiterals_statementOf (result : ValueType) (e : Expr) :
    (statementOf e).placedLiterals result = e.placedLiterals result defaultType := by
  cases e with
  | call place callee args => rfl
  | _ => rfl

lemma Derives.denoted {φ : Phrase} (h : Derives table φ s t) (hs : s.Among tokens) :
    t.Among tokens ∧ φ.Denoted tokens := by
  induction h with
  | lastParameter htext _ hname _ => exact ⟨(hs.passes htext).passes hname, trivial⟩
  | nextParameter htext _ hname hcomma _ ih => exact ih (((hs.passes htext).passes hname).passes hcomma)
  | noParameters _ => exact ⟨hs, trivial⟩
  | someParameters _ _ ih => exact ih hs
  | prototype hname hopen _ hclose harrow htext _ ih =>
    obtain ⟨hv, -⟩ := ih ((hs.next.passes hname).passes hopen)
    exact ⟨((hv.passes hclose).passes harrow).passes htext, trivial⟩
  | hostFunction _ _ hend ih => exact ⟨(ih hs).1.passes hend, denoted_nil⟩
  | function _ _ hbrace _ ihp ih => exact ih ((ihp hs).1.passes hbrace)
  | ret hret _ hend ih =>
    obtain ⟨hu, he⟩ := ih (hs.passes hret)
    exact ⟨hu.passes hend, he⟩
  | ifStatement _ _ ih => exact ih hs
  | declaration htext _ _ hname hassign _ hend ih =>
    obtain ⟨hw, he⟩ := ih (((hs.passes htext).passes hname).passes hassign)
    exact ⟨hw.passes hend, he⟩
  | expressionStatement _ _ hend ih =>
    obtain ⟨ht, he⟩ := ih hs
    refine ⟨ht.passes hend, ?_⟩
    rw [Phrase.Denoted, placedLiterals_statementOf]
    exact he
  | bodyEnd hclose => exact ⟨hs.passes hclose, denoted_nil⟩
  | bodyNext _ _ _ _ ihs ih =>
    obtain ⟨ht, hst⟩ := ihs hs
    obtain ⟨hu, hss⟩ := ih ht
    exact ⟨hu, denoted_append.mpr ⟨hst, hss⟩⟩
  | expression _ _ ihp ihc =>
    obtain ⟨ht, hfirst⟩ := ihp hs
    obtain ⟨hu, he⟩ := ihc ht
    exact ⟨hu, he hfirst⟩
  | int h => exact ⟨hs.passes h, denoted_singleton (hs.head h (by simp)) ⟨rfl, by rw [h.1]; exact ⟨rfl, rfl⟩⟩⟩
  | float h => exact ⟨hs.passes h, denoted_singleton (hs.head h (by simp)) ⟨rfl, by rw [h.1]; exact ⟨rfl, rfl⟩⟩⟩
  | bool h => exact ⟨hs.passes h, denoted_singleton (hs.head h (by simp)) ⟨rfl, by rw [h.1]; exact ⟨rfl, rfl⟩⟩⟩
  | string h => exact ⟨hs.passes h, denoted_nil⟩
  | call hname hopen _ hclose ih =>
    obtain ⟨hv, hes⟩ := ih ((hs.passes hname).passes hopen)
    exact ⟨hv.passes hclose, hes⟩
  | assign hname hassign _ ih => exact ih ((hs.passes hname).passes hassign)
  | reference hname _ _ => exact ⟨hs.passes hname, denoted_nil⟩
  | parens hopen _ hclose ih =>
    obtain ⟨hu, he⟩ := ih (hs.passes hopen)
    exact ⟨hu.passes hclose, he⟩
  | cast htext _ _ hopen _ hclose ih =>
    obtain ⟨hv, he⟩ := ih ((hs.passes htext).passes hopen)
    exact ⟨hv.passes hclose, he⟩
  | ifPrimary _ _ ih => exact ih hs
  | importFile himport hpath => exact ⟨(hs.passes himport).passes hpath, denoted_nil⟩
  | noArguments _ => exact ⟨hs, denoted_nil⟩
  | someArguments _ _ ih => exact ih hs
  | lastArgument _ _ ih =>
    obtain ⟨ht, he⟩ := ih hs
    exact ⟨ht, denoted_append.mpr ⟨he, denoted_nil⟩⟩
  | nextArgument _ hcomma _ ihe ih =>
    obtain ⟨ht, he⟩ := ihe hs
    obtain ⟨hv, hes⟩ := ih (ht.passes hcomma)
    exact ⟨hv, denoted_append.mpr ⟨he, hes⟩⟩
  | climbEnd _ => exact ⟨hs, id⟩
  | climbStep _ _ _ _ _ ihp ihr ih =>
    obtain ⟨ht, hfirst⟩ := ihp hs.next
    obtain ⟨hu, hrhs⟩ := ihr ht
    obtain ⟨hv, he⟩ := ih hu
    exact ⟨hv, fun hlhs => he (denoted_append.mpr ⟨hlhs, hrhs hfirst⟩)⟩
  | rightPlain _ => exact ⟨hs, id⟩
  | rightTighter _ _ _ ih => exact ih hs
  | conditional hopen _ _ hclose hbrace _ ihc ihm ih =>
    obtain ⟨hu, hc⟩ := ihc (hs.next.passes hopen)
    obtain ⟨hv, hcs⟩ := ihm hu
    obtain ⟨hy, hss⟩ := ih ((hv.passes hclose).passes hbrace)
    exact ⟨hy, denoted_append.mpr ⟨denoted_append.mpr ⟨hc, hcs⟩, hss⟩⟩
  | lastCondition _ => exact ⟨hs, denoted_nil⟩
  | nextCondition _ _ _ ihc ih =>
    obtain ⟨ht, hc⟩ := ihc hs.next
    obtain ⟨hu, hcs⟩ := ih ht
    exact ⟨hu, denoted_append.mpr ⟨hc, hcs⟩⟩
  | condition _ hop _ _ ihl ihr =>
    obtain ⟨ht, hlhs⟩ := ihl hs
    obtain ⟨hv, hrhs⟩ := ihr (ht.passes hop)
    exact ⟨hv, denoted_append.mpr ⟨hlhs, hrhs⟩⟩
  | operand _ _ ihp ihc =>
    obtain ⟨ht, hfirst⟩ := ihp hs
    obtain ⟨hu, he⟩ := ihc ht
    exact ⟨hu, he hfirst⟩
  | programEnd _ => exact ⟨hs, denoted_nil⟩
  | programNext _ _ _ ihs ih =>
    obtain ⟨ht, hst⟩ := ihs hs
    obtain ⟨hu, hp⟩ := ih ht
    exact ⟨hu, denoted_append.mpr ⟨hst, hp⟩⟩

end Parser

lemma parseText_denoted {table : Precedences} {source : String} {p : Program} (h : parseText source table = .ok p) :
    ∃ tokens, lex source = .ok tokens ∧ Denoted tokens p.placedLiterals := by
  obtain ⟨tokens, hlex, hparse⟩ := parseText_ok.mp h
  obtain ⟨t, ht⟩ := Parser.parse_sound hparse
  exact ⟨tokens, hlex, (ht.denoted (List.Subset.refl _)).2⟩

end Keel
