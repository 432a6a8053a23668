import Keel.Proofs.Syntax.Regrouping
import Keel.Unit.Linked

/-! A printed program is read back as the program, up to places. -/

namespace Keel

namespace Parser

open TokenStream

variable {table : Precedences} {s t u : TokenStream} {ks : List Spelled} {result context : ValueType}

lemma wordKind_keyword (t : ValueType) : Lexer.wordKind t.keyword = .typeKeyword t.keyword := by
  cases t <;> rfl

lemma ofKeyword?_keyword (t : ValueType) : ValueType.ofKeyword? t.keyword = some t := by
  cases t <;> rfl

lemma passes_keyword {type : ValueType} (h : s.Spells (Spelled.word type.keyword :: ks)) :
    s.Passes (.typeKeyword type.keyword) s.next :=
  wordKind_keyword type ▸ h.cons.1

lemma derives_literal {value : Double} {type : ValueType} (hs : Literal.Shaped value type context)
    (hf : value.isFinite) (h : s.Spells (Spelled.literal value type context :: ks)) :
    Derives table (.primary result context (.number s.head.position value type)) s s.next := by
  obtain ⟨hpass, -, -⟩ := h.cons
  obtain ⟨hlit, htype⟩ := hs hf
  simp only [Spelled.literal, Spelled.literalKind] at hpass
  split_ifs at hpass with hfalse htrue hint
  · rw [hfalse.1, hlit.eq_ofInt le_rfl (by simp [Floating.ExactInt]) hfalse.2]
    exact .bool hpass
  · rw [htrue.1, hlit.eq_ofInt zero_le_one (by simp [Floating.ExactInt]) htrue.2]
    exact .bool hpass
  · rw [hint.1]
    exact .int hpass
  · rcases htype with h | rfl | ⟨rfl, b, rfl⟩
    · exact absurd h hint
    · exact .float hpass
    · cases b
      · exact absurd ⟨rfl, by decide⟩ hfalse
      · exact absurd ⟨rfl, by decide⟩ htrue

lemma derives_parameters {type : ValueType} {types : List ValueType} {name : String} {names : List String}
    (hlength : names.length = types.length) (hn : ∀ n ∈ name :: names, Lexer.IsName n)
    (hs : s.Spells (Spelled.commas ((List.zipWith Parameter.mk (type :: types) (name :: names)).map
      Spelled.parameter) ++ Spelled.punctuation ")" :: ks)) :
    ∃ t, Derives table (.parameters (type :: types) (name :: names)) s t ∧
      t.Spells (Spelled.punctuation ")" :: ks) := by
  induction names generalizing type types name s with
  | nil =>
    obtain rfl := List.length_eq_zero_iff.mp hlength.symm
    simp only [Spelled.commas, List.zipWith_cons_cons, List.zipWith_nil_left, List.map_cons, List.map_nil,
      List.intercalate_singleton, Spelled.parameter, List.cons_append, List.nil_append] at hs
    have htype := passes_keyword hs
    have hname := passes_name (hn name (by simp)) hs.cons.2.2
    have hrest := hs.cons.2.2.cons.2.2
    refine ⟨_, .lastParameter htype (ofKeyword?_keyword _) hname ?_, hrest⟩
    rw [hrest.cons.1.1]
    simp [Spelled.punctuation]
  | cons name' names ih =>
    obtain ⟨type', types, rfl⟩ := List.exists_cons_of_length_eq_add_one hlength.symm
    simp only [Spelled.commas, List.zipWith_cons_cons, List.map_cons, List.intercalate_cons_cons, Spelled.parameter,
      List.cons_append, List.nil_append] at hs
    have htype := passes_keyword hs
    have hname := passes_name (hn name (by simp)) hs.cons.2.2
    have hcomma := hs.cons.2.2.cons.2.2.cons
    obtain ⟨t, ht, hrest⟩ := ih (by simpa using hlength) (fun n hmem => hn n (by simp [List.mem_cons.mp hmem]))
      hcomma.2.2
    exact ⟨t, .nextParameter htype (ofKeyword?_keyword _) hname hcomma.1 ht, hrest⟩

variable (table) in
lemma derives_parameterList {types : List ValueType} {names : List String} (hlength : names.length = types.length)
    (hn : ∀ n ∈ names, Lexer.IsName n)
    (hs : s.Spells (Spelled.commas ((List.zipWith Parameter.mk types names).map Spelled.parameter) ++
      Spelled.punctuation ")" :: ks)) :
    ∃ t, Derives table (.parameterList types names) s t ∧ t.Spells (Spelled.punctuation ")" :: ks) := by
  cases names with
  | nil =>
    obtain rfl := List.length_eq_zero_iff.mp hlength.symm
    exact ⟨s, .noParameters hs.cons.1.1, hs⟩
  | cons name names =>
    obtain ⟨type, types, rfl⟩ := List.exists_cons_of_length_eq_add_one hlength.symm
    obtain ⟨t, ht, hrest⟩ := derives_parameters (by simpa using hlength) hn hs
    refine ⟨t, .someParameters ?_ ht, hrest⟩
    cases ht with
    | lastParameter htext => simp [htext.1]
    | nextParameter htext => simp [htext.1]

variable (table) in
lemma derives_prototype {p : Prototype} (hp : p.Shaped) (hs : s.Spells (Spelled.prototype p ++ ks)) :
    s.head.kind = .keyword "fn" ∧
      ∃ q t, Derives table (.prototype q) s t ∧ t.Spells ks ∧ p.alike q = true ∧ q.result = p.result ∧
        q.parameterTypes = p.parameterTypes := by
  simp only [Spelled.prototype, List.cons_append, List.append_assoc, List.nil_append] at hs
  have hname := passes_name hp.1 hs.cons.2.2
  have hopen := hs.cons.2.2.cons.2.2.cons
  obtain ⟨t, hps, ht⟩ := derives_parameterList table hp.2.1 hp.2.2 hopen.2.2
  have hclose := ht.cons
  have harrow := hclose.2.2.cons
  have hresult := passes_keyword harrow.2.2
  exact ⟨hs.cons.1.1, _, _, .prototype hname hopen.1 hps hclose.1 harrow.1 hresult (ofKeyword?_keyword _),
    harrow.2.2.cons.2.2, by simp [Prototype.alike], rfl, rfl⟩

lemma Derives.opens {e : Expr} (h : Derives table (.primary result context e) s t)
    (hif : s.head.kind ≠ .keyword "if") : OpensExpression s := by
  unfold OpensExpression
  cases h with
  | int h | float h | bool h | string h | reference h | parens h | call h | assign h | importFile h => simp [h.1]
  | cast htext hlook => simpa [htext.1] using hlook
  | ifPrimary h => exact absurd h hif

lemma Derives.primary_head {e : Expr} (h : Derives table (.primary result context e) s t) :
    (∀ symbol, symbol ≠ "(" → s.head.kind ≠ .punctuation symbol) ∧ s.head.kind ≠ .endOfInput := by
  cases h with
  | int h | float h | bool h | string h | reference h | parens h | call h | assign h | importFile h | cast h =>
    rw [h.1]
    simp [eq_comm]
  | ifPrimary h =>
    rw [h]
    simp

lemma Derives.statement_head {st : Stmt} (h : Derives table (.statement result st) s t) :
    (∀ symbol, symbol ≠ "(" → s.head.kind ≠ .punctuation symbol) ∧ s.head.kind ≠ .endOfInput := by
  cases h with
  | hostFunction h | function h | ifStatement h =>
    rw [h]
    simp
  | ret h | declaration h =>
    rw [h.1]
    simp
  | expressionStatement _ he _ =>
    cases he with
    | expression hp _ => exact hp.primary_head

lemma Derives.arguments_head {es : List Expr} (h : Derives table (.arguments result es) s t) :
    s.head.kind ≠ .punctuation ")" := by
  cases h with
  | lastArgument he | nextArgument he =>
    cases he with
    | expression hp _ => exact hp.primary_head.1 ")" (by decide)

lemma Derives.expression_of_stops {e : Expr} (h : Derives table (.primary result context e) s t)
    (hstops : table.Stops (.zero false) t.head.lexeme) : Derives table (.expression result context e) s t :=
  .expression h (.climbEnd hstops)

variable {style : PrintStyle}

lemma literalKind_ne_keyword (value : Double) (type context : ValueType) (text : String) :
    Spelled.literalKind value type context ≠ .keyword text := by
  unfold Spelled.literalKind
  split_ifs <;> simp

lemma expression_head : ∀ e : Expr, e.Shaped style.table result context → Printer.isConditional e = false →
    ∃ k ks, Spelled.expression style result context e = k :: ks ∧ k.1 ≠ .keyword "if"
  | .number place value type, _, _ => by
    rw [Spelled.expression]
    exact ⟨_, _, rfl, literalKind_ne_keyword value type context "if"⟩
  | .reference place name, hs, _ => by
    rw [Spelled.expression]
    exact ⟨_, _, rfl, by simp [Spelled.word, hs.2]⟩
  | .string place value, _, _ => by
    rw [Spelled.expression]
    exact ⟨_, _, rfl, by simp [Spelled.quoted]⟩
  | .importFile place path, _, _ => by
    rw [Spelled.expression]
    exact ⟨_, _, rfl, by decide⟩
  | .call place callee args, hs, _ => by
    rw [Spelled.expression]
    exact ⟨_, _, rfl, by simp [Spelled.word, hs.1.2]⟩
  | .cast place target value, _, _ => by
    rw [Spelled.expression]
    exact ⟨_, _, rfl, by simp [Spelled.word, wordKind_keyword]⟩
  | .assign place name value, hs, _ => by
    rw [Spelled.expression]
    exact ⟨_, _, rfl, by simp [Spelled.word, hs.1.2]⟩
  | .conditional place conditions separators body, _, hif => by simp [Printer.isConditional] at hif
  | .binary place op lhs rhs, hs, _ => by
    rw [Spelled.expression]
    cases hparens : Printer.needsParens style (·.lt (style.table.level op)) lhs with
    | true => exact ⟨_, _, rfl, by simp [Spelled.punctuation]⟩
    | false =>
      have hif : Printer.isConditional lhs = false := by
        cases lhs with
        | conditional => simp [Printer.needsParens] at hparens
        | _ => rfl
      obtain ⟨k, ks, hlhs, hk⟩ := expression_head lhs hs.2.1 hif
      exact ⟨k, _, by rw [hlhs]; rfl, hk⟩

def ReadsArguments (style : PrintStyle) (result : ValueType) (es : List Expr) : Prop :=
  ∀ ⦃s ks⦄, s.Spells (Spelled.commas (Spelled.arguments style result es) ++ Spelled.punctuation ")" :: ks) →
    es ≠ [] → ∃ es' t, Derives style.table (.arguments result es') s t ∧
      t.Spells (Spelled.punctuation ")" :: ks) ∧ Expr.allAlike (Expr.settledAll es) es' = true

def ReadsCondition (style : PrintStyle) (result context : ValueType) (c : Condition) : Prop :=
  ∀ ⦃s ks⦄, s.Spells (Spelled.condition style result context c ++ ks) → EndsOperand style.table ks →
    ∃ c' t, Derives style.table (.condition result context c') s t ∧ t.Spells ks ∧ c.settled.alike c' = true

def ReadsJoined (style : PrintStyle) (result context : ValueType) (cs : List Condition)
    (separators : List String) : Prop :=
  ∀ ⦃s ks⦄, s.Spells ((Spelled.joined style result context cs separators).flatten ++
      Spelled.punctuation ")" :: ks) →
    ∃ cs' t, Derives style.table (.moreConditions result context separators cs') s t ∧
      t.Spells (Spelled.punctuation ")" :: ks) ∧ Condition.allAlike (Condition.settledAll cs) cs' = true

def ReadsConditions (style : PrintStyle) (result context : ValueType) (cs : List Condition)
    (separators : List String) : Prop :=
  ∀ ⦃s ks⦄, s.Spells ((Spelled.conditionList style result context cs separators).flatten ++
      Spelled.punctuation ")" :: ks) →
    ∃ c' cs' t u, Derives style.table (.condition result context c') s t ∧
      Derives style.table (.moreConditions result context separators cs') t u ∧
      u.Spells (Spelled.punctuation ")" :: ks) ∧ Condition.allAlike (Condition.settledAll cs) (c' :: cs') = true

def ReadsStatement (style : PrintStyle) (result : ValueType) (st : Stmt) : Prop :=
  ∀ ⦃s ks⦄, s.Spells (Spelled.statement style result st ++ ks) →
    ∃ st' t, Derives style.table (.statement result st') s t ∧ t.Spells ks ∧ st.settled.alike st' = true

def ReadsBody (style : PrintStyle) (result : ValueType) (ss : List Stmt) : Prop :=
  ∀ ⦃s ks⦄, s.Spells ((Spelled.statements style result ss).flatten ++ Spelled.punctuation "\x7d" :: ks) →
    ∃ ss' t, Derives style.table (.body result ss') s t ∧ t.Spells ks ∧ Stmt.allAlike (Stmt.settledAll ss) ss' = true

variable (context) in
lemma derives_call {callee : String} {args : List Expr} (hn : Lexer.IsName callee)
    (ha : ReadsArguments style result args)
    (hs : s.Spells (Spelled.word callee :: Spelled.punctuation "(" ::
      Spelled.commas (Spelled.arguments style result args) ++ Spelled.punctuation ")" :: ks)) :
    ∃ args' t, Derives style.table (.primary result context (.call s.head.position callee args')) s t ∧
      t.Spells ks ∧ Expr.allAlike (Expr.settledAll args) args' = true := by
  have hopen := hs.cons.2.2.cons
  by_cases hempty : args = []
  · subst hempty
    rw [Spelled.arguments] at hopen
    have hclose := hopen.2.2.cons
    exact ⟨[], _, .call (passes_name hn hs) hopen.1 (.noArguments hclose.1.1) hclose.1, hclose.2.2,
      by simp [Expr.settledAll, Expr.allAlike]⟩
  · obtain ⟨args', t, hargs, ht, halike⟩ := ha hopen.2.2 hempty
    have hclose := ht.cons
    exact ⟨args', _, .call (passes_name hn hs) hopen.1 (.someArguments hargs.arguments_head hargs) hclose.1,
      hclose.2.2, halike⟩

lemma readsJoined_nil : ReadsJoined style result context [] [] := by
  intro s ks hs
  rw [Spelled.joined] at hs
  · have hclose := hs.cons
    refine ⟨[], s, .lastCondition ?_, hs, by simp [Condition.settledAll, Condition.allAlike]⟩
    rw [separator?, hclose.1.1]
    rfl
  · simp

lemma separator?_of_passes {separator : String} (hsep : style.table.Separator separator)
    (h : s.Passes (.operator separator) t) : separator? s.head = some separator := by
  rw [separator?, h.1]
  rcases hsep.1 with rfl | rfl <;> rfl

lemma readsBody_nil : ReadsBody style result [] := by
  intro s ks hs
  rw [Spelled.statements] at hs
  have hclose := hs.cons
  exact ⟨[], _, .bodyEnd hclose.1, hclose.2.2, by simp [Stmt.settledAll, Stmt.allAlike]⟩

lemma readsBody_cons {st : Stmt} {ss : List Stmt} (hst : ReadsStatement style result st)
    (hss : ReadsBody style result ss) : ReadsBody style result (st :: ss) := by
  intro s ks hs
  rw [Spelled.statements, List.flatten_cons, List.append_assoc] at hs
  obtain ⟨st', t, hst', ht, halike⟩ := hst hs
  obtain ⟨ss', u, hss', hu, halikes⟩ := hss ht
  have hhead := hst'.statement_head
  exact ⟨st' :: ss', u, .bodyNext (hhead.1 _ (by decide)) hhead.2 hst' hss', hu,
    by simp [Stmt.settledAll, Stmt.allAlike, halike, halikes]⟩

lemma derives_conditional {conditions : List Condition} {separators : List String} {body : List Stmt}
    (hc : ReadsConditions style result context conditions separators) (hb : ReadsBody style result body)
    (hs : s.Spells (Spelled.word "if" :: Spelled.punctuation "(" ::
      (Spelled.conditionList style result context conditions separators).flatten ++
        Spelled.punctuation ")" :: Spelled.punctuation "\x7b" :: (Spelled.statements style result body).flatten ++
          Spelled.punctuation "\x7d" :: ks)) :
    s.head.kind = .keyword "if" ∧
      ∃ e t, Derives style.table (.conditional result context e) s t ∧ t.Spells ks ∧
        ∀ place, (Expr.conditional place conditions separators body).settled.alike e = true := by
  simp only [List.cons_append, List.append_assoc] at hs
  have hopen := hs.cons.2.2.cons
  obtain ⟨c, cs, t, u, hfirst, hmore, hu, halike⟩ := hc hopen.2.2
  have hclose := hu.cons
  have hbrace := hclose.2.2.cons
  obtain ⟨ss, v, hss, hv, halike'⟩ := hb hbrace.2.2
  exact ⟨hs.cons.1.1, _, v, .conditional hopen.1 hfirst hmore hclose.1 hbrace.1 hss, hv, fun place => by
    simp [Expr.settled, Expr.alike, halike, halike']⟩

lemma readsStatement_if {place : Position} {conditions : List Condition} {separators : List String}
    {body : List Stmt} (hc : ReadsConditions style result defaultType conditions separators)
    (hb : ReadsBody style result body) :
    ReadsStatement style result (.expression (.conditional place conditions separators body)) := by
  intro s ks hs
  rw [Spelled.statement, Spelled.expression] at hs
  simp only [Printer.isConditional, if_true, List.append_nil, List.append_assoc, List.cons_append,
    List.nil_append] at hs
  obtain ⟨hif, e, t, he, ht, halike⟩ := derives_conditional hc hb (by simpa using hs)
  exact ⟨_, t, .ifStatement hif he, ht, by simpa [Stmt.settled, Stmt.alike] using halike place⟩

lemma statementOf_alike {e e' : Expr} (he : ¬ e.IsCall) (h : e.alike e' = true) :
    (Stmt.expression e).alike (statementOf e') = true := by
  cases e' with
  | call place callee args =>
    cases e with
    | call => exact absurd trivial he
    | _ => simp [Expr.alike] at h
  | _ => simpa [statementOf, Stmt.alike] using h

lemma readsStatement_prototype {p : Prototype} (hp : p.Shaped) : ReadsStatement style result (.prototype p) := by
  intro s ks hs
  rw [Spelled.statement] at hs
  simp only [List.append_assoc, List.cons_append, List.nil_append] at hs
  obtain ⟨hfn, q, t, hq, ht, halike, -⟩ := derives_prototype style.table hp hs
  have hend := ht.cons
  exact ⟨_, _, .hostFunction hfn hq hend.1, hend.2.2, by simpa [Stmt.settled, Stmt.alike] using halike⟩

lemma readsStatement_function {p : Prototype} {body : List Stmt} (hp : p.Shaped)
    (hb : ReadsBody style p.result body) : ReadsStatement style result (.function p p.parameterTypes body) := by
  intro s ks hs
  rw [Spelled.statement] at hs
  simp only [List.append_assoc, List.cons_append, List.nil_append] at hs
  obtain ⟨hfn, q, t, hq, ht, halike, hresult, htypes⟩ := derives_prototype style.table hp hs
  have hbrace := ht.cons
  obtain ⟨ss, u, hss, hu, halike'⟩ := hb hbrace.2.2
  exact ⟨_, u, .function hfn hq hbrace.1 (hresult ▸ hss), hu,
    by simp [Stmt.settled, Stmt.alike, halike, halike', htypes]⟩

lemma rebuilds_call {place : Position} {callee : String} {args : List Expr} (hn : Lexer.IsName callee)
    (ha : ReadsArguments style result args) : Rebuilds style result context (.call place callee args) := by
  intro n q s ks _ _ _ _ hs _
  rw [Spelled.expression] at hs
  simp only [List.append_assoc, List.cons_append, List.nil_append] at hs
  obtain ⟨args', t, hcall, ht, halike⟩ := derives_call context hn ha hs
  exact climbs_of_primary hcall ht (by simp [Expr.settled, Expr.alike, halike])

lemma rebuilds_conditional {place : Position} {conditions : List Condition} {separators : List String}
    {body : List Stmt} (hc : ReadsConditions style result context conditions separators)
    (hb : ReadsBody style result body) :
    Rebuilds style result context (.conditional place conditions separators body) := by
  intro n q s ks _ _ _ _ hs _
  rw [Spelled.expression] at hs
  obtain ⟨hif, e, t, he, ht, halike⟩ := derives_conditional hc hb (by simpa using hs)
  exact climbs_of_primary (.ifPrimary hif he) ht (halike place)

section Integral

variable (hint : style.table.Integral)
include hint

lemma rebuilds_cast {place : Position} {target : ValueType} {value : Expr}
    (hv : Rebuilds style result defaultType value) : Rebuilds style result context (.cast place target value) := by
  intro n q s ks _ _ _ _ hs _
  rw [Spelled.expression] at hs
  simp only [List.cons_append, List.append_assoc, List.nil_append] at hs
  have hopen := hs.cons.2.2.cons
  obtain ⟨value', t, hvalue, ht, halike⟩ := hv.expression hint hopen.2.2 (ends_punctuation hint (by simp))
  have hclose := ht.cons
  refine climbs_of_primary (.cast (passes_keyword hs) hs.look_one (ofKeyword?_keyword target) hopen.1 hvalue hclose.1)
    hclose.2.2 ?_
  simp [Expr.settled, Expr.alike, halike]

lemma rebuilds_assign {place : Position} {name : String} {value : Expr} (hn : Lexer.IsName name)
    (hv : Rebuilds style result context value) : Rebuilds style result context (.assign place name value) := by
  intro n q s ks _ _ _ htight hs hks
  rw [Spelled.expression] at hs
  have hsign := hs.cons.2.2.cons
  obtain ⟨value', t, hvalue, ht, halike⟩ := hv.expression hint hsign.2.2 (hks.mono htight fun _ => rfl)
  exact climbs_of_primary (.assign (passes_name hn hs) hsign.1 hvalue) ht (by simp [Expr.settled, Expr.alike, halike])

lemma readsArguments_cons {e : Expr} {es : List Expr} (he : Rebuilds style result defaultType e)
    (hes : ReadsArguments style result es) : ReadsArguments style result (e :: es) := by
  intro s ks hs _
  cases es with
  | nil =>
    simp only [Spelled.arguments, Spelled.commas, List.intercalate_singleton] at hs
    obtain ⟨e', t, he', ht, halike⟩ := he.expression hint hs (ends_punctuation hint (by simp))
    refine ⟨[e'], t, .lastArgument he' ?_, ht, by simp [Expr.settledAll, Expr.allAlike, halike]⟩
    rw [ht.cons.1.1]
    simp [Spelled.punctuation]
  | cons e₂ es =>
    rw [Spelled.arguments, Spelled.arguments, Spelled.commas, List.intercalate_cons_cons] at hs
    simp only [List.append_assoc, List.cons_append, List.nil_append] at hs
    obtain ⟨e', t, he', ht, halike⟩ := he.expression hint hs (ends_punctuation hint (by simp))
    have hcomma := ht.cons
    obtain ⟨es', u, hes', hu, halikes⟩ := hes (by rw [Spelled.arguments]; exact hcomma.2.2) (by simp)
    exact ⟨e' :: es', u, .nextArgument he' hcomma.1 hes', hu, by
      rw [Expr.settledAll, Expr.allAlike, halike, halikes, Bool.and_self]⟩

lemma readsCondition_compare {lhs rhs : Expr} {op : String}
    (hshape : (Condition.compare lhs op rhs).Shaped style.table result context) (hlegible : lhs.Legible style)
    (hl : Rebuilds style result context lhs) (hlegible' : rhs.Legible style)
    (hr : Rebuilds style result context rhs) : ReadsCondition style result context (.compare lhs op rhs) := by
  obtain ⟨hop, hlhs, hrhs⟩ := hshape
  intro s ks hs hks
  rw [Spelled.condition] at hs
  simp only [List.append_assoc, List.cons_append] at hs
  obtain ⟨lhs', t, hleft, ht, halike⟩ := hl.operand hint hlegible hlhs hs (endsOperand_comparison hint hop)
  have hoperator := ht.cons
  obtain ⟨rhs', u, hright, hu, halike'⟩ := hr.operand hint hlegible' hrhs hoperator.2.2 hks
  exact ⟨_, u, .condition hleft hoperator.1 hop hright, hu, by
    simp [Condition.settled, Condition.alike, halike, halike']⟩

lemma endsOperand_joined {cs : List Condition} {separators : List String}
    (hsep : ∀ x ∈ separators, style.table.Separator x) :
    EndsOperand style.table ((Spelled.joined style result context cs separators).flatten ++
      Spelled.punctuation ")" :: ks) := by
  match cs, separators with
  | [], _ | _ :: _, [] =>
    rw [Spelled.joined]
    · exact endsOperand_punctuation hint (by simp)
    · simp
  | c :: cs, separator :: separators =>
    rw [Spelled.joined, List.flatten_cons, List.cons_append, List.cons_append]
    exact endsOperand_separator (hsep separator (by simp))

lemma readsJoined_cons {c : Condition} {cs : List Condition} {separator : String} {separators : List String}
    (hsep : ∀ x ∈ separator :: separators, style.table.Separator x)
    (hc : ReadsCondition style result context c) (hcs : ReadsJoined style result context cs separators) :
    ReadsJoined style result context (c :: cs) (separator :: separators) := by
  intro s ks hs
  rw [Spelled.joined] at hs
  simp only [List.flatten_cons, List.cons_append, List.append_assoc] at hs
  have hoperator := hs.cons
  obtain ⟨c', t, hc', ht, halike⟩ := hc hoperator.2.2 (endsOperand_joined hint fun x hx => hsep x (by simp [hx]))
  obtain ⟨cs', u, hcs', hu, halikes⟩ := hcs ht
  exact ⟨c' :: cs', u, .nextCondition (separator?_of_passes (hsep separator (by simp)) hoperator.1) hc' hcs', hu,
    by simp [Condition.settledAll, Condition.allAlike, halike, halikes]⟩

lemma readsConditions_cons {c : Condition} {cs : List Condition} {separators : List String}
    (hsep : ∀ x ∈ separators, style.table.Separator x) (hc : ReadsCondition style result context c)
    (hcs : ReadsJoined style result context cs separators) :
    ReadsConditions style result context (c :: cs) separators := by
  intro s ks hs
  rw [Spelled.conditionList, List.flatten_cons, List.append_assoc] at hs
  obtain ⟨c', t, hc', ht, halike⟩ := hc hs (endsOperand_joined hint hsep)
  obtain ⟨cs', u, hcs', hu, halikes⟩ := hcs ht
  exact ⟨c', cs', t, u, hc', hcs', hu, by simp [Condition.settledAll, Condition.allAlike, halike, halikes]⟩

lemma readsStatement_expression {e : Expr} (hif : Printer.isConditional e = false) (hcall : ¬ e.IsCall)
    (hshape : e.Shaped style.table result defaultType) (he : Rebuilds style result defaultType e) :
    ReadsStatement style result (.expression e) := by
  intro s ks hs
  rw [Spelled.statement, hif] at hs
  simp only [Bool.false_eq_true, if_false, List.append_assoc, List.cons_append, List.nil_append] at hs
  obtain ⟨e', t, he', ht, halike⟩ := he.expression hint hs (ends_punctuation hint (by simp))
  have hend := ht.cons
  obtain ⟨k, kr, hk, hne⟩ := expression_head e hshape hif
  have hhead : s.head.kind ≠ .keyword "if" := by
    rw [hk] at hs
    rw [hs.cons.1.1]
    exact hne
  have hopens : OpensExpression s := by
    cases he' with
    | expression hp _ => exact hp.opens hhead
  have hsettled : ¬ e.settled.IsCall := mt Expr.isCall_settled.mp hcall
  exact ⟨_, _, .expressionStatement hopens he' hend.1, hend.2.2, statementOf_alike hsettled halike⟩

lemma readsStatement_call {place : Position} {callee : String} {args : List Expr} (hn : Lexer.IsName callee)
    (ha : ReadsArguments style result args) : ReadsStatement style result (.call place callee args) := by
  intro s ks hs
  rw [Spelled.statement] at hs
  simp only [List.append_assoc, List.cons_append, List.nil_append] at hs
  obtain ⟨args', t, hcall, ht, halike⟩ := derives_call defaultType hn ha hs
  have hend := ht.cons
  have hexpr := hcall.expression_of_stops (stops_zero hint (ends_punctuation (b := true) hint (by simp)) ht)
  have hopens : OpensExpression s := hcall.opens (by rw [(passes_name hn hs).1]; simp)
  exact ⟨_, _, .expressionStatement hopens hexpr hend.1, hend.2.2, by
    simp [Stmt.settled, statementOf, Stmt.alike, halike]⟩

lemma readsStatement_declare {place : Position} {type : ValueType} {name : String} {value : Expr}
    (hn : Lexer.IsName name) (hv : Rebuilds style result type value) :
    ReadsStatement style result (.declare place type name value) := by
  intro s ks hs
  rw [Spelled.statement] at hs
  simp only [List.append_assoc, List.cons_append, List.nil_append] at hs
  have hname := passes_name hn hs.cons.2.2
  have hsign := hs.cons.2.2.cons.2.2.cons
  obtain ⟨value', t, hvalue, ht, halike⟩ := hv.expression hint hsign.2.2 (ends_punctuation hint (by simp))
  have hend := ht.cons
  have hlook : (s.look 1).kind ≠ .punctuation "(" := by
    rw [hs.look_one, Spelled.word, hn.2]
    simp
  exact ⟨_, _, .declaration (passes_keyword hs) hlook (ofKeyword?_keyword type) hname hsign.1 hvalue hend.1,
    hend.2.2, by simp [Stmt.settled, Stmt.alike, halike]⟩

lemma readsStatement_ret {place : Position} {value : Expr}
    (hv : Rebuilds style result (returnContext result) value) :
    ReadsStatement style result (.ret place value) := by
  intro s ks hs
  rw [Spelled.statement] at hs
  simp only [List.append_assoc, List.cons_append, List.nil_append] at hs
  have hret := hs.cons
  obtain ⟨value', t, hvalue, ht, halike⟩ := hv.expression hint hret.2.2 (ends_punctuation hint (by simp))
  have hend := ht.cons
  exact ⟨_, _, .ret hret.1 hvalue hend.1, hend.2.2, by simp [Stmt.settled, Stmt.alike, halike]⟩

end Integral

mutual

lemma rebuilds (hint : style.table.Integral) (result context : ValueType) :
    ∀ e : Expr, e.Shaped style.table result context →
    (∀ x ∈ e.parts, x.Legible style) → Rebuilds style result context e
  | .number place value type, hs, hp => fun n q s ks _ _ _ _ hk _ => by
    rw [Spelled.expression] at hk
    have hf : value.isFinite := (hp _ (Expr.self_mem_parts _)).finite
    exact climbs_of_primary (derives_literal hs hf hk) hk.cons.2.2 (by simp [Expr.settled, Expr.alike])
  | .reference place name, hs, hp => fun n q s ks _ _ _ _ hk hends => by
    rw [Spelled.expression] at hk
    obtain ⟨k, rest, rfl, hne, -⟩ := hends
    obtain ⟨hopen, hassign⟩ := hne rfl
    have hnext := hk.cons.2.2.cons.1.1
    exact climbs_of_primary (.reference (passes_name hs hk) (hnext ▸ hopen) (hnext ▸ hassign)) hk.cons.2.2
      (by simp [Expr.settled, Expr.alike])
  | .string place value, hs, hp => fun n q s ks _ _ _ _ hk _ => by
    rw [Spelled.expression] at hk
    exact climbs_of_primary (.string hk.cons.1) hk.cons.2.2 (by simp [Expr.settled, Expr.alike])
  | .importFile place path, hs, hp => fun n q s ks _ _ _ _ hk _ => by
    rw [Spelled.expression] at hk
    have hpath := hk.cons.2.2.cons
    exact climbs_of_primary (.importFile hk.cons.1 hpath.1) hpath.2.2 (by simp [Expr.settled, Expr.alike])
  | .call place callee args, hs, hp =>
    rebuilds_call hs.1 (readsArguments hint result args hs.2 fun x hx => hp x (by simp [Expr.parts, hx]))
  | .cast place target value, hs, hp =>
    rebuilds_cast hint (rebuilds hint result defaultType value hs fun x hx => hp x (by simp [Expr.parts, hx]))
  | .assign place name value, hs, hp =>
    rebuilds_assign hint hs.1 (rebuilds hint result context value hs.2 fun x hx => hp x (by simp [Expr.parts, hx]))
  | .conditional place conditions separators body, hs, hp =>
    rebuilds_conditional
      (readsConditions hint result context conditions separators hs.2.2.1 hs.1 hs.2.1 fun x hx =>
        hp x (by simp [Expr.parts, hx]))
      (readsBody hint result body hs.2.2.2 fun x hx => hp x (by simp [Expr.parts, hx]))
  | .binary place op lhs rhs, hs, hp =>
    rebuilds_binary hint (hp _ (Expr.self_mem_parts _)) hs
      (hp lhs (by simp [Expr.parts, Expr.self_mem_parts]))
      (rebuilds hint result context lhs hs.2.1 fun x hx => hp x (by simp [Expr.parts, hx]))
      (hp rhs (by simp [Expr.parts, Expr.self_mem_parts]))
      (rebuilds hint result context rhs hs.2.2 fun x hx => hp x (by simp [Expr.parts, hx]))

lemma readsArguments (hint : style.table.Integral) (result : ValueType) : ∀ es : List Expr,
    Expr.AllShaped style.table result es →
    (∀ x ∈ Expr.partsOfAll es, x.Legible style) → ReadsArguments style result es
  | [], _, _ => fun _ _ _ hne => absurd rfl hne
  | e :: es, hs, hp =>
    readsArguments_cons hint (rebuilds hint result defaultType e hs.1 fun x hx => hp x (by simp [Expr.partsOfAll, hx]))
      (readsArguments hint result es hs.2 fun x hx => hp x (by simp [Expr.partsOfAll, hx]))

lemma readsCondition (hint : style.table.Integral) (result context : ValueType) :
    ∀ c : Condition, c.Shaped style.table result context →
    (∀ x ∈ c.parts, x.Legible style) → ReadsCondition style result context c
  | .compare lhs op rhs, hs, hp =>
    readsCondition_compare hint hs
      (hp lhs (by simp [Condition.parts, Expr.self_mem_parts]))
      (rebuilds hint result context lhs hs.2.1 fun x hx => hp x (by simp [Condition.parts, hx]))
      (hp rhs (by simp [Condition.parts, Expr.self_mem_parts]))
      (rebuilds hint result context rhs hs.2.2 fun x hx => hp x (by simp [Condition.parts, hx]))

lemma readsConditions (hint : style.table.Integral) (result context : ValueType) :
    ∀ (cs : List Condition) (separators : List String),
    Condition.AllShaped style.table result context cs → separators.length + 1 = cs.length →
    (∀ x ∈ separators, style.table.Separator x) → (∀ x ∈ Condition.partsOfAll cs, x.Legible style) →
    ReadsConditions style result context cs separators
  | [], _, _, hlen, _, _ => by simp at hlen
  | c :: cs, separators, hs, hlen, hsep, hp =>
    readsConditions_cons hint hsep
      (readsCondition hint result context c hs.1 fun x hx => hp x (by simp [Condition.partsOfAll, hx]))
      (readsJoined hint result context cs separators hs.2 (by simpa using hlen) hsep fun x hx =>
        hp x (by simp [Condition.partsOfAll, hx]))

lemma readsJoined (hint : style.table.Integral) (result context : ValueType) :
    ∀ (cs : List Condition) (separators : List String),
    Condition.AllShaped style.table result context cs → separators.length = cs.length →
    (∀ x ∈ separators, style.table.Separator x) → (∀ x ∈ Condition.partsOfAll cs, x.Legible style) →
    ReadsJoined style result context cs separators
  | [], [], _, _, _, _ => readsJoined_nil
  | [], _ :: _, _, hlen, _, _ => by simp at hlen
  | _ :: _, [], _, hlen, _, _ => by simp at hlen
  | c :: cs, separator :: separators, hs, hlen, hsep, hp =>
    readsJoined_cons hint hsep
      (readsCondition hint result context c hs.1 fun x hx => hp x (by simp [Condition.partsOfAll, hx]))
      (readsJoined hint result context cs separators hs.2 (by simpa using hlen) (fun x hx => hsep x (by simp [hx]))
        fun x hx => hp x (by simp [Condition.partsOfAll, hx]))

lemma readsStatement (hint : style.table.Integral) (result : ValueType) : ∀ st : Stmt, st.Shaped style.table result →
    (∀ x ∈ st.parts, x.Legible style) → ReadsStatement style result st
  | .expression value, hs, hp => by
    cases value with
    | conditional place conditions separators body =>
      obtain ⟨-, hlen, hsep, hconds, hbody⟩ := hs
      exact readsStatement_if
        (readsConditions hint result defaultType conditions separators hconds hlen hsep fun x hx =>
          hp x (by simp [Stmt.parts, Expr.parts, hx]))
        (readsBody hint result body hbody fun x hx => hp x (by simp [Stmt.parts, Expr.parts, hx]))
    | _ =>
      exact readsStatement_expression hint rfl hs.1 hs.2
        (rebuilds hint result defaultType _ hs.2 fun x hx => hp x (by simp [Stmt.parts, hx]))
  | .call place callee args, hs, hp =>
    readsStatement_call hint hs.1 (readsArguments hint result args hs.2 fun x hx => hp x (by simp [Stmt.parts, hx]))
  | .declare place type name value, hs, hp =>
    readsStatement_declare hint hs.1 (rebuilds hint result type value hs.2 fun x hx => hp x (by simp [Stmt.parts, hx]))
  | .ret place value, hs, hp =>
    readsStatement_ret hint (rebuilds hint result (returnContext result) value hs fun x hx =>
      hp x (by simp [Stmt.parts, hx]))
  | .prototype signature, hs, hp => readsStatement_prototype hs
  | .function signature types body, hs, hp => by
    have hbody := readsBody hint signature.result body hs.2.2 fun x hx => hp x (by simp [Stmt.parts, hx])
    rw [hs.2.1]
    exact readsStatement_function hs.1 hbody

lemma readsBody (hint : style.table.Integral) (result : ValueType) : ∀ ss : List Stmt,
    Stmt.AllShaped style.table result ss →
    (∀ x ∈ Stmt.partsOfAll ss, x.Legible style) → ReadsBody style result ss
  | [], _, _ => readsBody_nil
  | s :: ss, hs, hp =>
    readsBody_cons (readsStatement hint result s hs.1 fun x hx => hp x (by simp [Stmt.partsOfAll, hx]))
      (readsBody hint result ss hs.2 fun x hx => hp x (by simp [Stmt.partsOfAll, hx]))

end

lemma derives_settled (hint : style.table.Integral) : ∀ {p : List Stmt}, Stmt.AllShaped style.table defaultType p →
    (∀ x ∈ Stmt.partsOfAll p, x.Legible style) → ∀ {s : TokenStream},
    s.Spells ((Spelled.statements style defaultType p).flatten ++ [Lexer.endSpelled]) →
    ∃ q t, Derives style.table (.program q) s t ∧ Stmt.allAlike (Stmt.settledAll p) q = true := by
  intro p
  induction p with
  | nil =>
    intro _ _ s hs
    rw [Spelled.statements] at hs
    exact ⟨[], s, .programEnd hs.cons.1.1, by simp [Stmt.settledAll, Stmt.allAlike]⟩
  | cons st p ih =>
    intro hp hr s hs
    rw [Spelled.statements, List.flatten_cons, List.append_assoc] at hs
    obtain ⟨st', t, hst, ht, halike⟩ := readsStatement hint defaultType st hp.1
      (fun x hx => hr x (by simp [Stmt.partsOfAll, hx])) hs
    obtain ⟨q, u, hq, halikes⟩ := ih hp.2 (fun x hx => hr x (by simp [Stmt.partsOfAll, hx])) ht
    exact ⟨st' :: q, u, .programNext hst.statement_head.2 hst hq, by
      simp [Stmt.settledAll, Stmt.allAlike, halike, halikes]⟩

lemma derives_program (hint : style.table.Integral) {p : List Stmt} (hp : Stmt.AllShaped style.table defaultType p)
    (hr : ∀ x ∈ Stmt.partsOfAll p, x.Readable) {s : TokenStream}
    (hs : s.Spells ((Spelled.statements style defaultType p).flatten ++ [Lexer.endSpelled])) :
    ∃ q t, Derives style.table (.program q) s t ∧ Stmt.allAlike p q = true := by
  obtain ⟨q, t, hq, halike⟩ := derives_settled hint hp (fun x hx => (hr x hx).legible) hs
  rw [Stmt.settledAll_of_readable p hr] at halike
  exact ⟨q, t, hq, halike⟩

end Parser

variable {table : Precedences} {source : String} {p : Program}

/-- A program that was read from a text is printed as a text that reads as the same program. -/
theorem parseText_print {indent : String} (ht : table.Integral) (hi : indent.toList.all Lexer.isBlank = true)
    (h : parseText source table = .ok p) (hp : ∀ e ∈ p.parts, e.Readable) :
    ∃ q, parseText (print p ⟨table, indent⟩) table = .ok q ∧ p.alike q = true := by
  have hshape := parseText_shaped h
  have ht' : (⟨table, indent⟩ : PrintStyle).table.Integral := ht
  have hi' : Lexer.BlankIndent ⟨table, indent⟩ := hi
  obtain ⟨tokens', hlex', hspells⟩ := Lexer.reads_print ht' hi' hshape hp .start
  obtain ⟨q, t, hq, halike⟩ := Parser.derives_program ht' hshape hp (s := .ofTokens tokens') hspells
  exact ⟨q, parseText_ok.mpr ⟨tokens', hlex', Parser.parse_complete hq⟩, halike⟩

theorem parseText_print_sample :
    ∃ p q, parseText "i8 b = 3.0 + (b = 2) * (true - 7 - b); if (1 + b < 2 && b == 2.5) \x7b f(b); \x7d" .standard =
      .ok p ∧
      parseText (print p ⟨.standard, "\t"⟩) .standard = .ok q ∧ p.alike q = true := by
  have hcheck : (match parseText
      "i8 b = 3.0 + (b = 2) * (true - 7 - b); if (1 + b < 2 && b == 2.5) \x7b f(b); \x7d" .standard with
      | .ok p => decide (∀ e ∈ p.parts, e.Readable)
      | .error _ => false) = true := by decide +kernel
  have hindent : "\t".toList.all Lexer.isBlank = true := by decide
  split at hcheck
  · rename_i p hp
    obtain ⟨q, hq⟩ := parseText_print Precedences.integral_standard hindent hp (of_decide_eq_true hcheck)
    exact ⟨p, q, hp, hq⟩
  · simp at hcheck

end Keel
