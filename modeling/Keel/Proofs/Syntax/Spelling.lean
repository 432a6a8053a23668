import Keel.Proofs.Syntax.Powers
import Keel.Proofs.Syntax.Shape
import Keel.Syntax.Printer
import Mathlib.Data.List.Forall2

namespace Keel

namespace Spelled

def punctuation (symbol : String) : Spelled := (.punctuation symbol, symbol)

def operator (symbol : String) : Spelled := (.operator symbol, symbol)

def word (text : String) : Spelled := (Lexer.wordKind text, text)

def quoted (value : String) : Spelled := (.string value, Literal.quoted value)

def literalKind (value : Double) (type context : ValueType) : TokenKind :=
  if type = .bool ∧ value.eq (.ofInt 0) then .bool false
  else if type = .bool ∧ value.eq (.ofInt 1) then .bool true
  else if type = context ∧ value.isInteger then .int value
  else .float value

def literal (value : Double) (type context : ValueType) : Spelled :=
  (literalKind value type context, Literal.text value type context)

def parameter (p : Parameter) : List Spelled := [word p.type.keyword, word p.name]

def commas (parts : List (List Spelled)) : List Spelled := [punctuation ","].intercalate parts

def prototype (p : Prototype) : List Spelled :=
  word "fn" :: word p.name :: punctuation "(" :: commas (p.parameters.map parameter) ++
    [punctuation ")", punctuation "->", word p.result.keyword]

def enclosed (parens : Bool) (tokens : List Spelled) : List Spelled :=
  if parens then punctuation "(" :: tokens ++ [punctuation ")"] else tokens

variable (style : PrintStyle)

mutual

def expression (result context : ValueType) : Expr → List Spelled
  | .number _ value type => [literal value type context]
  | .reference _ name => [word name]
  | .string _ value => [quoted value]
  | .importFile _ path => [word "import", quoted path]
  | .call _ callee args => word callee :: punctuation "(" :: commas (arguments result args) ++ [punctuation ")"]
  | .cast _ target value =>
    word target.keyword :: punctuation "(" :: expression result Parser.defaultType value ++ [punctuation ")"]
  | .assign _ name value => word name :: operator "=" :: expression result context value
  | .conditional _ conditions separators body =>
    word "if" :: punctuation "(" :: (conditionList result context conditions separators).flatten ++
      punctuation ")" :: punctuation "\x7b" :: (statements result body).flatten ++ [punctuation "\x7d"]
  | .binary _ op lhs rhs =>
    let power := style.table.level op
    enclosed (Printer.needsParens style (·.lt power) lhs) (expression result context lhs) ++ operator op ::
      enclosed (Printer.needsParens style (·.le power) rhs) (expression result context rhs)

def arguments (result : ValueType) : List Expr → List (List Spelled)
  | [] => []
  | e :: es => expression result Parser.defaultType e :: arguments result es

def condition (result context : ValueType) : Condition → List Spelled
  | .compare lhs op rhs =>
    let loose (power : Double) := power.le style.table.ceiling
    enclosed (Printer.needsParens style loose lhs) (expression result context lhs) ++ operator op ::
      enclosed (Printer.needsParens style loose rhs) (expression result context rhs)

def conditionList (result context : ValueType) : List Condition → List String → List (List Spelled)
  | [], _ => []
  | c :: cs, separators => condition result context c :: joined result context cs separators

def joined (result context : ValueType) : List Condition → List String → List (List Spelled)
  | c :: cs, separator :: separators =>
    (operator separator :: condition result context c) :: joined result context cs separators
  | _, _ => []

def statement (result : ValueType) : Stmt → List Spelled
  | .expression value =>
    expression result Parser.defaultType value ++ (if Printer.isConditional value then [] else [punctuation ";"])
  | .call _ callee args =>
    word callee :: punctuation "(" :: commas (arguments result args) ++ [punctuation ")", punctuation ";"]
  | .declare _ type name value =>
    word type.keyword :: word name :: operator "=" :: expression result type value ++ [punctuation ";"]
  | .ret _ value => word "return" :: expression result (Parser.returnContext result) value ++ [punctuation ";"]
  | .prototype signature => prototype signature ++ [punctuation ";"]
  | .function signature _ body =>
    prototype signature ++ punctuation "\x7b" :: (statements signature.result body).flatten ++
      [punctuation "\x7d"]

def statements (result : ValueType) : List Stmt → List (List Spelled)
  | [] => []
  | s :: ss => statement result s :: statements result ss

end

def program (p : Program) : List Spelled := (statements style Parser.defaultType p).flatten

end Spelled

namespace Lexer

def Spells (text : String) (ks : List Spelled) : Prop :=
  ∀ ⦃rest kr⦄, Delimited rest → Reads rest kr → Reads (text.toList ++ rest) (ks ++ kr)

variable {rest : List Char} {kr : List Spelled}

lemma delimited_append {text : List Char} (h : text.head?.any (· ∈ delimiters) = true) :
    Delimited (text ++ rest) := by
  cases text with
  | nil => simp at h
  | cons c cs => exact delimited_cons (by simpa using h)

lemma Reads.bracket (h : Reads rest kr) (symbol : String)
    (hs : symbol ∈ ["(", ")", "\x7b", "\x7d", ",", ";"]) :
    Reads (symbol.toList ++ rest) (Spelled.punctuation symbol :: kr) := by
  refine h.symbol ?_ (.inr ?_)
  · revert symbol
    decide
  · revert symbol
    decide

lemma Reads.space (h : Reads rest kr) : Reads (" ".toList ++ rest) kr := h.blank rfl

lemma Reads.operator (h : Reads rest kr) (hr : Delimited rest) (op : String) (ho : op ∈ operatorSymbols) :
    Reads (op.toList ++ rest) (Spelled.operator op :: kr) := by
  refine h.symbol ?_ (.inl hr)
  revert op
  decide

lemma Reads.text (h : Reads rest kr) (hr : Delimited rest) (text : String) (hw : IsWord text.toList) :
    Reads (text.toList ++ rest) (Spelled.word text :: kr) := by
  simpa [Spelled.word] using h.word hw hr

lemma isWord_keyword (t : ValueType) : IsWord t.keyword.toList := by cases t <;> decide

lemma spells_parameter (type : ValueType) {name : String} (h : IsName name) :
    Spells (type.keyword ++ " " ++ name) (Spelled.parameter ⟨type, name⟩) := by
  intro rest kr hr hk
  rw [String.toList_append, String.toList_append, List.append_assoc, List.append_assoc]
  exact ((hk.text hr _ h.1).space).text (delimited_append rfl) _ (isWord_keyword type)

lemma spells_parameters {names : List String} {types : List ValueType} (hlength : names.length = types.length)
    (h : ∀ name ∈ names, IsName name) : List.Forall₂ Spells (Printer.parameters names types)
      ((List.zipWith Parameter.mk types names).map Spelled.parameter) := by
  induction names generalizing types with
  | nil =>
    obtain rfl := List.length_eq_zero_iff.mp hlength.symm
    exact .nil
  | cons name names ih =>
    cases types with
    | nil => cases hlength
    | cons type types =>
      obtain ⟨hname, hnames⟩ := List.forall_mem_cons.mp h
      exact .cons (spells_parameter type hname) (ih (Nat.succ.inj hlength) hnames)

lemma spells_intercalate {separator : String} {ks : List Spelled} {texts : List String}
    {tokens : List (List Spelled)} (h : List.Forall₂ Spells texts tokens)
    (hs : ∀ {rest kr}, Reads rest kr → Reads (separator.toList ++ rest) (ks ++ kr))
    (hd : separator.toList.head?.any (· ∈ delimiters) = true) :
    Spells (separator.intercalate texts) (ks.intercalate tokens) := by
  induction h with
  | nil => exact fun _ _ _ hk => by simpa using hk
  | @cons text t texts tokens ht hrest ih =>
    intro rest kr hr hk
    cases hrest with
    | nil => simpa using ht hr hk
    | cons _ _ =>
      rw [String.intercalate_cons_cons, List.intercalate_cons_cons, String.toList_append, String.toList_append]
      simp only [List.append_assoc]
      exact ht (delimited_append hd) (hs (ih hr hk))

lemma spells_commas {texts : List String} {tokens : List (List Spelled)}
    (h : List.Forall₂ Spells texts tokens) : Spells (", ".intercalate texts) (Spelled.commas tokens) :=
  spells_intercalate h (fun hk => hk.space.bracket "," (by simp)) rfl

lemma intercalate_nil_left (tokens : List (List Spelled)) : [].intercalate tokens = tokens.flatten := by
  induction tokens with
  | nil => rfl
  | cons t tokens ih =>
    cases tokens with
    | nil => simp
    | cons u tokens => rw [List.intercalate_cons_cons, List.append_nil, ih, ← List.flatten_cons]

lemma spells_lines {texts : List String} {tokens : List (List Spelled)}
    (h : List.Forall₂ Spells texts tokens) : Spells (Printer.lines texts) tokens.flatten := by
  rw [← intercalate_nil_left]
  exact spells_intercalate h (fun hk => hk.blank rfl) rfl

lemma spells_spaced {texts : List String} {tokens : List (List Spelled)}
    (h : List.Forall₂ Spells texts tokens) : Spells (" ".intercalate texts) tokens.flatten := by
  rw [← intercalate_nil_left]
  exact spells_intercalate h (fun hk => hk.blank rfl) rfl

lemma spells_prototype {p : Prototype} (h : p.Shaped) : Spells (Printer.prototype p) (Spelled.prototype p) := by
  intro rest kr hr hk
  have hparams := spells_parameters h.2.1 h.2.2
  have hresult := hk.text hr _ (isWord_keyword p.result)
  have harrow : Reads ("->".toList ++ (" ".toList ++ (p.result.keyword.toList ++ rest)))
      (Spelled.punctuation "->" :: Spelled.word p.result.keyword :: kr) :=
    hresult.space.symbol rfl (.inl (delimited_append rfl))
  have hclose := harrow.space.bracket ")" (by simp)
  have hps := spells_commas hparams (delimited_append rfl) hclose
  have hopen := hps.bracket "(" (by simp)
  have hname := hopen.text (delimited_append rfl) _ h.1.1
  have hfn := hname.space.text (delimited_append rfl) "fn" (by decide)
  simp only [Printer.prototype, Spelled.prototype, Prototype.parameters, String.toList_append, List.append_assoc,
    List.cons_append, List.nil_append]
  exact hfn

lemma spells_enclosed {text : String} {ks : List Spelled} (parens : Bool) (h : Spells text ks) :
    Spells (Printer.enclosed parens text) (Spelled.enclosed parens ks) := by
  cases parens with
  | false => exact h
  | true =>
    intro rest kr hr hk
    have hclose := hk.bracket ")" (by simp)
    have hopen := (h (delimited_append rfl) hclose).bracket "(" (by simp)
    simp only [Printer.enclosed, Spelled.enclosed, if_true, String.toList_append, List.append_assoc,
      List.cons_append, List.nil_append]
    exact hopen

lemma spells_operation {left right op : String} {kl kr : List Spelled} (hl : Spells left kl)
    (ho : op ∈ operatorSymbols) (hr : Spells right kr) :
    Spells (left ++ " " ++ op ++ " " ++ right) (kl ++ Spelled.operator op :: kr) := by
  intro rest k hrest hk
  have hop := (hr hrest hk).space.operator (delimited_append rfl) op ho
  simp only [String.toList_append, List.append_assoc, List.cons_append]
  exact hl (delimited_append rfl) hop.space

lemma spells_call {callee : String} {args : List String} {ks : List (List Spelled)} (hc : IsWord callee.toList)
    (ha : List.Forall₂ Spells args ks) :
    Spells (Printer.call callee args)
      (Spelled.word callee :: Spelled.punctuation "(" :: Spelled.commas ks ++ [Spelled.punctuation ")"]) := by
  intro rest kr hr hk
  have hargs := spells_commas ha (delimited_append rfl) (hk.bracket ")" (by simp))
  have hname := (hargs.bracket "(" (by simp)).text (delimited_append rfl) _ hc
  simp only [Printer.call, String.toList_append, List.append_assoc, List.cons_append, List.nil_append]
  exact hname

lemma spells_numeral {text : String} {kind : TokenKind} (h : Numeral text.toList kind) :
    Spells text [(kind, text)] := fun _ _ hr hk => by
  simpa using hk.numeral h hr

lemma spells_literal {value : Double} {type context : ValueType} (h : Literal.Shaped value type context)
    (hf : value.isFinite) :
    Spells (Literal.text value type context) [Spelled.literal value type context] := by
  obtain ⟨hlit, htype⟩ := h hf
  by_cases hfalse : type = .bool ∧ value.eq (.ofInt 0)
  · simp only [Spelled.literal, Spelled.literalKind, Literal.text, hfalse, and_self, if_true]
    exact fun _ _ hr hk => hk.text hr "false" (by decide)
  by_cases htrue : type = .bool ∧ value.eq (.ofInt 1)
  · simp only [Spelled.literal, Spelled.literalKind, Literal.text, if_neg hfalse, if_pos htrue]
    exact fun _ _ hr hk => hk.text hr "true" (by decide)
  simp only [Spelled.literal, Spelled.literalKind, Literal.text, if_neg hfalse, if_neg htrue]
  have hnumber : type = context ∧ value.isInteger ∨ type = .double := by
    rcases htype with h | h | ⟨hbool, b, rfl⟩
    · exact .inl h
    · exact .inr h
    · cases b
      · exact absurd ⟨hbool, by decide⟩ hfalse
      · exact absurd ⟨hbool, by decide⟩ htrue
  by_cases hint : value.isInteger = true
  · by_cases hcontext : type = context
    · simp only [hcontext, hint, and_self, if_true]
      exact spells_numeral (hlit.numeral_integer hint)
    · have hdouble : type = .double := hnumber.resolve_left fun hh => hcontext hh.1
      subst hdouble
      simp only [hcontext, hint, false_and, if_false, if_true]
      exact spells_numeral (hlit.numeral_integer_point hint)
  · have hint' : value.isInteger = false := by simpa using hint
    have hdouble : type = .double := hnumber.resolve_left fun hh => hint hh.2
    simp only [hint', Bool.false_eq_true, and_false, if_false, hdouble, if_true, ite_self]
    exact spells_numeral (hlit.numeral_fraction hint')

variable {style : PrintStyle}

def BlankIndent (style : PrintStyle) : Prop := style.indent.toList.all isBlank = true

lemma spells_padded (hi : BlankIndent style) (depth : ℕ) {text : String} {ks : List Spelled} (h : Spells text ks) :
    Spells (Printer.pad style depth ++ text) ks := by
  intro rest kr hr hk
  have hblank : (Printer.pad style depth).toList.all isBlank = true := by
    induction depth with
    | zero => rfl
    | succ depth ih =>
      simp only [Printer.pad, List.replicate_succ, String.join_cons, String.toList_append, List.all_append,
        Bool.and_eq_true] at ih ⊢
      exact ⟨hi, ih⟩
  rw [String.toList_append, List.append_assoc]
  exact (h hr hk).blanks hblank

end Lexer

def Expr.Finite : Expr → Prop
  | .number _ value _ => value.isFinite = true
  | _ => True

instance : DecidablePred Expr.Finite
  | .number _ value _ => inferInstanceAs (Decidable (value.isFinite = true))
  | .reference _ _ | .binary _ _ _ _ | .call _ _ _ | .cast _ _ _ | .assign _ _ _ | .string _ _
  | .conditional _ _ _ _ | .importFile _ _ => inferInstanceAs (Decidable True)

/-- A finite literal, and no `=` between two operands. -/
def Expr.Readable : Expr → Prop
  | .number _ value _ => value.isFinite = true
  | .binary _ op _ _ => op ≠ "="
  | _ => True

instance : DecidablePred Expr.Readable
  | .number _ value _ => inferInstanceAs (Decidable (value.isFinite = true))
  | .binary _ op _ _ => inferInstanceAs (Decidable (op ≠ "="))
  | .reference _ _ | .call _ _ _ | .cast _ _ _ | .assign _ _ _ | .string _ _ | .conditional _ _ _ _
  | .importFile _ _ => inferInstanceAs (Decidable True)

lemma Expr.Readable.finite : ∀ {e : Expr}, e.Readable → e.Finite
  | .number _ _ _, h => h
  | .reference _ _, _ | .binary _ _ _ _, _ | .call _ _ _, _ | .cast _ _ _, _ | .assign _ _ _, _ | .string _ _, _
  | .conditional _ _ _ _, _ | .importFile _ _, _ => trivial

namespace Lexer

lemma operatorSymbols_of_yieldsTruth {op : String} (h : yieldsTruth op = true) : op ∈ operatorSymbols := by
  simp only [yieldsTruth, comparisonSymbols, List.contains_eq_mem, decide_eq_true_eq] at h
  revert op
  decide

variable {style : PrintStyle}

mutual

lemma spells_expression (ht : style.table.Integral) (hi : BlankIndent style) (depth : ℕ) (result context : ValueType) :
    ∀ e : Expr, e.Shaped style.table result context →
    (∀ x ∈ e.parts, x.Finite) →
    Spells (Printer.expression style depth result context e) (Spelled.expression style result context e)
  | .number place value type, hs, hp => by
    rw [Printer.expression, Spelled.expression]
    exact spells_literal hs (hp (.number place value type) (by simp [Expr.parts]))
  | .reference place name, hs, hp => by
    rw [Printer.expression, Spelled.expression]
    exact fun _ _ hr hk => hk.text hr _ hs.1
  | .string place value, hs, hp => by
    rw [Printer.expression, Spelled.expression]
    exact fun _ _ _ hk => hk.string value
  | .importFile place path, hs, hp => by
    rw [Printer.expression, Spelled.expression]
    intro rest kr hr hk
    rw [String.toList_append, List.append_assoc]
    exact (hk.string path).space.text (delimited_append rfl) "import" (by decide)
  | .call place callee args, hs, hp => by
    rw [Printer.expression, Spelled.expression]
    exact spells_call hs.1.1 (spells_arguments ht hi depth result args hs.2 fun x hx => hp x (by simp [Expr.parts, hx]))
  | .cast place target value, hs, hp => by
    rw [Printer.expression, Spelled.expression]
    intro rest kr hr hk
    have hvalue := spells_expression ht hi depth result Parser.defaultType value hs fun x hx =>
      hp x (by simp [Expr.parts, hx])
    have hopen := (hvalue (delimited_append rfl) (hk.bracket ")" (by simp))).bracket "(" (by simp)
    simp only [String.toList_append, List.append_assoc, List.cons_append, List.nil_append]
    exact hopen.text (delimited_append rfl) _ (isWord_keyword target)
  | .assign place name value, hs, hp => by
    rw [Printer.expression, Spelled.expression]
    intro rest kr hr hk
    have hvalue := spells_expression ht hi depth result context value hs.2 fun x hx => hp x (by simp [Expr.parts, hx])
    have hsign := (hvalue hr hk).space.operator (delimited_append rfl) "=" (by decide)
    simp only [String.toList_append, List.append_assoc, List.cons_append]
    exact hsign.space.text (delimited_append rfl) _ hs.1.1
  | .conditional place conditions separators body, hs, hp => by
    rw [Printer.expression, Spelled.expression]
    obtain ⟨hlen, hseps, hconds, hbody⟩ := hs
    have hc := spells_conditionList ht hi depth result context conditions separators hconds hlen hseps
      fun x hx => hp x (by simp [Expr.parts, hx])
    have hss := spells_statements ht hi (depth + 1) result body hbody fun x hx => hp x (by simp [Expr.parts, hx])
    have hfirst : Spells ("if (" ++ " ".intercalate (Printer.conditionList style depth result context conditions
        separators) ++ ") \x7b")
        (Spelled.word "if" :: Spelled.punctuation "(" ::
          (Spelled.conditionList style result context conditions separators).flatten ++
            [Spelled.punctuation ")", Spelled.punctuation "\x7b"]) := by
      intro rest kr hr hk
      have hclose := (hk.bracket "\x7b" (by simp)).space.bracket ")" (by simp)
      have hopen := (spells_spaced hc (delimited_append rfl) hclose).bracket "(" (by simp)
      simp only [String.toList_append, List.append_assoc, List.cons_append, List.nil_append]
      exact hopen.space.text (delimited_append rfl) "if" (by decide)
    have hlast : Spells (Printer.pad style depth ++ "\x7d") [Spelled.punctuation "\x7d"] :=
      spells_padded hi depth fun _ _ _ hk => hk.bracket "\x7d" (by simp)
    have hlines := spells_lines (List.Forall₂.cons hfirst (List.rel_append hss (List.Forall₂.cons hlast .nil)))
    simpa only [List.flatten_cons, List.flatten_append, List.flatten_nil, List.append_nil, List.append_assoc,
      List.cons_append, List.nil_append] using hlines
  | .binary place op lhs rhs, hs, hp => by
    rw [Printer.expression, Spelled.expression]
    obtain ⟨⟨power, hpower⟩, hl, hr⟩ := hs
    exact spells_operation
      (spells_enclosed _ (spells_expression ht hi depth result context lhs hl fun x hx =>
        hp x (by simp [Expr.parts, hx])))
      (ht.hasPower hpower).1
      (spells_enclosed _ (spells_expression ht hi depth result context rhs hr fun x hx =>
        hp x (by simp [Expr.parts, hx])))

lemma spells_arguments (ht : style.table.Integral) (hi : BlankIndent style) (depth : ℕ) (result : ValueType) :
    ∀ es : List Expr, Expr.AllShaped style.table result es →
    (∀ x ∈ Expr.partsOfAll es, x.Finite) →
    List.Forall₂ Spells (Printer.arguments style depth result es) (Spelled.arguments style result es)
  | [], _, _ => by
    rw [Printer.arguments, Spelled.arguments]
    exact .nil
  | e :: es, hs, hp => by
    rw [Printer.arguments, Spelled.arguments]
    exact .cons (spells_expression ht hi depth result Parser.defaultType e hs.1 fun x hx =>
        hp x (by simp [Expr.partsOfAll, hx]))
      (spells_arguments ht hi depth result es hs.2 fun x hx => hp x (by simp [Expr.partsOfAll, hx]))

lemma spells_condition (ht : style.table.Integral) (hi : BlankIndent style) (depth : ℕ) (result context : ValueType) :
    ∀ c : Condition,
    c.Shaped style.table result context → (∀ x ∈ c.parts, x.Finite) →
    Spells (Printer.condition style depth result context c) (Spelled.condition style result context c)
  | .compare lhs op rhs, hs, hp => by
    rw [Printer.condition, Spelled.condition]
    obtain ⟨hop, hl, hr⟩ := hs
    exact spells_operation
      (spells_enclosed _ (spells_expression ht hi depth result context lhs hl fun x hx =>
        hp x (by simp [Condition.parts, hx])))
      (operatorSymbols_of_yieldsTruth hop)
      (spells_enclosed _ (spells_expression ht hi depth result context rhs hr fun x hx =>
        hp x (by simp [Condition.parts, hx])))

lemma spells_conditionList (ht : style.table.Integral) (hi : BlankIndent style) (depth : ℕ)
    (result context : ValueType) : ∀ (cs : List Condition)
    (separators : List String), Condition.AllShaped style.table result context cs →
    separators.length + 1 = cs.length → (∀ s ∈ separators, style.table.Separator s) →
    (∀ x ∈ Condition.partsOfAll cs, x.Finite) →
    List.Forall₂ Spells (Printer.conditionList style depth result context cs separators)
      (Spelled.conditionList style result context cs separators)
  | [], _, _, hlen, _, _ => by simp at hlen
  | c :: cs, separators, hs, hlen, hseps, hp => by
    rw [Printer.conditionList, Spelled.conditionList]
    exact .cons (spells_condition ht hi depth result context c hs.1 fun x hx =>
        hp x (by simp [Condition.partsOfAll, hx]))
      (spells_joined ht hi depth result context cs separators hs.2 (by simpa using hlen) hseps fun x hx =>
        hp x (by simp [Condition.partsOfAll, hx]))

lemma spells_joined (ht : style.table.Integral) (hi : BlankIndent style) (depth : ℕ) (result context : ValueType) :
    ∀ (cs : List Condition)
    (separators : List String), Condition.AllShaped style.table result context cs →
    separators.length = cs.length → (∀ s ∈ separators, style.table.Separator s) →
    (∀ x ∈ Condition.partsOfAll cs, x.Finite) →
    List.Forall₂ Spells (Printer.joined style depth result context cs separators)
      (Spelled.joined style result context cs separators)
  | [], _, _, _, _, _ => by
    rw [Printer.joined, Spelled.joined]
    · exact .nil
    · simp
  | c :: cs, [], _, hlen, _, _ => by simp at hlen
  | c :: cs, separator :: separators, hs, hlen, hseps, hp => by
    rw [Printer.joined, Spelled.joined]
    have hc := spells_condition ht hi depth result context c hs.1 fun x hx => hp x (by simp [Condition.partsOfAll, hx])
    have hsep : separator ∈ operatorSymbols := by
      rcases (hseps separator (by simp)).1 with rfl | rfl <;> decide
    refine .cons (fun rest kr hr hk => ?_)
      (spells_joined ht hi depth result context cs separators hs.2 (by simpa using hlen)
        (fun s hm => hseps s (by simp [hm])) fun x hx => hp x (by simp [Condition.partsOfAll, hx]))
    rw [String.toList_append, String.toList_append, List.append_assoc, List.append_assoc]
    exact (hc hr hk).space.operator (delimited_append rfl) separator hsep

lemma spells_statement (ht : style.table.Integral) (hi : BlankIndent style) (depth : ℕ) (result : ValueType) :
    ∀ st : Stmt, st.Shaped style.table result →
    (∀ x ∈ st.parts, x.Finite) →
    Spells (Printer.statement style depth result st) (Spelled.statement style result st)
  | .expression value, hs, hp => by
    rw [Printer.statement, Spelled.statement, String.append_assoc]
    refine spells_padded hi depth fun rest kr hr hk => ?_
    have hvalue := spells_expression ht hi depth result Parser.defaultType value hs.2 fun x hx =>
      hp x (by simp [Stmt.parts, hx])
    cases hc : Printer.isConditional value with
    | true =>
      rw [if_pos rfl, if_pos rfl, String.append_empty, List.append_nil]
      exact hvalue hr hk
    | false =>
      rw [String.toList_append, List.append_assoc, List.append_assoc]
      exact hvalue (delimited_append rfl) (hk.bracket ";" (by simp))
  | .call place callee args, hs, hp => by
    rw [Printer.statement, Spelled.statement, String.append_assoc]
    refine spells_padded hi depth fun rest kr hr hk => ?_
    have hcall := spells_call hs.1.1
      (spells_arguments ht hi depth result args hs.2 fun x hx => hp x (by simp [Stmt.parts, hx]))
    have hread := hcall (delimited_append rfl) (hk.bracket ";" (by simp))
    simp only [String.toList_append, List.append_assoc, List.cons_append, List.nil_append] at hread ⊢
    exact hread
  | .declare place type name value, hs, hp => by
    rw [Printer.statement, Spelled.statement]
    simp only [String.append_assoc]
    refine spells_padded hi depth fun rest kr hr hk => ?_
    have hvalue := spells_expression ht hi depth result type value hs.2 fun x hx => hp x (by simp [Stmt.parts, hx])
    have hsign := (hvalue (delimited_append rfl) (hk.bracket ";" (by simp))).space.operator (delimited_append rfl)
      "=" (by decide)
    have hname := hsign.space.text (delimited_append rfl) _ hs.1.1
    simp only [String.toList_append, List.append_assoc, List.cons_append, List.nil_append]
    exact hname.space.text (delimited_append rfl) _ (isWord_keyword type)
  | .ret place value, hs, hp => by
    rw [Printer.statement, Spelled.statement]
    simp only [String.append_assoc]
    refine spells_padded hi depth fun rest kr hr hk => ?_
    have hvalue := spells_expression ht hi depth result (Parser.returnContext result) value hs fun x hx =>
      hp x (by simp [Stmt.parts, hx])
    have hread := hvalue (delimited_append rfl) (hk.bracket ";" (by simp))
    simp only [String.toList_append, List.append_assoc, List.cons_append, List.nil_append]
    exact hread.space.text (delimited_append rfl) "return" (by decide)
  | .prototype signature, hs, hp => by
    rw [Printer.statement, Spelled.statement, String.append_assoc]
    refine spells_padded hi depth fun rest kr hr hk => ?_
    rw [String.toList_append, List.append_assoc, List.append_assoc]
    exact spells_prototype hs (delimited_append rfl) (hk.bracket ";" (by simp))
  | .function signature _ body, hs, hp => by
    rw [Printer.statement, Spelled.statement]
    have hss := spells_statements ht hi (depth + 1) signature.result body hs.2.2 fun x hx =>
      hp x (by simp [Stmt.parts, hx])
    have hfirst : Spells (Printer.pad style depth ++ Printer.prototype signature ++ " \x7b")
        (Spelled.prototype signature ++ [Spelled.punctuation "\x7b"]) := by
      rw [String.append_assoc]
      refine spells_padded hi depth fun rest kr hr hk => ?_
      rw [String.toList_append, List.append_assoc, List.append_assoc]
      exact spells_prototype hs.1 (delimited_append rfl) (hk.bracket "\x7b" (by simp)).space
    have hlast : Spells (Printer.pad style depth ++ "\x7d") [Spelled.punctuation "\x7d"] :=
      spells_padded hi depth fun _ _ _ hk => hk.bracket "\x7d" (by simp)
    have hlines := spells_lines (List.Forall₂.cons hfirst (List.rel_append hss (List.Forall₂.cons hlast .nil)))
    simpa only [List.flatten_cons, List.flatten_append, List.flatten_nil, List.append_nil, List.append_assoc,
      List.cons_append, List.nil_append] using hlines

lemma spells_statements (ht : style.table.Integral) (hi : BlankIndent style) (depth : ℕ) (result : ValueType) :
    ∀ ss : List Stmt, Stmt.AllShaped style.table result ss →
    (∀ x ∈ Stmt.partsOfAll ss, x.Finite) →
    List.Forall₂ Spells (Printer.statements style depth result ss) (Spelled.statements style result ss)
  | [], _, _ => by
    rw [Printer.statements, Spelled.statements]
    exact .nil
  | s :: ss, hs, hp => by
    rw [Printer.statements, Spelled.statements]
    exact .cons (spells_statement ht hi depth result s hs.1 fun x hx => hp x (by simp [Stmt.partsOfAll, hx]))
      (spells_statements ht hi depth result ss hs.2 fun x hx => hp x (by simp [Stmt.partsOfAll, hx]))

end

section Program

variable (ht : style.table.Integral) (hi : BlankIndent style)
include ht hi

lemma reads_program {p : Program} (hs : p.Shaped style.table) (hp : ∀ x ∈ p.parts, x.Finite) :
    Reads (print p style).toList (Spelled.program style p ++ [endSpelled]) := by
  have hend : Reads "\n".toList [endSpelled] := reads_nil.blank rfl
  have hlines := spells_lines (spells_statements ht hi 0 .i32 p hs hp)
  rw [print, String.toList_append]
  exact hlines (delimited_cons (by decide)) hend

lemma reads_print {p : Program} (hs : p.Shaped style.table) (hp : ∀ x ∈ p.parts, x.Readable) :
    Reads (print p style).toList (Spelled.program style p ++ [endSpelled]) :=
  reads_program ht hi hs fun x hx => (hp x hx).finite

end Program

end Lexer

end Keel
