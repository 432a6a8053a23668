import Keel.Proofs.Syntax.Lexed

namespace Keel

inductive Part where
  | expression (e : Expr)
  | argumentList (es : List Expr)
  | arguments (es : List Expr)
  | condition (c : Condition)
  | moreConditions (separators : List String) (cs : List Condition)
  | prototype (p : Prototype)
  | parameterList (types : List ValueType) (names : List String)
  | parameters (types : List ValueType) (names : List String)
  | statement (st : Stmt)
  | statements (ss : List Stmt)

/-- The part is written as these tokens. Whatever begins with a token of its own stands where that token does,
and an operation where its left operand does. -/
inductive WrittenAs : Part → List Token → Prop
  | int {t : Token} {value type} : t.kind = .int value → WrittenAs (.expression (.number t.position value type)) [t]
  | float {t : Token} {value} : t.kind = .float value → WrittenAs (.expression (.number t.position value .double)) [t]
  | bool {t : Token} {value : Bool} : t.kind = .bool value →
      WrittenAs (.expression (.number t.position (.ofInt value.toInt) .bool)) [t]
  | string {t : Token} {value} : t.kind = .string value → WrittenAs (.expression (.string t.position value)) [t]
  | reference {t : Token} {name} : t.kind = .identifier name → WrittenAs (.expression (.reference t.position name)) [t]
  | importFile {t u : Token} {path} : t.kind = .keyword "import" → u.kind = .string path →
      WrittenAs (.expression (.importFile t.position path)) [t, u]
  | parens {l r : Token} {e ts} : l.kind = .punctuation "(" → WrittenAs (.expression e) ts → r.kind = .punctuation ")" →
      WrittenAs (.expression e) (l :: (ts ++ [r]))
  | binary {t : Token} {op lhs rhs ls rs} : WrittenAs (.expression lhs) ls → t.kind = .operator op →
      op ∈ joiningSymbols → WrittenAs (.expression rhs) rs →
      WrittenAs (.expression (.binary lhs.position op lhs rhs)) (ls ++ t :: rs)
  | call {t l r : Token} {name es ts} : t.kind = .identifier name → l.kind = .punctuation "(" →
      WrittenAs (.argumentList es) ts → r.kind = .punctuation ")" →
      WrittenAs (.expression (.call t.position name es)) (t :: l :: (ts ++ [r]))
  | cast {t l r : Token} {type : ValueType} {e ts} : t.kind = .typeKeyword type.keyword → l.kind = .punctuation "(" →
      WrittenAs (.expression e) ts → r.kind = .punctuation ")" →
      WrittenAs (.expression (.cast t.position type e)) (t :: l :: (ts ++ [r]))
  | assign {t u : Token} {name e ts} : t.kind = .identifier name → u.kind = .operator "=" →
      WrittenAs (.expression e) ts → WrittenAs (.expression (.assign t.position name e)) (t :: u :: ts)
  | conditional {t l r b d : Token} {c separators cs ss ts us vs} : t.kind = .keyword "if" →
      l.kind = .punctuation "(" → WrittenAs (.condition c) ts → WrittenAs (.moreConditions separators cs) us →
      r.kind = .punctuation ")" → b.kind = .punctuation "\x7b" → WrittenAs (.statements ss) vs →
      d.kind = .punctuation "\x7d" → WrittenAs (.expression (.conditional t.position (c :: cs) separators ss))
        (t :: l :: (ts ++ us ++ r :: b :: (vs ++ [d])))
  | noArguments : WrittenAs (.argumentList []) []
  | someArguments {es ts} : WrittenAs (.arguments es) ts → WrittenAs (.argumentList es) ts
  | lastArgument {e ts} : WrittenAs (.expression e) ts → WrittenAs (.arguments [e]) ts
  | nextArgument {t : Token} {e es ts us} : WrittenAs (.expression e) ts → t.kind = .punctuation "," →
      WrittenAs (.arguments es) us → WrittenAs (.arguments (e :: es)) (ts ++ t :: us)
  | condition {t : Token} {op lhs rhs ls rs} : WrittenAs (.expression lhs) ls → t.kind = .operator op →
      yieldsTruth op = true → WrittenAs (.expression rhs) rs →
      WrittenAs (.condition (.compare lhs op rhs)) (ls ++ t :: rs)
  | lastCondition : WrittenAs (.moreConditions [] []) []
  | nextCondition {t : Token} {separator separators c cs ts us} : t.kind = .operator separator →
      separator ∈ separatorSymbols → WrittenAs (.condition c) ts → WrittenAs (.moreConditions separators cs) us →
      WrittenAs (.moreConditions (separator :: separators) (c :: cs)) (t :: (ts ++ us))
  | prototype {t n l r a y : Token} {name types names ts} {result : ValueType} : t.kind = .keyword "fn" →
      n.kind = .identifier name → l.kind = .punctuation "(" → WrittenAs (.parameterList types names) ts →
      r.kind = .punctuation ")" → a.kind = .punctuation "->" → y.kind = .typeKeyword result.keyword →
      WrittenAs (.prototype ⟨t.position, name, names, types, result⟩) (t :: n :: l :: (ts ++ [r, a, y]))
  | noParameters : WrittenAs (.parameterList [] []) []
  | someParameters {types names ts} : WrittenAs (.parameters types names) ts →
      WrittenAs (.parameterList types names) ts
  | lastParameter {y n : Token} {type : ValueType} {name} : y.kind = .typeKeyword type.keyword →
      n.kind = .identifier name → WrittenAs (.parameters [type] [name]) [y, n]
  | nextParameter {y n t : Token} {type : ValueType} {name types names ts} : y.kind = .typeKeyword type.keyword →
      n.kind = .identifier name → t.kind = .punctuation "," → WrittenAs (.parameters types names) ts →
      WrittenAs (.parameters (type :: types) (name :: names)) (y :: n :: t :: ts)
  | hostFunction {t : Token} {p ts} : WrittenAs (.prototype p) ts → t.kind = .punctuation ";" →
      WrittenAs (.statement (.prototype p)) (ts ++ [t])
  | function {b d : Token} {p ss ts us} : WrittenAs (.prototype p) ts → b.kind = .punctuation "\x7b" →
      WrittenAs (.statements ss) us → d.kind = .punctuation "\x7d" →
      WrittenAs (.statement (.function p p.parameterTypes ss)) (ts ++ b :: (us ++ [d]))
  | ret {t u : Token} {e ts} : t.kind = .keyword "return" → WrittenAs (.expression e) ts → u.kind = .punctuation ";" →
      WrittenAs (.statement (.ret t.position e)) (t :: (ts ++ [u]))
  | ifStatement {t : Token} {place conditions separators ss ts} : t.kind = .keyword "if" →
      WrittenAs (.expression (.conditional place conditions separators ss)) (t :: ts) →
      WrittenAs (.statement (.expression (.conditional place conditions separators ss))) (t :: ts)
  | declaration {y n t u : Token} {type : ValueType} {name e ts} : y.kind = .typeKeyword type.keyword →
      n.kind = .identifier name → t.kind = .operator "=" → WrittenAs (.expression e) ts → u.kind = .punctuation ";" →
      WrittenAs (.statement (.declare y.position type name e)) (y :: n :: t :: (ts ++ [u]))
  | expressionStatement {t : Token} {e ts} : WrittenAs (.expression e) ts → t.kind = .punctuation ";" →
      WrittenAs (.statement (Parser.statementOf e)) (ts ++ [t])
  | noStatements : WrittenAs (.statements []) []
  | moreStatements {st ss ts us} : WrittenAs (.statement st) ts → WrittenAs (.statements ss) us →
      WrittenAs (.statements (st :: ss)) (ts ++ us)

def TokenStream.Reads (s : TokenStream) (part : Part) (t : TokenStream) : Prop :=
  ∃ ts, s.rest = ts ++ t.rest ∧ WrittenAs part ts

namespace Parser

open TokenStream

open Precedences (standard)

variable {s t : TokenStream}

def Phrase.Writes (s t : TokenStream) : Phrase → Prop
  | .parameters types names => s.Reads (.parameters types names) t
  | .parameterList types names => s.Reads (.parameterList types names) t
  | .prototype p => s.head.kind = .keyword "fn" → s.Reads (.prototype p) t
  | .statement _ st => s.Reads (.statement st) t
  | .body _ ss => ∃ ts d, s.rest = ts ++ d :: t.rest ∧ WrittenAs (.statements ss) ts ∧ d.kind = .punctuation "\x7d"
  | .expression _ _ e | .primary _ _ e | .operand _ _ e => s.Reads (.expression e) t
  | .arguments _ es => s.Reads (.arguments es) t
  | .argumentList _ es => s.Reads (.argumentList es) t
  | .climb _ _ _ lhs e | .right _ _ _ lhs e =>
    ∀ ls, WrittenAs (.expression lhs) ls → ∃ ts, s.rest = ts ++ t.rest ∧ WrittenAs (.expression e) (ls ++ ts)
  | .conditional _ _ e => s.head.kind = .keyword "if" → ∃ place conditions separators ss ts,
    e = .conditional place conditions separators ss ∧ s.rest = s.head :: ts ++ t.rest ∧
      WrittenAs (.expression e) (s.head :: ts)
  | .moreConditions _ _ separators cs => s.Reads (.moreConditions separators cs) t
  | .condition _ _ c => s.Reads (.condition c) t
  | .program p => ∃ ts last, s.rest = ts ++ [last] ∧ WrittenAs (.statements p) ts

section Rules

variable {u v w x y : TokenStream} {name text : String} {result context type : ValueType} {types : List ValueType}
  {names : List String} {e lhs first rhs : Expr} {es : List Expr} {ss : List Stmt}

lemma typeKeyword_head (hs : s.Passes (.typeKeyword text) t) (h : ValueType.ofKeyword? text = some type) :
    s.head.kind = .typeKeyword type.keyword := by
  rw [hs.1, Lexer.eq_keyword_of_ofKeyword? h]

lemma reads_parameters_last (htext : s.Passes (.typeKeyword text) t) (htype : ValueType.ofKeyword? text = some type)
    (hname : t.Passes (.identifier name) u) : s.Reads (.parameters [type] [name]) u :=
  ⟨[s.head, t.head], by rw [htext.rest, hname.rest]; rfl, .lastParameter (typeKeyword_head htext htype) hname.1⟩

lemma reads_parameters_next (htext : s.Passes (.typeKeyword text) t) (htype : ValueType.ofKeyword? text = some type)
    (hname : t.Passes (.identifier name) u) (hcomma : u.Passes (.punctuation ",") v)
    (h : v.Reads (.parameters types names) w) : s.Reads (.parameters (type :: types) (name :: names)) w := by
  obtain ⟨ts, hts, hps⟩ := h
  refine ⟨s.head :: t.head :: u.head :: ts, ?_,
    .nextParameter (typeKeyword_head htext htype) hname.1 hcomma.1 hps⟩
  rw [htext.rest, hname.rest, hcomma.rest, hts]
  rfl

lemma reads_prototype (hfn : s.head.kind = .keyword "fn") (hname : s.next.Passes (.identifier name) t)
    (hopen : t.Passes (.punctuation "(") u) (h : u.Reads (.parameterList types names) v)
    (hclose : v.Passes (.punctuation ")") w) (harrow : w.Passes (.punctuation "->") x)
    (htext : x.Passes (.typeKeyword text) y) (htype : ValueType.ofKeyword? text = some result) :
    s.Reads (.prototype ⟨s.head.position, name, names, types, result⟩) y := by
  obtain ⟨ts, hts, hps⟩ := h
  refine ⟨_, ?_, .prototype hfn hname.1 hopen.1 hps hclose.1 harrow.1 (typeKeyword_head htext htype)⟩
  simp [rest_of_head (s := s) (by simp [hfn]), hname.rest, hopen.rest, hts, hclose.rest, harrow.rest, htext.rest]

lemma reads_hostFunction {p : Prototype} (h : s.Reads (.prototype p) t) (hend : t.Passes (.punctuation ";") u) :
    s.Reads (.statement (.prototype p)) u := by
  obtain ⟨ts, hts, hp⟩ := h
  exact ⟨_, by simp [hts, hend.rest], .hostFunction hp hend.1⟩

lemma reads_function {p : Prototype} (h : s.Reads (.prototype p) t) (hbrace : t.Passes (.punctuation "\x7b") u)
    (hss : (Phrase.body p.result ss).Writes u v) : s.Reads (.statement (.function p p.parameterTypes ss)) v := by
  obtain ⟨ts, hts, hp⟩ := h
  obtain ⟨us, d, hus, hss, hclose⟩ := hss
  exact ⟨_, by simp [hts, hbrace.rest, hus], .function hp hbrace.1 hss hclose⟩

lemma reads_ret (hret : s.Passes (.keyword "return") t) (h : t.Reads (.expression e) u)
    (hend : u.Passes (.punctuation ";") v) : s.Reads (.statement (.ret s.head.position e)) v := by
  obtain ⟨ts, hts, he⟩ := h
  exact ⟨_, by simp [hret.rest, hts, hend.rest], .ret hret.1 he hend.1⟩

lemma reads_declaration (htext : s.Passes (.typeKeyword text) t) (htype : ValueType.ofKeyword? text = some type)
    (hname : t.Passes (.identifier name) u) (hassign : u.Passes (.operator "=") v) (h : v.Reads (.expression e) w)
    (hend : w.Passes (.punctuation ";") x) : s.Reads (.statement (.declare s.head.position type name e)) x := by
  obtain ⟨ts, hts, he⟩ := h
  exact ⟨_, by simp [htext.rest, hname.rest, hassign.rest, hts, hend.rest],
    .declaration (typeKeyword_head htext htype) hname.1 hassign.1 he hend.1⟩

lemma reads_expressionStatement (h : s.Reads (.expression e) t) (hend : t.Passes (.punctuation ";") u) :
    s.Reads (.statement (statementOf e)) u := by
  obtain ⟨ts, hts, he⟩ := h
  exact ⟨_, by simp [hts, hend.rest], .expressionStatement he hend.1⟩

lemma writes_bodyNext {st : Stmt} (h : s.Reads (.statement st) t) (hss : (Phrase.body result ss).Writes t u) :
    (Phrase.body result (st :: ss)).Writes s u := by
  obtain ⟨ts, hts, hst⟩ := h
  obtain ⟨us, d, hus, hss, hclose⟩ := hss
  exact ⟨_, d, by simp [hts, hus], .moreStatements hst hss, hclose⟩

lemma writes_programNext {st : Stmt} {p : Program} (h : s.Reads (.statement st) t)
    (hp : (Phrase.program p).Writes t u) : (Phrase.program (st :: p)).Writes s u := by
  obtain ⟨ts, hts, hst⟩ := h
  obtain ⟨us, last, hus, hp⟩ := hp
  exact ⟨_, last, by rw [hts, hus, List.append_assoc], .moreStatements hst hp⟩

lemma reads_call (hname : s.Passes (.identifier name) t) (hopen : t.Passes (.punctuation "(") u)
    (h : u.Reads (.argumentList es) v) (hclose : v.Passes (.punctuation ")") w) :
    s.Reads (.expression (.call s.head.position name es)) w := by
  obtain ⟨ts, hts, hes⟩ := h
  exact ⟨_, by simp [hname.rest, hopen.rest, hts, hclose.rest], .call hname.1 hopen.1 hes hclose.1⟩

lemma reads_assign (hname : s.Passes (.identifier name) t) (hassign : t.Passes (.operator "=") u)
    (h : u.Reads (.expression e) v) : s.Reads (.expression (.assign s.head.position name e)) v := by
  obtain ⟨ts, hts, he⟩ := h
  exact ⟨_, by simp [hname.rest, hassign.rest, hts], .assign hname.1 hassign.1 he⟩

lemma reads_parens (hopen : s.Passes (.punctuation "(") t) (h : t.Reads (.expression e) u)
    (hclose : u.Passes (.punctuation ")") v) : s.Reads (.expression e) v := by
  obtain ⟨ts, hts, he⟩ := h
  exact ⟨_, by simp [hopen.rest, hts, hclose.rest], .parens hopen.1 he hclose.1⟩

lemma reads_cast (htext : s.Passes (.typeKeyword text) t) (htype : ValueType.ofKeyword? text = some type)
    (hopen : t.Passes (.punctuation "(") u) (h : u.Reads (.expression e) v) (hclose : v.Passes (.punctuation ")") w) :
    s.Reads (.expression (.cast s.head.position type e)) w := by
  obtain ⟨ts, hts, he⟩ := h
  exact ⟨_, by simp [htext.rest, hopen.rest, hts, hclose.rest],
    .cast (typeKeyword_head htext htype) hopen.1 he hclose.1⟩

lemma reads_importFile {path : String} (himport : s.Passes (.keyword "import") t) (hpath : t.Passes (.string path) u) :
    s.Reads (.expression (.importFile s.head.position path)) u :=
  ⟨[s.head, t.head], by rw [himport.rest, hpath.rest]; rfl, .importFile himport.1 hpath.1⟩

lemma reads_arguments_next (h : s.Reads (.expression e) t) (hcomma : t.Passes (.punctuation ",") u)
    (hes : u.Reads (.arguments es) v) : s.Reads (.arguments (e :: es)) v := by
  obtain ⟨ts, hts, he⟩ := h
  obtain ⟨us, hus, hes⟩ := hes
  exact ⟨_, by simp [hts, hcomma.rest, hus], .nextArgument he hcomma.1 hes⟩

lemma reads_of_climb {least : Double} (hfirst : s.Reads (.expression first) t)
    (he : (Phrase.climb result context least first e).Writes t u) : s.Reads (.expression e) u := by
  obtain ⟨ls, hls, hfirst⟩ := hfirst
  obtain ⟨ts, hts, he⟩ := he ls hfirst
  exact ⟨ls ++ ts, by rw [hls, hts, List.append_assoc], he⟩

lemma writes_nothing {ls : List Token} (h : WrittenAs (.expression e) ls) :
    ∃ ts, s.rest = ts ++ s.rest ∧ WrittenAs (.expression e) (ls ++ ts) := ⟨[], rfl, by simpa using h⟩

lemma writes_climbStep {least own : Double} {k : ℤ} (hs : s.Lexed)
    (hk : standard.HasPower s.head.lexeme k) (hfirst : s.next.Reads (.expression first) t)
    (hrhs : (Phrase.right result context own first rhs).Writes t u)
    (he : (Phrase.climb result context least (.binary lhs.position s.head.lexeme lhs rhs) e).Writes u v) :
    (Phrase.climb result context least lhs e).Writes s v := by
  intro ls hlhs
  obtain ⟨fs, hfs, hfirst⟩ := hfirst
  obtain ⟨rs, hrs, hrhs⟩ := hrhs fs hfirst
  obtain ⟨ts, hts, he⟩ := he _ (.binary hlhs (operator_of_power hs hk) hk.joining hrhs)
  exact ⟨s.head :: (fs ++ rs ++ ts), by simp [hs.rest_eq, hfs, hrs, hts], by simpa using he⟩

lemma writes_conditional {c : Condition} {separators : List String} {cs : List Condition}
    (hopen : s.next.Passes (.punctuation "(") t) (hc : t.Reads (.condition c) u)
    (hcs : u.Reads (.moreConditions separators cs) v) (hclose : v.Passes (.punctuation ")") w)
    (hbrace : w.Passes (.punctuation "\x7b") x) (hss : (Phrase.body result ss).Writes x y) :
    (Phrase.conditional result context (.conditional s.head.position (c :: cs) separators ss)).Writes s y := by
  intro hif
  obtain ⟨ts, hts, hc⟩ := hc
  obtain ⟨us, hus, hcs⟩ := hcs
  obtain ⟨vs, d, hvs, hss, hend⟩ := hss
  refine ⟨_, _, _, _, _, rfl, ?_, .conditional hif hopen.1 hc hcs hclose.1 hbrace.1 hss hend⟩
  simp [rest_of_head (s := s) (by simp [hif]), hopen.rest, hts, hus, hclose.rest, hbrace.rest, hvs]

lemma reads_moreConditions_next {separator : String} {c : Condition} {separators : List String}
    {cs : List Condition} (hs : s.Lexed) (hsep : separator? s.head = some separator)
    (hc : s.next.Reads (.condition c) t) (hcs : t.Reads (.moreConditions separators cs) u) :
    s.Reads (.moreConditions (separator :: separators) (c :: cs)) u := by
  obtain ⟨hkind, hsymbol⟩ := separator_kind hsep
  obtain ⟨ts, hts, hc⟩ := hc
  obtain ⟨us, hus, hcs⟩ := hcs
  exact ⟨_, by simp [hs.rest_eq, hts, hus], .nextCondition hkind hsymbol hc hcs⟩

lemma reads_condition {op : String} (hlhs : s.Reads (.expression lhs) t) (hop : t.Passes (.operator op) u)
    (htruth : yieldsTruth op = true) (hrhs : u.Reads (.expression rhs) v) :
    s.Reads (.condition (.compare lhs op rhs)) v := by
  obtain ⟨ls, hls, hlhs⟩ := hlhs
  obtain ⟨rs, hrs, hrhs⟩ := hrhs
  exact ⟨_, by simp [hls, hop.rest, hrs], .condition hlhs hop.1 htruth hrhs⟩

end Rules

lemma Derives.writes {φ : Phrase} (h : Derives standard φ s t) (hs : s.Lexed) : φ.Writes s t := by
  induction h with
  | lastParameter htext htype hname _ => exact reads_parameters_last htext htype hname
  | nextParameter htext htype hname hcomma _ ih =>
    exact reads_parameters_next htext htype hname hcomma (ih (((hs.after htext).after hname).after hcomma))
  | noParameters _ => exact ⟨[], rfl, .noParameters⟩
  | someParameters _ _ ih =>
    obtain ⟨ts, hts, hps⟩ := ih hs
    exact ⟨ts, hts, .someParameters hps⟩
  | prototype hname hopen _ hclose harrow htext htype ih =>
    have hps := ih ((hs.after_next hname).after hopen)
    exact fun hfn => reads_prototype hfn hname hopen hps hclose harrow htext htype
  | hostFunction hfn _ hend ih => exact reads_hostFunction (ih hs hfn) hend
  | function hfn hp hbrace _ ihp ih => exact reads_function (ihp hs hfn) hbrace (ih ((hp.lexed hs).after hbrace))
  | ret hret _ hend ih => exact reads_ret hret (ih (hs.after hret)) hend
  | ifStatement hif _ ih =>
    obtain ⟨_, _, _, _, ts, rfl, hts, he⟩ := ih hs hif
    exact ⟨_, hts, .ifStatement hif he⟩
  | declaration htext _ htype hname hassign _ hend ih =>
    exact reads_declaration htext htype hname hassign (ih (((hs.after htext).after hname).after hassign)) hend
  | expressionStatement _ _ hend ih => exact reads_expressionStatement (ih hs) hend
  | bodyEnd hclose => exact ⟨[], _, hclose.rest, .noStatements, hclose.1⟩
  | bodyNext _ _ hst _ ihs ih => exact writes_bodyNext (ihs hs) (ih (hst.lexed hs))
  | expression hfirst _ ihp ihc | operand hfirst _ ihp ihc => exact reads_of_climb (ihp hs) (ihc (hfirst.lexed hs))
  | int h => exact ⟨[_], h.rest, .int h.1⟩
  | float h => exact ⟨[_], h.rest, .float h.1⟩
  | bool h => exact ⟨[_], h.rest, .bool h.1⟩
  | string h => exact ⟨[_], h.rest, .string h.1⟩
  | call hname hopen _ hclose ih => exact reads_call hname hopen (ih ((hs.after hname).after hopen)) hclose
  | assign hname hassign _ ih => exact reads_assign hname hassign (ih ((hs.after hname).after hassign))
  | reference hname _ _ => exact ⟨[_], hname.rest, .reference hname.1⟩
  | parens hopen _ hclose ih => exact reads_parens hopen (ih (hs.after hopen)) hclose
  | cast htext _ htype hopen _ hclose ih =>
    exact reads_cast htext htype hopen (ih ((hs.after htext).after hopen)) hclose
  | ifPrimary hif _ ih =>
    obtain ⟨_, _, _, _, ts, -, hts, he⟩ := ih hs hif
    exact ⟨_, hts, he⟩
  | importFile himport hpath => exact reads_importFile himport hpath
  | noArguments _ => exact ⟨[], rfl, .noArguments⟩
  | someArguments _ _ ih =>
    obtain ⟨ts, hts, hes⟩ := ih hs
    exact ⟨ts, hts, .someArguments hes⟩
  | lastArgument _ _ ih =>
    obtain ⟨ts, hts, he⟩ := ih hs
    exact ⟨ts, hts, .lastArgument he⟩
  | nextArgument he hcomma _ ihe ih =>
    exact reads_arguments_next (ihe hs) hcomma (ih ((he.lexed hs).after hcomma))
  | climbEnd _ | rightPlain _ => exact fun _ h => writes_nothing h
  | climbStep hown _ hfirst hrhs _ ihp ihr ih =>
    obtain ⟨-, k, -, hk⟩ := Precedences.integral_standard.hasPower hown
    have hnext := hs.next (by simp [operator_of_power hs hk])
    have ht := hfirst.lexed hnext
    exact writes_climbStep hs hk (ihp hnext) (ihr ht) (ih (hrhs.lexed ht))
  | rightTighter _ _ _ ih => exact ih hs
  | conditional hopen hc hcs hclose hbrace _ ihc ihm ih =>
    have ht := hs.after_next hopen
    have hu := hc.lexed ht
    exact writes_conditional hopen (ihc ht) (ihm hu) hclose hbrace (ih (((hcs.lexed hu).after hclose).after hbrace))
  | lastCondition _ => exact ⟨[], rfl, .lastCondition⟩
  | nextCondition hsep hc _ ihc ih =>
    have hnext := hs.next (by simp [(separator_kind hsep).1])
    exact reads_moreConditions_next hs hsep (ihc hnext) (ih (hc.lexed hnext))
  | condition hl hop htruth _ ihl ihr => exact reads_condition (ihl hs) hop htruth (ihr ((hl.lexed hs).after hop))
  | programEnd hend => exact ⟨[], _, hs.next_rest_nil hend ▸ hs.rest_eq, .noStatements⟩
  | programNext _ hst _ ihs ih => exact writes_programNext (ihs hs) (ih (hst.lexed hs))

end Parser

lemma parseText_written {source : String} {p : Program} (h : parseText source .standard = .ok p) :
    ∃ tokens last, lex source = .ok (tokens ++ [.endOfInput last]) ∧ WrittenAs (.statements p) tokens := by
  obtain ⟨all, hlex, hparse⟩ := parseText_ok.mp h
  obtain ⟨tokens, last, rfl, -⟩ := lex_lexemes hlex
  obtain ⟨t, ht⟩ := Parser.parse_sound hparse
  obtain ⟨ts, last', hts, hp⟩ := ht.writes (TokenStream.lexed_ofTokens hlex)
  obtain ⟨rfl, -⟩ := List.append_inj' hts rfl
  exact ⟨tokens, last, hlex, hp⟩

end Keel
