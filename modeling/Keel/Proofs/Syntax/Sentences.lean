import Keel.Proofs.Syntax.Lexed

namespace Keel.Parser

open Grammar TokenStream

open Precedences (standard Reaches)

variable {s t : TokenStream} {op : String} {n : ℤ} {symbols : List String}

def Phrase.Spells (s t : TokenStream) : Phrase → Prop
  | .parameters _ _ => Produces .parameters s.kinds t.kinds
  | .parameterList _ _ => Produces .parameterList s.kinds t.kinds
  | .prototype _ => Produces .prototype s.next.kinds t.kinds
  | .statement _ _ => Produces .node s.kinds t.kinds
  | .body _ _ => Produces .nodes s.kinds (.punctuation "\x7d" :: t.kinds)
  | .expression _ _ _ => Produces .expression s.kinds t.kinds
  | .primary _ _ _ => Produces .primary s.kinds t.kinds
  | .arguments _ _ => Produces .arguments s.kinds t.kinds
  | .argumentList _ _ => Produces .argumentList s.kinds t.kinds
  | .climb _ _ least _ _ => ∀ n : ℤ, Floating.ExactInt n → least = .ofInt n →
      (∀ k, standard.HasPower t.head.lexeme k → k < n) ∧
        ∀ symbols, (∀ op k, standard.HasPower op k → n ≤ k → op ∈ symbols) →
          ∀ ks, Produces (.chain symbols) t.kinds ks → Produces (.chain symbols) s.kinds ks
  | .right _ _ power _ _ => ∀ n : ℤ, 0 ≤ n → n < 2 ^ 53 → power = .ofInt n →
      ∀ symbols, (∀ op k, standard.HasPower op k → n ≤ k → op ∈ symbols) →
        ∀ ks, Produces (.chain symbols) t.kinds ks → Produces (.chain symbols) s.kinds ks
  | .conditional _ _ _ => Produces .conditional (.keyword "if" :: s.next.kinds) t.kinds
  | .moreConditions _ _ _ _ => ∀ ks, Produces .condition ks s.kinds → Produces .conditions ks t.kinds
  | .condition _ _ _ => Produces .condition s.kinds t.kinds
  | .operand _ _ _ => Produces .operand s.kinds t.kinds
  | .program _ => Produces .nodes s.kinds [.endOfInput]

section Rules

variable {u v w x y : TokenStream} {name text : String} {result context : ValueType}

lemma produces_parameters_last (htext : s.Passes (.typeKeyword text) t) (hname : t.Passes (.identifier name) u) :
    Produces .parameters s.kinds u.kinds := by
  rw [htext.kinds, hname.kinds]
  exact .lastParameter

lemma produces_parameters_next (htext : s.Passes (.typeKeyword text) t) (hname : t.Passes (.identifier name) u)
    (hcomma : u.Passes (.punctuation ",") v) (hps : Produces .parameters v.kinds w.kinds) :
    Produces .parameters s.kinds w.kinds := by
  rw [htext.kinds, hname.kinds, hcomma.kinds]
  exact .nextParameter hps

lemma produces_prototype (hname : s.next.Passes (.identifier name) t) (hopen : t.Passes (.punctuation "(") u)
    (hps : Produces .parameterList u.kinds v.kinds) (hclose : v.Passes (.punctuation ")") w)
    (harrow : w.Passes (.punctuation "->") x) (htext : x.Passes (.typeKeyword text) y) :
    Produces .prototype s.next.kinds y.kinds := by
  rw [hclose.kinds, harrow.kinds, htext.kinds] at hps
  rw [hname.kinds, hopen.kinds]
  exact .prototype hps

lemma produces_hostFunction (hfn : s.head.kind = .keyword "fn") (hp : Produces .prototype s.next.kinds t.kinds)
    (hend : t.Passes (.punctuation ";") u) : Produces .node s.kinds u.kinds := by
  rw [hend.kinds] at hp
  rw [kinds_of_head (by simp [hfn]), hfn]
  exact .hostFunction hp

lemma produces_function (hfn : s.head.kind = .keyword "fn") (hp : Produces .prototype s.next.kinds t.kinds)
    (hbrace : t.Passes (.punctuation "\x7b") u) (hss : Produces .nodes u.kinds (.punctuation "\x7d" :: v.kinds)) :
    Produces .node s.kinds v.kinds := by
  rw [hbrace.kinds] at hp
  rw [kinds_of_head (by simp [hfn]), hfn]
  exact .function hp hss

lemma produces_ret (hret : s.Passes (.keyword "return") t) (he : Produces .expression t.kinds u.kinds)
    (hend : u.Passes (.punctuation ";") v) : Produces .node s.kinds v.kinds := by
  rw [hend.kinds] at he
  rw [hret.kinds]
  exact .ret he

lemma produces_ifNode (hif : s.head.kind = .keyword "if")
    (h : Produces .conditional (.keyword "if" :: s.next.kinds) t.kinds) : Produces .node s.kinds t.kinds := by
  rw [kinds_of_head (by simp [hif]), hif]
  exact .ifNode h

lemma produces_declaration (htext : s.Passes (.typeKeyword text) t) (hname : t.Passes (.identifier name) u)
    (hassign : u.Passes (.operator "=") v) (he : Produces .expression v.kinds w.kinds)
    (hend : w.Passes (.punctuation ";") x) : Produces .node s.kinds x.kinds := by
  rw [hend.kinds] at he
  rw [htext.kinds, hname.kinds, hassign.kinds]
  exact .declaration he

lemma produces_expressionNode (hs : s.Lexed) (hopens : OpensExpression s)
    (he : Produces .expression s.kinds t.kinds) (hend : t.Passes (.punctuation ";") u) :
    Produces .node s.kinds u.kinds := by
  rw [hend.kinds] at he
  refine .expressionNode (fun hif => ?_) he
  rw [hs.head?_eq] at hif
  simp [OpensExpression, Option.some.inj hif] at hopens

lemma produces_call (hname : s.Passes (.identifier name) t) (hopen : t.Passes (.punctuation "(") u)
    (hes : Produces .argumentList u.kinds v.kinds) (hclose : v.Passes (.punctuation ")") w) :
    Produces .primary s.kinds w.kinds := by
  rw [hclose.kinds] at hes
  rw [hname.kinds, hopen.kinds]
  exact .call hes

lemma produces_assign (hname : s.Passes (.identifier name) t) (hassign : t.Passes (.operator "=") u)
    (he : Produces .expression u.kinds v.kinds) : Produces .primary s.kinds v.kinds := by
  rw [hname.kinds, hassign.kinds]
  exact .assign he

lemma produces_reference (ht : t.Lexed) (hname : s.Passes (.identifier name) t)
    (hopen : t.head.kind ≠ .punctuation "(") (hassign : t.head.kind ≠ .operator "=") :
    Produces .primary s.kinds t.kinds := by
  rw [hname.kinds]
  refine .reference ?_ ?_
  · simpa [ht.head?_eq] using hopen
  · simpa [ht.head?_eq] using hassign

lemma produces_parens (hopen : s.Passes (.punctuation "(") t) (he : Produces .expression t.kinds u.kinds)
    (hclose : u.Passes (.punctuation ")") v) : Produces .primary s.kinds v.kinds := by
  rw [hclose.kinds] at he
  rw [hopen.kinds]
  exact .parens he

lemma produces_cast (htext : s.Passes (.typeKeyword text) t) (hopen : t.Passes (.punctuation "(") u)
    (he : Produces .expression u.kinds v.kinds) (hclose : v.Passes (.punctuation ")") w) :
    Produces .primary s.kinds w.kinds := by
  rw [hclose.kinds] at he
  rw [htext.kinds, hopen.kinds]
  exact .cast he

lemma produces_ifPrimary (hif : s.head.kind = .keyword "if")
    (h : Produces .conditional (.keyword "if" :: s.next.kinds) t.kinds) : Produces .primary s.kinds t.kinds := by
  rw [kinds_of_head (by simp [hif]), hif]
  exact .ifPrimary h

lemma produces_importFile {path : String} (himport : s.Passes (.keyword "import") t)
    (hpath : t.Passes (.string path) u) :
    Produces .primary s.kinds u.kinds := by
  rw [himport.kinds, hpath.kinds]
  exact .importFile

lemma produces_arguments_next (he : Produces .expression s.kinds t.kinds) (hcomma : t.Passes (.punctuation ",") u)
    (hes : Produces .arguments u.kinds v.kinds) : Produces .arguments s.kinds v.kinds := by
  rw [hcomma.kinds] at he
  exact .nextArgument he hes

lemma produces_conditional (hopen : s.next.Passes (.punctuation "(") t) {ks : List TokenKind}
    (hcs : Produces .conditions t.kinds v.kinds) (hclose : v.Passes (.punctuation ")") w)
    (hbrace : w.Passes (.punctuation "\x7b") x) (hss : Produces .nodes x.kinds (.punctuation "\x7d" :: ks)) :
    Produces .conditional (.keyword "if" :: s.next.kinds) ks := by
  rw [hclose.kinds, hbrace.kinds] at hcs
  rw [hopen.kinds]
  exact .conditional hcs hss

lemma produces_condition (hlhs : Produces .operand s.kinds t.kinds) (hop : t.Passes (.operator op) u)
    (htruth : yieldsTruth op = true) (hrhs : Produces .operand u.kinds v.kinds) :
    Produces .condition s.kinds v.kinds := by
  rw [hop.kinds] at hlhs
  exact .condition (by simpa [yieldsTruth] using htruth) hlhs hrhs

lemma spells_climbEnd {least : Double} {e : Expr} (hstops : standard.Stops least s.head.lexeme) :
    (Phrase.climb result context least e e).Spells s s := by
  refine fun n hexact hleast => ⟨fun k hk => ?_, fun symbols _ ks h => h⟩
  rwa [Precedences.Stops, Precedences.power_of_binding? hk.1, hleast, Floating.ofInt_lt hk.exact hexact,
    decide_eq_true_eq] at hstops

lemma spells_climbStep {least power : Double} {lhs first rhs e : Expr} (hs : s.Lexed)
    (hpower : standard.binding? s.head.lexeme = some power) (hleast : power.lt least = false)
    (hfirst : Produces .primary s.next.kinds t.kinds)
    (hright : (Phrase.right result context power first rhs).Spells t u)
    (hrest : (Phrase.climb result context least (.binary lhs.position s.head.lexeme lhs rhs) e).Spells u v) :
    (Phrase.climb result context least lhs e).Spells s v := by
  intro n hexact hn
  obtain ⟨-, p, rfl, hp⟩ := Precedences.integral_standard.hasPower hpower
  obtain ⟨hend, hrest⟩ := hrest n hexact hn
  have hle : n ≤ p := by
    rw [hn, Floating.ofInt_lt hp.exact hexact, decide_eq_false_iff_not] at hleast
    exact not_lt.mp hleast
  refine ⟨hend, fun symbols hsymbols ks hks => ?_⟩
  have hchain := hright p hp.2.1.le hp.2.2 rfl symbols (fun op k hk hpk => hsymbols op k hk (hle.trans hpk)) ks
    (hrest symbols hsymbols ks hks)
  rw [hs.kinds_eq, operator_of_power hs hp]
  exact .chainNext (hsymbols _ p hp hle) hfirst hchain

lemma spells_rightTighter {power : Double} {first e : Expr}
    (h : (Phrase.climb result context (Precedences.above power) first e).Spells s t) :
    (Phrase.right result context power first e).Spells s t := by
  intro n hn hn' hpower symbols hsymbols
  obtain ⟨-, hchain⟩ := h (n + 1) (Precedences.exactInt_succ hn hn')
    (by rw [hpower, Precedences.above_ofInt hn hn'])
  exact hchain symbols fun op k hk hle => hsymbols op k hk (by omega)

lemma chain_of_climb {least : Double} {first e : Expr} (hn : Reaches n symbols) (hexact : Floating.ExactInt n)
    (hleast : least = .ofInt n) (hu : u.Lexed) (h : (Phrase.climb result context least first e).Spells t u) :
    Produces (.chain symbols) t.kinds u.kinds := by
  obtain ⟨hend, hchain⟩ := h n hexact hleast
  exact hchain symbols (fun op k hk hle => (hn op).mpr ⟨k, hk, hle⟩) _ (.chainEnd ((ends_iff hu hn).mpr hend))

lemma produces_expression {first e : Expr} (hu : u.Lexed) (hfirst : Produces .primary s.kinds t.kinds)
    (h : (Phrase.climb result context (.zero false) first e).Spells t u) : Produces .expression s.kinds u.kinds :=
  have hexact := Precedences.exactInt_of_bounds le_rfl (by norm_num)
  .expression hfirst (chain_of_climb Precedences.reaches_joining hexact Floating.ofInt_zero.symm hu h)

lemma produces_operand {first e : Expr} (hu : u.Lexed) (hfirst : Produces .primary s.kinds t.kinds)
    (h : (Phrase.climb result context (Precedences.above standard.ceiling) first e).Spells t u) :
    Produces .operand s.kinds u.kinds :=
  have hexact := Precedences.exactInt_of_bounds (n := 11) (by norm_num) (by norm_num)
  .operand hfirst (chain_of_climb Precedences.reaches_tight hexact Precedences.above_ceiling hu h)

lemma spells_nextCondition {separators : List String} {c : Condition} {cs : List Condition} (hs : s.Lexed)
    (hsep : separator? s.head = some op) (hc : Produces .condition s.next.kinds t.kinds)
    (hcs : (Phrase.moreConditions result context separators cs).Spells t u) :
    (Phrase.moreConditions result context (op :: separators) (c :: cs)).Spells s u := by
  intro ks h
  obtain ⟨hkind, hop⟩ := separator_kind hsep
  rw [hs.kinds_eq, hkind] at h
  exact .nextCondition hop h (hcs _ hc)

end Rules

lemma Derives.spells {φ : Phrase} (h : Derives standard φ s t) (hs : s.Lexed) : φ.Spells s t := by
  induction h with
  | lastParameter htext _ hname _ => exact produces_parameters_last htext hname
  | nextParameter htext _ hname hcomma _ ih =>
    exact produces_parameters_next htext hname hcomma (ih (((hs.after htext).after hname).after hcomma))
  | noParameters _ => exact .noParameters
  | someParameters _ _ ih => exact .someParameters (ih hs)
  | prototype hname hopen _ hclose harrow htext _ ih =>
    exact produces_prototype hname hopen (ih ((hs.after_next hname).after hopen)) hclose harrow htext
  | hostFunction hfn _ hend ih => exact produces_hostFunction hfn (ih hs) hend
  | function hfn hp hbrace _ ihp ih =>
    exact produces_function hfn (ihp hs) hbrace (ih ((hp.lexed hs).after hbrace))
  | ret hret _ hend ih => exact produces_ret hret (ih (hs.after hret)) hend
  | ifStatement hif _ ih => exact produces_ifNode hif (ih hs)
  | declaration htext _ _ hname hassign _ hend ih =>
    exact produces_declaration htext hname hassign (ih (((hs.after htext).after hname).after hassign)) hend
  | expressionStatement hopens _ hend ih => exact produces_expressionNode hs hopens (ih hs) hend
  | bodyEnd hclose =>
    rw [Phrase.Spells, hclose.kinds]
    exact .noNodes
  | bodyNext _ _ hst _ ihs ih => exact .moreNodes (ihs hs) (ih (hst.lexed hs))
  | expression hfirst he ihp ihc =>
    have ht := hfirst.lexed hs
    exact produces_expression (he.lexed ht) (ihp hs) (ihc ht)
  | int h =>
    rw [Phrase.Spells, h.kinds]
    exact .int
  | float h =>
    rw [Phrase.Spells, h.kinds]
    exact .float
  | bool h =>
    rw [Phrase.Spells, h.kinds]
    exact .bool
  | string h =>
    rw [Phrase.Spells, h.kinds]
    exact .string
  | call hname hopen _ hclose ih => exact produces_call hname hopen (ih ((hs.after hname).after hopen)) hclose
  | assign hname hassign _ ih => exact produces_assign hname hassign (ih ((hs.after hname).after hassign))
  | reference hname hopen hassign => exact produces_reference (hs.after hname) hname hopen hassign
  | parens hopen _ hclose ih => exact produces_parens hopen (ih (hs.after hopen)) hclose
  | cast htext _ _ hopen _ hclose ih => exact produces_cast htext hopen (ih ((hs.after htext).after hopen)) hclose
  | ifPrimary hif _ ih => exact produces_ifPrimary hif (ih hs)
  | importFile himport hpath => exact produces_importFile himport hpath
  | noArguments _ => exact .noArguments
  | someArguments _ _ ih => exact .someArguments (ih hs)
  | lastArgument _ _ ih => exact .lastArgument (ih hs)
  | nextArgument he hcomma _ ihe ih =>
    exact produces_arguments_next (ihe hs) hcomma (ih ((he.lexed hs).after hcomma))
  | climbEnd hstops => exact spells_climbEnd hstops
  | climbStep hpower hleast hfirst hrhs _ ihp ihr ih =>
    obtain ⟨-, k, -, hk⟩ := Precedences.integral_standard.hasPower hpower
    have hnext := hs.next (by simp [operator_of_power hs hk])
    have ht := hfirst.lexed hnext
    exact spells_climbStep hs hpower hleast (ihp hnext) (ihr ht) (ih (hrhs.lexed ht))
  | rightPlain _ => exact fun n _ _ _ symbols _ ks h => h
  | rightTighter _ _ _ ih => exact spells_rightTighter (ih hs)
  | conditional hopen hc hcs hclose hbrace _ ihc ihm ih =>
    have ht := hs.after_next hopen
    have hu := hc.lexed ht
    exact produces_conditional hopen (ihm hu _ (ihc ht)) hclose hbrace
      (ih (((hcs.lexed hu).after hclose).after hbrace))
  | lastCondition _ => exact fun ks h => .lastCondition h
  | nextCondition hsep hc _ ihc ih =>
    have hnext := hs.next (by simp [(separator_kind hsep).1])
    exact spells_nextCondition hs hsep (ihc hnext) (ih (hc.lexed hnext))
  | condition hl hop htruth _ ihl ihr =>
    exact produces_condition (ihl hs) hop htruth (ihr ((hl.lexed hs).after hop))
  | operand hfirst he ihp ihc =>
    have ht := hfirst.lexed hs
    exact produces_operand (he.lexed ht) (ihp hs) (ihc ht)
  | programEnd hend =>
    rw [Phrase.Spells, hs.kinds_end hend]
    exact .noNodes
  | programNext _ hst _ ihs ih => exact .moreNodes (ihs hs) (ih (hst.lexed hs))

end Keel.Parser
