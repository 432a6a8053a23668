import Keel.Proofs.Syntax.Sentences

/-! The parser accepts the sentences of the grammar and nothing else. -/

namespace Keel

open Grammar

open TokenKind (Inner)

namespace Parser

open TokenStream

open Precedences (standard Reaches)

variable {s t : TokenStream} {op : String} {n k : ℤ} {symbols : List String}

def OpensPrimary (s : TokenStream) : Prop :=
  match s.head.kind with
  | .int _ | .float _ | .bool _ | .string _ | .identifier _ | .punctuation "(" | .keyword "if"
  | .keyword "import" => True
  | .typeKeyword _ => (s.look 1).kind = .punctuation "("
  | _ => False

lemma OpensPrimary.opensExpression (h : OpensPrimary s) (hif : s.head.kind ≠ .keyword "if") :
    OpensExpression s := by
  unfold OpensPrimary at h
  unfold OpensExpression
  split at h <;> simp_all

lemma OpensPrimary.head_ne (h : OpensPrimary s) : s.head.kind ≠ .endOfInput ∧
    ∀ symbol ∈ [")", "\x7d", ","], s.head.kind ≠ .punctuation symbol := by
  unfold OpensPrimary at h
  split at h <;> simp_all

inductive Chained (symbols : List String) : ℕ → TokenStream → TokenStream → Prop
  | none {s : TokenStream} : Chained symbols 0 s s
  | more {n : ℕ} {s t u : TokenStream} : s.head.lexeme ∈ symbols →
      (∀ result context, ∃ e, Derives standard (.primary result context e) s.next t) →
      Chained symbols n t u → Chained symbols (n + 1) s u

lemma Chained.climb {count : ℕ} {m : ℤ} (h : Chained symbols count s t) (hm : Reaches m symbols)
    (ht : ∀ k, standard.HasPower t.head.lexeme k → k < m) (hn : Floating.ExactInt n) (hn' : 0 ≤ n) (hmn : m ≤ n) :
    ∃ u left, left ≤ count ∧ Chained symbols left u t ∧ (∀ k, standard.HasPower u.head.lexeme k → k < n) ∧
      ∀ result context lhs, ∃ e, Derives standard (.climb result context (.ofInt n) lhs e) s u := by
  have hint := Precedences.integral_standard
  induction count using Nat.strong_induction_on generalizing s n with
  | _ count ih =>
    cases h with
    | none =>
      have hend : ∀ k, standard.HasPower t.head.lexeme k → k < n := fun k hk => (ht k hk).trans_le hmn
      exact ⟨t, 0, le_rfl, .none, hend, fun _ _ lhs => ⟨lhs, .climbEnd (hint.whole.stops_ofInt hn hn' hend)⟩⟩
    | @more count _ v _ hop hprimary hchained =>
      obtain ⟨p, hp, hmp⟩ := (hm _).mp hop
      by_cases hpn : p < n
      · have hend : ∀ k, standard.HasPower s.head.lexeme k → k < n := fun k hk => hk.unique hp ▸ hpn
        exact ⟨s, count + 1, le_rfl, .more hop hprimary hchained, hend,
          fun _ _ lhs => ⟨lhs, .climbEnd (hint.whole.stops_ofInt hn hn' hend)⟩⟩
      · have hsucc := Precedences.exactInt_succ hp.2.1.le hp.2.2
        -- the right operand takes what binds tighter than the operator
        obtain ⟨w, middle, hmiddle, hw, -, hright⟩ := ih count (by omega) hchained hsucc (by omega) (by omega)
        obtain ⟨u, left, hleft, hu, hend, hrest⟩ := ih middle (by omega) hw hn hn' hmn
        refine ⟨u, left, by omega, hu, hend, fun result context lhs => ?_⟩
        obtain ⟨first, hfirst⟩ := hprimary result context
        obtain ⟨rhs, hrhs⟩ := hright result context first
        obtain ⟨e, he⟩ := hrest result context (.binary lhs.position s.head.lexeme lhs rhs)
        refine ⟨e, .climbStep hp.1 ?_ hfirst (right_of_climb hint.whole hp hrhs) he⟩
        rw [Floating.ofInt_lt hp.exact hn]
        exact decide_eq_false hpn

lemma Chained.climb_all {count : ℕ} (h : Chained symbols count s t) (hn : Reaches n symbols)
    (hexact : Floating.ExactInt n) (hn' : 0 ≤ n) (ht : t.Lexed) (hends : Grammar.Ends symbols t.kinds)
    (result context : ValueType) (lhs : Expr) :
    ∃ e, Derives standard (.climb result context (.ofInt n) lhs e) s t := by
  obtain ⟨u, left, -, hleft, hend, hclimb⟩ := h.climb hn ((ends_iff ht hn).mp hends) hexact hn' le_rfl
  cases hleft with
  | none => exact hclimb result context lhs
  | more hop _ _ =>
    obtain ⟨k, hk, hle⟩ := (hn _).mp hop
    exact absurd (hend k hk) (not_lt.mpr hle)

def Reading (s t : TokenStream) : Nonterminal → Prop
  | .nodes => ∀ result,
      (∀ ss u, Derives standard (.body result ss) t u → ∃ ss', Derives standard (.body result ss') s u) ∧
        (result = defaultType →
          ∀ p u, Derives standard (.program p) t u → ∃ p', Derives standard (.program p') s u)
  | .node => s.head.kind ≠ .punctuation "\x7d" ∧ s.head.kind ≠ .endOfInput ∧
      ∀ result, ∃ st, Derives standard (.statement result st) s t
  | .prototype => ∀ before : TokenStream, before.next = s → ∃ p, Derives standard (.prototype p) before t
  | .parameterList => t.head.kind = .punctuation ")" →
      ∃ types names, Derives standard (.parameterList types names) s t
  | .parameters => s.head.kind ≠ .punctuation ")" ∧
      (t.head.kind ≠ .punctuation "," → ∃ types names, Derives standard (.parameters types names) s t)
  | .expression => OpensPrimary s ∧ ∀ result context, ∃ e, Derives standard (.expression result context e) s t
  | .primary => OpensPrimary s ∧ ∀ result context, ∃ e, Derives standard (.primary result context e) s t
  | .chain symbols => Grammar.Ends symbols t.kinds ∧ ∃ count, Chained symbols count s t
  | .argumentList => t.head.kind = .punctuation ")" → ∀ result, ∃ es, Derives standard (.argumentList result es) s t
  | .arguments => OpensPrimary s ∧
      (t.head.kind ≠ .punctuation "," → ∀ result, ∃ es, Derives standard (.arguments result es) s t)
  | .conditional => s.head.kind = .keyword "if" ∧
      ∀ result context, ∃ e, Derives standard (.conditional result context e) s t
  | .conditions => separator? t.head = none → ∀ result context, ∃ u c separators cs,
      Derives standard (.condition result context c) s u ∧
        Derives standard (.moreConditions result context separators cs) u t
  | .condition => ∀ result context, ∃ c, Derives standard (.condition result context c) s t
  | .operand => ∀ result context, ∃ e, Derives standard (.operand result context e) s t

def Takes (x : Nonterminal) (ks ls : List TokenKind) : Prop :=
  ∀ s : TokenStream, s.Lexed → s.kinds = ks → ∃ t, t.Lexed ∧ t.kinds = ls ∧ Reading s t x

section Productions

variable {ks ls ms : List TokenKind} {name text : String}

lemma takes_noNodes : Takes .nodes ks ks :=
  fun s hs hks => ⟨s, hs, hks, fun _ => ⟨fun ss _ h => ⟨ss, h⟩, fun _ p _ h => ⟨p, h⟩⟩⟩

lemma takes_moreNodes (hnode : Takes .node ks ls) (hnodes : Takes .nodes ls ms) : Takes .nodes ks ms := by
  intro s hs hks
  obtain ⟨t, ht, htk, hclose, hend, hnode⟩ := hnode s hs hks
  obtain ⟨u, hu, huk, hnodes⟩ := hnodes t ht htk
  refine ⟨u, hu, huk, fun result => ?_⟩
  obtain ⟨st, hst⟩ := hnode result
  obtain ⟨hbody, hprogram⟩ := hnodes result
  constructor
  · intro ss v h
    obtain ⟨ss', h'⟩ := hbody ss v h
    exact ⟨st :: ss', .bodyNext hclose hend hst h'⟩
  · rintro rfl p v h
    obtain ⟨p', h'⟩ := hprogram rfl p v h
    exact ⟨st :: p', .programNext hend hst h'⟩

lemma takes_hostFunction (h : Takes .prototype ks (.punctuation ";" :: ls)) : Takes .node (.keyword "fn" :: ks) ls := by
  intro s hs hks
  obtain ⟨hfn, ht, htk⟩ := hs.passes hks
  obtain ⟨u, hu, huk, hproto⟩ := h s.next ht htk
  obtain ⟨p, hp⟩ := hproto s rfl
  obtain ⟨hend, hv, hvk⟩ := hu.passes huk
  exact ⟨_, hv, hvk, by simp [hfn.1], by simp [hfn.1], fun result => ⟨_, .hostFunction hfn.1 hp hend⟩⟩

lemma takes_function (hproto : Takes .prototype ks (.punctuation "\x7b" :: ls))
    (hnodes : Takes .nodes ls (.punctuation "\x7d" :: ms)) : Takes .node (.keyword "fn" :: ks) ms := by
  intro s hs hks
  obtain ⟨hfn, ht, htk⟩ := hs.passes hks
  obtain ⟨u, hu, huk, hproto⟩ := hproto s.next ht htk
  obtain ⟨p, hp⟩ := hproto s rfl
  obtain ⟨hbrace, hv, hvk⟩ := hu.passes huk
  obtain ⟨w, hw, hwk, hnodes⟩ := hnodes u.next hv hvk
  obtain ⟨hclose, hx, hxk⟩ := hw.passes hwk
  obtain ⟨ss, hbody⟩ := (hnodes p.result).1 [] _ (.bodyEnd hclose)
  exact ⟨_, hx, hxk, by simp [hfn.1], by simp [hfn.1], fun result => ⟨_, .function hfn.1 hp hbrace hbody⟩⟩

lemma takes_ret (h : Takes .expression ks (.punctuation ";" :: ls)) : Takes .node (.keyword "return" :: ks) ls := by
  intro s hs hks
  obtain ⟨hret, ht, htk⟩ := hs.passes hks
  obtain ⟨u, hu, huk, -, hexpr⟩ := h s.next ht htk
  obtain ⟨hend, hv, hvk⟩ := hu.passes huk
  refine ⟨_, hv, hvk, by simp [hret.1], by simp [hret.1], fun result => ?_⟩
  obtain ⟨e, he⟩ := hexpr result (returnContext result)
  exact ⟨_, .ret hret he hend⟩

lemma takes_ifNode (h : Takes .conditional (.keyword "if" :: ks) ls) : Takes .node (.keyword "if" :: ks) ls := by
  intro s hs hks
  obtain ⟨t, ht, htk, hif, hconditional⟩ := h s hs hks
  refine ⟨t, ht, htk, by simp [hif], by simp [hif], fun result => ?_⟩
  obtain ⟨e, he⟩ := hconditional result defaultType
  exact ⟨_, .ifStatement hif he⟩

lemma takes_declaration (h : Takes .expression ks (.punctuation ";" :: ls)) :
    Takes .node (.typeKeyword text :: .identifier name :: .operator "=" :: ks) ls := by
  intro s hs hks
  have hlook := Lexed.look_one hks
  obtain ⟨htext, ht, htk⟩ := hs.passes hks
  obtain ⟨hname, hu, huk⟩ := ht.passes htk
  obtain ⟨hassign, hv, hvk⟩ := hu.passes huk
  obtain ⟨w, hw, hwk, -, hexpr⟩ := h _ hv hvk
  obtain ⟨hend, hx, hxk⟩ := hw.passes hwk
  obtain ⟨type, htype⟩ := hs.typeKeyword htext.1
  refine ⟨_, hx, hxk, by simp [htext.1], by simp [htext.1], fun result => ?_⟩
  obtain ⟨e, he⟩ := hexpr result type
  exact ⟨_, .declaration htext (by simp [hlook]) htype hname hassign he hend⟩

lemma takes_expressionNode (hif : ks.head? ≠ some (.keyword "if"))
    (h : Takes .expression ks (.punctuation ";" :: ls)) : Takes .node ks ls := by
  intro s hs hks
  obtain ⟨t, ht, htk, hopens, hexpr⟩ := h s hs hks
  obtain ⟨hend, hu, huk⟩ := ht.passes htk
  rw [← hks, hs.head?_eq] at hif
  refine ⟨_, hu, huk, hopens.head_ne.2 _ (by simp), hopens.head_ne.1, fun result => ?_⟩
  obtain ⟨e, he⟩ := hexpr result defaultType
  exact ⟨_, .expressionStatement (hopens.opensExpression (by simpa using hif)) he hend⟩

lemma takes_prototype
    (h : Takes .parameterList ks (.punctuation ")" :: .punctuation "->" :: .typeKeyword text :: ls)) :
    Takes .prototype (.identifier name :: .punctuation "(" :: ks) ls := by
  intro s hs hks
  obtain ⟨hname, ht, htk⟩ := hs.passes hks
  obtain ⟨hopen, hu, huk⟩ := ht.passes htk
  obtain ⟨v, hv, hvk, hlist⟩ := h _ hu huk
  obtain ⟨hclose, hw, hwk⟩ := hv.passes hvk
  obtain ⟨harrow, hx, hxk⟩ := hw.passes hwk
  obtain ⟨htext, hy, hyk⟩ := hx.passes hxk
  obtain ⟨type, htype⟩ := hx.typeKeyword htext.1
  obtain ⟨types, names, hps⟩ := hlist hclose.1
  refine ⟨_, hy, hyk, ?_⟩
  rintro before rfl
  exact ⟨_, .prototype hname hopen hps hclose harrow htext htype⟩

lemma takes_noParameters : Takes .parameterList ks ks :=
  fun s hs hks => ⟨s, hs, hks, fun hclose => ⟨[], [], .noParameters hclose⟩⟩

lemma takes_someParameters (h : Takes .parameters ks ls) : Takes .parameterList ks ls := by
  intro s hs hks
  obtain ⟨t, ht, htk, hopen, hps⟩ := h s hs hks
  refine ⟨t, ht, htk, fun hclose => ?_⟩
  obtain ⟨types, names, h⟩ := hps (by simp [hclose])
  exact ⟨types, names, .someParameters hopen h⟩

lemma takes_lastParameter : Takes .parameters (.typeKeyword text :: .identifier name :: ks) ks := by
  intro s hs hks
  obtain ⟨htext, ht, htk⟩ := hs.passes hks
  obtain ⟨hname, hu, huk⟩ := ht.passes htk
  obtain ⟨type, htype⟩ := hs.typeKeyword htext.1
  exact ⟨_, hu, huk, by simp [htext.1], fun hcomma => ⟨_, _, .lastParameter htext htype hname hcomma⟩⟩

lemma takes_nextParameter (h : Takes .parameters ks ls) :
    Takes .parameters (.typeKeyword text :: .identifier name :: .punctuation "," :: ks) ls := by
  intro s hs hks
  obtain ⟨htext, ht, htk⟩ := hs.passes hks
  obtain ⟨hname, hu, huk⟩ := ht.passes htk
  obtain ⟨hcomma, hv, hvk⟩ := hu.passes huk
  obtain ⟨type, htype⟩ := hs.typeKeyword htext.1
  obtain ⟨w, hw, hwk, -, hps⟩ := h _ hv hvk
  refine ⟨w, hw, hwk, by simp [htext.1], fun hend => ?_⟩
  obtain ⟨types, names, h⟩ := hps hend
  exact ⟨_, _, .nextParameter htext htype hname hcomma h⟩

lemma takes_expression (hprimary : Takes .primary ks ls) (hchain : Takes (.chain joiningSymbols) ls ms) :
    Takes .expression ks ms := by
  intro s hs hks
  obtain ⟨t, ht, htk, hopens, hprimary⟩ := hprimary s hs hks
  obtain ⟨u, hu, huk, hends, count, hchained⟩ := hchain t ht htk
  have hexact := Precedences.exactInt_of_bounds le_rfl (by norm_num)
  refine ⟨u, hu, huk, hopens, fun result context => ?_⟩
  obtain ⟨first, hfirst⟩ := hprimary result context
  obtain ⟨e, he⟩ := hchained.climb_all Precedences.reaches_joining hexact le_rfl hu hends result context first
  exact ⟨e, .expression hfirst he⟩

lemma takes_chainEnd (hends : Grammar.Ends symbols ks) : Takes (.chain symbols) ks ks :=
  fun s hs hks => ⟨s, hs, hks, hks ▸ hends, 0, .none⟩

lemma takes_chainNext (hop : op ∈ symbols) (hprimary : Takes .primary ks ls) (hchain : Takes (.chain symbols) ls ms) :
    Takes (.chain symbols) (.operator op :: ks) ms := by
  intro s hs hks
  obtain ⟨hp, ht, htk⟩ := hs.passes hks
  obtain ⟨u, hu, huk, -, hprimary⟩ := hprimary _ ht htk
  obtain ⟨v, hv, hvk, hends, count, hchained⟩ := hchain u hu huk
  rw [← lexeme_of_operator hs hp.1] at hop
  exact ⟨v, hv, hvk, hends, count + 1, .more hop hprimary hchained⟩

lemma takes_literal {k : TokenKind} [Inner k]
    (hopens : ∀ s : TokenStream, s.head.kind = k → OpensPrimary s)
    (h : ∀ s t : TokenStream, s.Passes k t → ∀ result context, ∃ e, Derives standard (.primary result context e) s t) :
    Takes .primary (k :: ks) ks := by
  intro s hs hks
  obtain ⟨hp, ht, htk⟩ := hs.passes hks
  exact ⟨_, ht, htk, hopens s hp.1, h s _ hp⟩

lemma takes_reference (hopen : ks.head? ≠ some (.punctuation "(")) (hassign : ks.head? ≠ some (.operator "=")) :
    Takes .primary (.identifier name :: ks) ks := by
  intro s hs hks
  obtain ⟨hp, ht, rfl⟩ := hs.passes hks
  rw [ht.head?_eq] at hopen hassign
  exact ⟨_, ht, rfl, by simp [OpensPrimary, hp.1],
    fun result context => ⟨_, .reference hp (by simpa using hopen) (by simpa using hassign)⟩⟩

lemma takes_call (h : Takes .argumentList ks (.punctuation ")" :: ls)) :
    Takes .primary (.identifier name :: .punctuation "(" :: ks) ls := by
  intro s hs hks
  obtain ⟨hname, ht, htk⟩ := hs.passes hks
  obtain ⟨hopen, hu, huk⟩ := ht.passes htk
  obtain ⟨v, hv, hvk, hlist⟩ := h _ hu huk
  obtain ⟨hclose, hw, hwk⟩ := hv.passes hvk
  refine ⟨_, hw, hwk, by simp [OpensPrimary, hname.1], fun result context => ?_⟩
  obtain ⟨es, hes⟩ := hlist hclose.1 result
  exact ⟨_, .call hname hopen hes hclose⟩

lemma takes_assign (h : Takes .expression ks ls) : Takes .primary (.identifier name :: .operator "=" :: ks) ls := by
  intro s hs hks
  obtain ⟨hname, ht, htk⟩ := hs.passes hks
  obtain ⟨hassign, hu, huk⟩ := ht.passes htk
  obtain ⟨v, hv, hvk, -, hexpr⟩ := h _ hu huk
  refine ⟨v, hv, hvk, by simp [OpensPrimary, hname.1], fun result context => ?_⟩
  obtain ⟨e, he⟩ := hexpr result context
  exact ⟨_, .assign hname hassign he⟩

lemma takes_parens (h : Takes .expression ks (.punctuation ")" :: ls)) :
    Takes .primary (.punctuation "(" :: ks) ls := by
  intro s hs hks
  obtain ⟨hopen, ht, htk⟩ := hs.passes hks
  obtain ⟨u, hu, huk, -, hexpr⟩ := h _ ht htk
  obtain ⟨hclose, hv, hvk⟩ := hu.passes huk
  refine ⟨_, hv, hvk, by simp [OpensPrimary, hopen.1], fun result context => ?_⟩
  obtain ⟨e, he⟩ := hexpr result context
  exact ⟨e, .parens hopen he hclose⟩

lemma takes_cast (h : Takes .expression ks (.punctuation ")" :: ls)) :
    Takes .primary (.typeKeyword text :: .punctuation "(" :: ks) ls := by
  intro s hs hks
  have hlook := Lexed.look_one hks
  obtain ⟨htext, ht, htk⟩ := hs.passes hks
  obtain ⟨hopen, hu, huk⟩ := ht.passes htk
  obtain ⟨v, hv, hvk, -, hexpr⟩ := h _ hu huk
  obtain ⟨hclose, hw, hwk⟩ := hv.passes hvk
  obtain ⟨type, htype⟩ := hs.typeKeyword htext.1
  refine ⟨_, hw, hwk, by simp [OpensPrimary, htext.1, hlook], fun result context => ?_⟩
  obtain ⟨e, he⟩ := hexpr result defaultType
  exact ⟨_, .cast htext hlook htype hopen he hclose⟩

lemma takes_ifPrimary (h : Takes .conditional ks ls) : Takes .primary ks ls := by
  intro s hs hks
  obtain ⟨t, ht, htk, hif, hconditional⟩ := h s hs hks
  refine ⟨t, ht, htk, by simp [OpensPrimary, hif], fun result context => ?_⟩
  obtain ⟨e, he⟩ := hconditional result context
  exact ⟨e, .ifPrimary hif he⟩

lemma takes_importFile {path : String} : Takes .primary (.keyword "import" :: .string path :: ks) ks := by
  intro s hs hks
  obtain ⟨himport, ht, htk⟩ := hs.passes hks
  obtain ⟨hpath, hu, huk⟩ := ht.passes htk
  exact ⟨_, hu, huk, by simp [OpensPrimary, himport.1], fun result context => ⟨_, .importFile himport hpath⟩⟩

lemma takes_noArguments : Takes .argumentList ks ks :=
  fun s hs hks => ⟨s, hs, hks, fun hclose _ => ⟨[], .noArguments hclose⟩⟩

lemma takes_someArguments (h : Takes .arguments ks ls) : Takes .argumentList ks ls := by
  intro s hs hks
  obtain ⟨t, ht, htk, hopens, hes⟩ := h s hs hks
  refine ⟨t, ht, htk, fun hclose result => ?_⟩
  obtain ⟨es, h⟩ := hes (by simp [hclose]) result
  exact ⟨es, .someArguments (hopens.head_ne.2 _ (by simp)) h⟩

lemma takes_lastArgument (h : Takes .expression ks ls) : Takes .arguments ks ls := by
  intro s hs hks
  obtain ⟨t, ht, htk, hopens, hexpr⟩ := h s hs hks
  refine ⟨t, ht, htk, hopens, fun hcomma result => ?_⟩
  obtain ⟨e, he⟩ := hexpr result defaultType
  exact ⟨_, .lastArgument he hcomma⟩

lemma takes_nextArgument (hfirst : Takes .expression ks (.punctuation "," :: ls)) (hrest : Takes .arguments ls ms) :
    Takes .arguments ks ms := by
  intro s hs hks
  obtain ⟨t, ht, htk, hopens, hexpr⟩ := hfirst s hs hks
  obtain ⟨hcomma, hu, huk⟩ := ht.passes htk
  obtain ⟨v, hv, hvk, -, hes⟩ := hrest _ hu huk
  refine ⟨v, hv, hvk, hopens, fun hend result => ?_⟩
  obtain ⟨e, he⟩ := hexpr result defaultType
  obtain ⟨es, h⟩ := hes hend result
  exact ⟨_, .nextArgument he hcomma h⟩

lemma takes_conditional (hconditions : Takes .conditions ks (.punctuation ")" :: .punctuation "\x7b" :: ls))
    (hnodes : Takes .nodes ls (.punctuation "\x7d" :: ms)) :
    Takes .conditional (.keyword "if" :: .punctuation "(" :: ks) ms := by
  intro s hs hks
  obtain ⟨hif, ht, htk⟩ := hs.passes hks
  obtain ⟨hopen, hu, huk⟩ := ht.passes htk
  obtain ⟨v, hv, hvk, hconditions⟩ := hconditions _ hu huk
  obtain ⟨hclose, hw, hwk⟩ := hv.passes hvk
  obtain ⟨hbrace, hx, hxk⟩ := hw.passes hwk
  obtain ⟨y, hy, hyk, hnodes⟩ := hnodes _ hx hxk
  obtain ⟨hbody, hz, hzk⟩ := hy.passes hyk
  refine ⟨_, hz, hzk, hif.1, fun result context => ?_⟩
  obtain ⟨ss, hss⟩ := (hnodes result).1 [] _ (.bodyEnd hbody)
  obtain ⟨_, c, separators, cs, hc, hcs⟩ := hconditions (by simp [separator?, hclose.1]) result context
  exact ⟨_, .conditional hopen hc hcs hclose hbrace hss⟩

lemma takes_lastCondition (h : Takes .condition ks ls) : Takes .conditions ks ls := by
  intro s hs hks
  obtain ⟨t, ht, htk, hcondition⟩ := h s hs hks
  refine ⟨t, ht, htk, fun hend result context => ?_⟩
  obtain ⟨c, hc⟩ := hcondition result context
  exact ⟨t, c, [], [], hc, .lastCondition hend⟩

lemma takes_nextCondition (hop : op ∈ separatorSymbols) (hfirst : Takes .condition ks (.operator op :: ls))
    (hrest : Takes .conditions ls ms) : Takes .conditions ks ms := by
  intro s hs hks
  obtain ⟨t, ht, htk, hcondition⟩ := hfirst s hs hks
  obtain ⟨hsep, hu, huk⟩ := ht.passes htk
  obtain ⟨v, hv, hvk, hconditions⟩ := hrest _ hu huk
  refine ⟨v, hv, hvk, fun hend result context => ?_⟩
  obtain ⟨c, hc⟩ := hcondition result context
  obtain ⟨w, d, separators, ds, hd, hds⟩ := hconditions hend result context
  exact ⟨t, c, _, d :: ds, hc, .nextCondition (separator_of_kind hsep.1 hop) hd hds⟩

lemma takes_condition (hop : op ∈ comparisonSymbols) (hlhs : Takes .operand ks (.operator op :: ls))
    (hrhs : Takes .operand ls ms) : Takes .condition ks ms := by
  intro s hs hks
  obtain ⟨t, ht, htk, hlhs⟩ := hlhs s hs hks
  obtain ⟨hp, hu, huk⟩ := ht.passes htk
  obtain ⟨v, hv, hvk, hrhs⟩ := hrhs _ hu huk
  refine ⟨v, hv, hvk, fun result context => ?_⟩
  obtain ⟨lhs, hl⟩ := hlhs result context
  obtain ⟨rhs, hr⟩ := hrhs result context
  exact ⟨_, .condition hl hp (by simpa [yieldsTruth] using hop) hr⟩

lemma takes_operand (hprimary : Takes .primary ks ls) (hchain : Takes (.chain tightSymbols) ls ms) :
    Takes .operand ks ms := by
  intro s hs hks
  obtain ⟨t, ht, htk, -, hprimary⟩ := hprimary s hs hks
  obtain ⟨u, hu, huk, hends, count, hchained⟩ := hchain t ht htk
  have hexact := Precedences.exactInt_of_bounds (n := 11) (by norm_num) (by norm_num)
  refine ⟨u, hu, huk, fun result context => ?_⟩
  obtain ⟨first, hfirst⟩ := hprimary result context
  obtain ⟨e, he⟩ := hchained.climb_all Precedences.reaches_tight hexact (by norm_num) hu hends result context first
  exact ⟨e, .operand hfirst (Precedences.above_ceiling ▸ he)⟩

end Productions

lemma takes_of_produces {x : Nonterminal} {ks ls : List TokenKind} (h : Produces x ks ls) : Takes x ks ls := by
  induction h with
  | noNodes => exact takes_noNodes
  | moreNodes _ _ ihn ih => exact takes_moreNodes ihn ih
  | hostFunction _ ih => exact takes_hostFunction ih
  | function _ _ ihp ih => exact takes_function ihp ih
  | ret _ ih => exact takes_ret ih
  | ifNode _ ih => exact takes_ifNode ih
  | declaration _ ih => exact takes_declaration ih
  | expressionNode hif _ ih => exact takes_expressionNode hif ih
  | prototype _ ih => exact takes_prototype ih
  | noParameters => exact takes_noParameters
  | someParameters _ ih => exact takes_someParameters ih
  | lastParameter => exact takes_lastParameter
  | nextParameter _ ih => exact takes_nextParameter ih
  | expression _ _ ihp ihc => exact takes_expression ihp ihc
  | chainEnd hends => exact takes_chainEnd hends
  | chainNext hop _ _ ihp ihc => exact takes_chainNext hop ihp ihc
  | int => exact takes_literal (by simp +contextual [OpensPrimary]) fun _ _ hp _ _ => ⟨_, .int hp⟩
  | float => exact takes_literal (by simp +contextual [OpensPrimary]) fun _ _ hp _ _ => ⟨_, .float hp⟩
  | bool => exact takes_literal (by simp +contextual [OpensPrimary]) fun _ _ hp _ _ => ⟨_, .bool hp⟩
  | string => exact takes_literal (by simp +contextual [OpensPrimary]) fun _ _ hp _ _ => ⟨_, .string hp⟩
  | reference hopen hassign => exact takes_reference hopen hassign
  | call _ ih => exact takes_call ih
  | assign _ ih => exact takes_assign ih
  | parens _ ih => exact takes_parens ih
  | cast _ ih => exact takes_cast ih
  | ifPrimary _ ih => exact takes_ifPrimary ih
  | importFile => exact takes_importFile
  | noArguments => exact takes_noArguments
  | someArguments _ ih => exact takes_someArguments ih
  | lastArgument _ ih => exact takes_lastArgument ih
  | nextArgument _ _ ihe ih => exact takes_nextArgument ihe ih
  | conditional _ _ ihc ih => exact takes_conditional ihc ih
  | lastCondition _ ih => exact takes_lastCondition ih
  | nextCondition hop _ _ ihc ih => exact takes_nextCondition hop ihc ih
  | condition hop _ _ ihl ihr => exact takes_condition hop ihl ihr
  | operand _ _ ihp ihc => exact takes_operand ihp ihc

end Parser

/-- A text is accepted with the usual powers if its tokens before the end are the nodes of the grammar. -/
theorem parseText_accepts_iff (source : String) :
    (∃ p, parseText source .standard = .ok p) ↔
      ∃ tokens, lex source = .ok tokens ∧ Produces .nodes (tokens.map Token.kind) [.endOfInput] := by
  constructor
  · rintro ⟨p, hp⟩
    obtain ⟨tokens, hlex, hparse⟩ := parseText_ok.mp hp
    obtain ⟨t, hderives⟩ := Parser.parse_sound hparse
    exact ⟨tokens, hlex, hderives.spells (TokenStream.lexed_ofTokens hlex)⟩
  · rintro ⟨tokens, hlex, hproduces⟩
    obtain ⟨t, ht, htk, hnodes⟩ := Parser.takes_of_produces hproduces _ (TokenStream.lexed_ofTokens hlex) rfl
    obtain ⟨p, hp⟩ := (hnodes Parser.defaultType).2 rfl [] t (.programEnd (ht.head_kind htk))
    exact ⟨p, parseText_ok.mpr ⟨tokens, hlex, Parser.parse_complete hp⟩⟩

end Keel
