import Keel.Proofs.Syntax.Assignments
import Keel.Proofs.Syntax.Climbing
import Keel.Syntax.Alike

namespace Keel

namespace TokenStream

variable {s t : TokenStream} {k k' : Spelled} {ks : List Spelled}

def Spells (s : TokenStream) (ks : List Spelled) : Prop := s.rest.map Token.spelled = ks

lemma Spells.cons (h : s.Spells (k :: ks)) : s.Passes k.1 s.next ∧ s.head.lexeme = k.2 ∧ s.next.Spells ks := by
  unfold Spells at h
  cases hrest : s.rest with
  | nil => simp [hrest] at h
  | cons t ts =>
    simp only [hrest, List.map_cons, List.cons.injEq] at h
    obtain ⟨rfl, rfl⟩ := h
    have hhead : s.head = t := by simp [head, look, hrest]
    exact ⟨⟨by rw [hhead]; rfl, rfl⟩, by rw [hhead]; rfl, by simp [Spells, next, hrest]⟩

lemma Spells.look_one (h : s.Spells (k :: k' :: ks)) : (s.look 1).kind = k'.1 := by
  unfold Spells at h
  match hrest : s.rest with
  | [] => simp [hrest] at h
  | [t] => simp [hrest] at h
  | t :: t' :: ts =>
    simp only [hrest, List.map_cons, List.cons.injEq] at h
    obtain ⟨-, rfl, -⟩ := h
    simp [look, hrest, Token.spelled]

end TokenStream

def Expr.Tight (table : Precedences) (n : ℤ) : Expr → Prop
  | .binary _ op _ _ => ∀ k, table.HasPower op k → n ≤ k
  | .assign _ _ _ => n ≤ 0
  | _ => True

lemma Expr.tight_zero {table : Precedences} : ∀ e : Expr, e.Tight table 0
  | .binary _ _ _ _ => fun _ hk => hk.2.1.le
  | .assign _ _ _ => le_rfl
  | .number _ _ _ | .reference _ _ | .call _ _ _ | .cast _ _ _ | .string _ _ | .conditional _ _ _ _
  | .importFile _ _ => trivial

namespace Parser

open TokenStream

variable {table : Precedences} {s t : TokenStream} {ks : List Spelled} {result context : ValueType} {b : Bool}

def Ends (table : Precedences) (q : ℤ) (absorbs : Bool) (ks : List Spelled) : Prop :=
  ∃ k rest, ks = k :: rest ∧ (absorbs = true → k.1 ≠ .punctuation "(" ∧ k.1 ≠ .operator "=") ∧
    ∀ n, table.HasPower k.2 n → n ≤ q

def Climbs (table : Precedences) (result context : ValueType) (n : ℤ) (e : Expr) (s : TokenStream)
    (ks : List Spelled) : Prop :=
  ∃ first u e' t, Derives table (.primary result context first) s u ∧ t.Spells ks ∧ e.alike e' = true ∧
    ∀ {final w}, Derives table (.climb result context (.ofInt n) e' final) t w →
      Derives table (.climb result context (.ofInt n) first final) u w

lemma passes_name {name : String} (hn : Lexer.IsName name) (h : s.Spells (Spelled.word name :: ks)) :
    s.Passes (.identifier name) s.next :=
  hn.2 ▸ h.cons.1

lemma climbs_of_primary {n : ℤ} {e e' : Expr} (h : Derives table (.primary result context e') s t)
    (ht : t.Spells ks) (he : e.alike e' = true) : Climbs table result context n e s ks :=
  ⟨e', t, e', t, h, ht, he, id⟩

section Integral

variable (hint : table.Integral)
include hint

lemma ends_punctuation {symbol : String} (hs : symbol ∈ [")", "\x7b", "\x7d", ",", ";"]) {q : ℤ} :
    Ends table q b (Spelled.punctuation symbol :: ks) := by
  refine ⟨_, _, rfl, fun _ => ⟨?_, by simp [Spelled.punctuation]⟩, fun n hn => ?_⟩
  · simp only [Spelled.punctuation, Ne, TokenKind.punctuation.injEq]
    rintro rfl
    simp at hs
  · have hnot : ∀ x ∈ [")", "\x7b", "\x7d", ",", ";"], x ∉ Lexer.operatorSymbols := by decide
    exact absurd (hint.hasPower hn.1).1 (hnot symbol hs)

lemma Ends.stops {n q : ℤ} (h : Ends table q b ks) (hs : s.Spells ks) (hn : Floating.ExactInt n) (hn' : 0 ≤ n)
    (hq : ∀ m, 0 < m → m ≤ q → m < n) : table.Stops (.ofInt n) s.head.lexeme := by
  obtain ⟨k, rest, rfl, -, hk⟩ := h
  rw [hs.cons.2.1]
  exact hint.whole.stops_ofInt hn hn' fun m hm => hq m hm.2.1 (hk m hm)

lemma stops_zero (h : Ends table 0 b ks) (hs : s.Spells ks) : table.Stops (.zero false) s.head.lexeme := by
  rw [← Floating.ofInt_zero]
  exact h.stops hint hs (by simp [Floating.ExactInt]) le_rfl fun m hm hle => by omega

lemma Climbs.expression {e : Expr} (h : Climbs table result context 0 e s ks) (hks : Ends table 0 b ks) :
    ∃ e' t, Derives table (.expression result context e') s t ∧ t.Spells ks ∧ e.alike e' = true := by
  obtain ⟨first, u, e', t, hfirst, ht, he, hclimb⟩ := h
  exact ⟨e', t, .expression hfirst (hclimb (.climbEnd (stops_zero hint hks ht))), ht, he⟩

lemma Climbs.binary {n p : ℤ} {place : Position} {op : String} {lhs rhs : Expr} {kr : List Spelled}
    (hl : Climbs table result context n lhs s (Spelled.operator op :: kr)) (hp : table.HasPower op p)
    (hn : Floating.ExactInt n) (hnp : n ≤ p)
    (hr : ∀ s : TokenStream, s.Spells kr → Climbs table result context (p + 1) rhs s ks)
    (hks : Ends table p b ks) : Climbs table result context n (.binary place op lhs rhs) s ks := by
  obtain ⟨first, u, lhs', t, hfirst, ht, hl', hclimb⟩ := hl
  obtain ⟨-, hlexeme, hnext⟩ := ht.cons
  have hlexeme : t.head.lexeme = op := hlexeme
  obtain ⟨second, v, rhs', w, hsecond, hw, hr', hclimb'⟩ := hr t.next hnext
  have hsucc := Precedences.exactInt_succ hp.2.1.le hp.2.2
  have hpos := hp.2.1
  have hright := right_of_climb hint.whole hp (hclimb' (.climbEnd
    (hks.stops hint hw hsucc (by omega) fun m _ hm => by omega)))
  have hleast : (Floating.ofInt p : Double).lt (.ofInt n) = false := by
    rw [Floating.ofInt_lt hp.exact hn]
    exact decide_eq_false (not_lt.mpr hnp)
  refine ⟨first, u, .binary lhs'.position t.head.lexeme lhs' rhs', w, hfirst, hw, ?_, fun hfinal => ?_⟩
  · simp [Expr.alike, hlexeme, hl', hr']
  · exact hclimb (.climbStep (hlexeme ▸ hp.1) hleast hsecond hright hfinal)

end Integral

lemma Ends.mono {p q : ℤ} {c : Bool} (h : Ends table q b ks) (hpq : q ≤ p) (hc : c = true → b = true) :
    Ends table p c ks := by
  obtain ⟨k, rest, rfl, hnext, hk⟩ := h
  exact ⟨k, rest, rfl, fun hcb => hnext (hc hcb), fun n hn => (hk n hn).trans hpq⟩

lemma ends_operator {op : String} {q : ℤ} (hop : b = true → op ≠ "=") (h : ∀ n, table.HasPower op n → n ≤ q) :
    Ends table q b (Spelled.operator op :: ks) :=
  ⟨_, _, rfl, fun hb => ⟨by simp [Spelled.operator], by simpa [Spelled.operator] using hop hb⟩, h⟩

def EndsOperand (table : Precedences) (ks : List Spelled) : Prop :=
  ∃ k rest, ks = k :: rest ∧ k.1 ≠ .punctuation "(" ∧ k.1 ≠ .operator "=" ∧
    table.Stops (Precedences.above table.ceiling) k.2

def Rebuilds (style : PrintStyle) (result context : ValueType) (e : Expr) : Prop :=
  ∀ ⦃n q s ks⦄, 0 ≤ n → Floating.ExactInt n → e.settled.Tight style.table n → e.settled.Tight style.table q →
    s.Spells (Spelled.expression style result context e ++ ks) → Ends style.table q (e.absorbs style) ks →
    Climbs style.table result context n e.settled s ks

section Integral

variable {style : PrintStyle} (hint : style.table.Integral)
include hint

lemma Rebuilds.expression {e : Expr} (h : Rebuilds style result context e)
    (hs : s.Spells (Spelled.expression style result context e ++ ks)) (hks : Ends style.table 0 (e.absorbs style) ks) :
    ∃ e' t, Derives style.table (.expression result context e') s t ∧ t.Spells ks ∧ e.settled.alike e' = true :=
  Climbs.expression hint (h le_rfl (by simp [Floating.ExactInt]) (Expr.tight_zero _) (Expr.tight_zero _) hs hks) hks

lemma Rebuilds.enclosed {e : Expr} (h : Rebuilds style result context e) {loose : Double → Bool} {n q : ℤ}
    (hn : 0 ≤ n) (hexact : Floating.ExactInt n)
    (hloose : ∀ k, Floating.ExactInt k → loose (.ofInt k) = false → n ≤ k ∧ q ≤ k)
    (hassign : e.IsAssignment → Printer.needsParens style loose e = true)
    (hs : s.Spells (Spelled.enclosed (Printer.needsParens style loose e)
      (Spelled.expression style result context e) ++ ks))
    (hks : Ends style.table q (!Printer.needsParens style loose e && e.absorbs style) ks) :
    Climbs style.table result context n e.settled s ks := by
  cases hparens : Printer.needsParens style loose e with
  | false =>
    rw [hparens] at hs hks
    cases e with
    | binary place op lhs rhs =>
      have hbound : ∀ k, style.table.HasPower op k → n ≤ k ∧ q ≤ k := fun k hk =>
        hloose k hk.exact (by rw [← hk.level]; exact hparens)
      have hsettled : (Expr.binary place op lhs rhs).settled = .binary place op lhs.settled rhs.settled :=
        Expr.settled_binary fun ha => by simp [hassign ha] at hparens
      refine h hn hexact ?_ ?_ hs hks
      · rw [hsettled]
        exact fun k hk => (hbound k hk).1
      · rw [hsettled]
        exact fun k hk => (hbound k hk).2
    | assign place name value => simp [Printer.needsParens] at hparens
    | _ => exact h hn hexact trivial trivial hs hks
  | true =>
    rw [hparens] at hs
    simp only [Spelled.enclosed, if_true, List.cons_append, List.append_assoc, List.nil_append] at hs
    obtain ⟨hopen, -, hinner⟩ := hs.cons
    obtain ⟨e', t, he, ht, halike⟩ := h.expression hint hinner (ends_punctuation hint (by simp))
    obtain ⟨hclose, -, hrest⟩ := ht.cons
    exact climbs_of_primary (.parens hopen he hclose) hrest halike

section Operations

variable {place : Position} {op : String} {lhs rhs : Expr} {p : ℤ}

lemma Rebuilds.right (hr : Rebuilds style result context rhs) (hlegible : rhs.Legible style)
    (hshape : rhs.Shaped style.table result context) (hp : style.table.HasPower op p) {n q : ℤ} (hn : 0 ≤ n)
    (hnp : n ≤ p + 1) (hqp : q ≤ p) (hs : s.Spells (Spelled.enclosed
        (Printer.needsParens style (·.le (style.table.level op)) rhs)
        (Spelled.expression style result context rhs) ++ ks))
    (hks : Ends style.table q (!Printer.needsParens style (·.le (style.table.level op)) rhs && rhs.absorbs style) ks) :
    Climbs style.table result context n rhs.settled s ks := by
  have hsucc := Precedences.exactInt_succ hp.2.1.le hp.2.2
  refine hr.enclosed hint hn (by unfold Floating.ExactInt at hsucc ⊢; omega) (fun k hk hle => ?_) (fun ha => ?_) hs hks
  · rw [hp.level, Floating.ofInt_le hk hp.exact, decide_eq_false_iff_not, not_le] at hle
    omega
  · refine hlegible.encloses hint hshape ha fun a hpower hlast => ?_
    rw [hp.level, Floating.ofInt_le hpower.exact hp.exact, decide_eq_true_eq]
    by_cases hop : op = "="
    · subst hop
      exact (hpower.unique hp).le
    · exact ((hlast a hpower).1 op p hp hop).le

lemma Rebuilds.left (hl : Rebuilds style result context lhs) (hlegible : lhs.Legible style)
    (hshape : lhs.Shaped style.table result context) (hp : style.table.HasPower op p)
    (hkept : op = "=" →
      (!Printer.needsParens style (·.lt (style.table.level op)) lhs && lhs.absorbs style) = false)
    {n : ℤ} (hn : 0 ≤ n) (hexact : Floating.ExactInt n) (hnp : n ≤ p) (hs : s.Spells (Spelled.enclosed
      (Printer.needsParens style (·.lt (style.table.level op)) lhs) (Spelled.expression style result context lhs) ++
        Spelled.operator op :: ks)) :
    Climbs style.table result context n lhs.settled s (Spelled.operator op :: ks) := by
  have hends : Ends style.table p (!Printer.needsParens style (·.lt (style.table.level op)) lhs && lhs.absorbs style)
      (Spelled.operator op :: ks) :=
    ends_operator (fun hb hop => by simp [hkept hop] at hb) fun k hk => (hk.unique hp).le
  refine hl.enclosed hint hn hexact (fun k hk hlt => ?_) (fun ha => ?_) hs hends
  · rw [hp.level, Floating.ofInt_lt hk hp.exact, decide_eq_false_iff_not, not_lt] at hlt
    exact ⟨hnp.trans hlt, hlt⟩
  · by_cases hop : op = "="
    · simpa [ha.absorbs] using hkept hop
    · refine hlegible.encloses hint hshape ha fun a hpower hlast => ?_
      rw [hp.level, Floating.ofInt_lt hpower.exact hp.exact, decide_eq_true_eq]
      exact (hlast a hpower).1 op p hp hop

lemma rebuilds_operation (hnode : (Expr.binary place op lhs rhs).Legible style)
    (hassign : ¬ (Expr.binary place op lhs rhs).IsAssignment) (hp : style.table.HasPower op p)
    (hlegible : lhs.Legible style) (hshape : lhs.Shaped style.table result context)
    (hl : Rebuilds style result context lhs) (hlegible' : rhs.Legible style)
    (hshape' : rhs.Shaped style.table result context) (hr : Rebuilds style result context rhs) :
    Rebuilds style result context (.binary place op lhs rhs) := by
  intro n q s ks hn hexact htight htight' hs hks
  have hsettled := Expr.settled_binary hassign
  rw [hsettled] at htight htight' ⊢
  have hnp : n ≤ p := htight p hp
  have hqp : q ≤ p := htight' p hp
  have hsucc : 0 ≤ p + 1 := by
    have := hp.2.1
    omega
  rw [Spelled.expression] at hs
  simp only [List.append_assoc, List.cons_append] at hs
  have hlhs := hl.left hint hlegible hshape hp
    (fun hop => (hnode.keeps hop).resolve_left fun href => hassign ⟨hop, href⟩) hn hexact hnp hs
  refine hlhs.binary hint hp hexact hnp (fun t ht => ?_) (hks.mono hqp id)
  refine hr.right hint hlegible' hshape' hp hsucc le_rfl hqp ht (hks.mono le_rfl fun hb => ?_)
  rw [Expr.absorbs, Bool.or_eq_true]
  exact .inr hb

lemma rebuilds_target {target : Position} {name : String} (hname : Lexer.IsName name)
    (hp : style.table.HasPower "=" p) (hlegible : rhs.Legible style) (hshape : rhs.Shaped style.table result context)
    (hr : Rebuilds style result context rhs) :
    Rebuilds style result context (.binary place "=" (.reference target name) rhs) := by
  intro n q s ks _ _ _ htight hs hks
  rw [Expr.settled_target] at htight ⊢
  rw [Spelled.expression, Spelled.expression] at hs
  change s.Spells (Spelled.word name :: Spelled.operator "=" :: (Spelled.enclosed _ _ ++ ks)) at hs
  have hsign := hs.cons.2.2.cons
  have hends : ∀ b, Ends style.table 0 b ks := fun b => hks.mono htight fun _ => Expr.IsAssignment.absorbs ⟨rfl, rfl⟩
  have hright := hr.right hint hlegible hshape hp le_rfl (by have := hp.2.1; omega) hp.2.1.le hsign.2.2 (hends _)
  obtain ⟨value, t, hvalue, ht, halike⟩ := hright.expression hint (hends true)
  exact climbs_of_primary (.assign (passes_name hname hs) hsign.1 hvalue) ht (by simp [Expr.alike, halike])

lemma rebuilds_binary (hnode : (Expr.binary place op lhs rhs).Legible style)
    (hshape : (Expr.binary place op lhs rhs).Shaped style.table result context) (hlegible : lhs.Legible style)
    (hl : Rebuilds style result context lhs) (hlegible' : rhs.Legible style)
    (hr : Rebuilds style result context rhs) : Rebuilds style result context (.binary place op lhs rhs) := by
  obtain ⟨⟨power, hpower⟩, hlhs, hrhs⟩ := hshape
  obtain ⟨-, p, rfl, hp⟩ := hint.hasPower hpower
  by_cases hassign : (Expr.binary place op lhs rhs).IsAssignment
  · obtain ⟨rfl, href⟩ := hassign
    cases lhs with
    | reference target name => exact rebuilds_target hint hlhs hp hlegible' hrhs hr
    | _ => cases href
  · exact rebuilds_operation hint hnode hassign hp hlegible hlhs hl hlegible' hrhs hr

end Operations

omit hint in
lemma EndsOperand.ends {c : ℤ} (h : EndsOperand style.table ks) (hc : 0 ≤ c) (hc' : c < 2 ^ 53)
    (hceiling : style.table.ceiling = .ofInt c) : Ends style.table c b ks := by
  obtain ⟨k, rest, rfl, hopen, hassign, hstops⟩ := h
  refine ⟨k, rest, rfl, fun _ => ⟨hopen, hassign⟩, fun n hn => ?_⟩
  rw [Precedences.Stops, Precedences.power_of_binding? hn.1, hceiling, Precedences.above_ofInt hc hc',
    Floating.ofInt_lt hn.exact (Precedences.exactInt_succ hc hc'), decide_eq_true_eq] at hstops
  omega

lemma endsOperand_punctuation {symbol : String} (hs : symbol ∈ [")", "\x7b", "\x7d", ",", ";"]) :
    EndsOperand style.table (Spelled.punctuation symbol :: ks) := by
  have hends : Ends style.table 0 true (Spelled.punctuation symbol :: ks) := ends_punctuation hint hs
  obtain ⟨k, rest, hk, hnext, hnone⟩ := hends
  obtain ⟨c, hc, hc', hceiling, -⟩ := hint.ceiling
  refine ⟨k, rest, hk, (hnext rfl).1, (hnext rfl).2, ?_⟩
  rw [hceiling, Precedences.above_ofInt hc hc']
  refine hint.whole.stops_ofInt (Precedences.exactInt_succ hc hc') (by omega) fun n hn => ?_
  have := hnone n hn
  omega

lemma endsOperand_comparison {op : String} (hop : yieldsTruth op = true) :
    EndsOperand style.table (Spelled.operator op :: ks) := by
  obtain ⟨c, hc, hc', hceiling, hbound⟩ := hint.ceiling
  have hne : op ≠ "=" := by
    rintro rfl
    exact absurd hop (by decide)
  refine ⟨_, _, rfl, by simp [Spelled.operator], by simpa [Spelled.operator] using hne, ?_⟩
  rw [hceiling, Precedences.above_ofInt hc hc']
  refine hint.whole.stops_ofInt (Precedences.exactInt_succ hc hc') (by omega) fun k hk => ?_
  have := hbound op hop k hk
  omega

omit hint in
lemma endsOperand_separator {separator : String} (hsep : style.table.Separator separator) :
    EndsOperand style.table (Spelled.operator separator :: ks) := by
  have hne : separator ≠ "=" := by rcases hsep.1 with rfl | rfl <;> decide
  exact ⟨_, _, rfl, by simp [Spelled.operator], by simpa [Spelled.operator] using hne, hsep.2⟩

lemma Rebuilds.operand {e : Expr} (h : Rebuilds style result context e) (hlegible : e.Legible style)
    (hshape : e.Shaped style.table result context)
    (hs : s.Spells (Spelled.enclosed (Printer.needsParens style (·.le style.table.ceiling) e)
      (Spelled.expression style result context e) ++ ks)) (hks : EndsOperand style.table ks) :
    ∃ e' t, Derives style.table (.operand result context e') s t ∧ t.Spells ks ∧ e.settled.alike e' = true := by
  obtain ⟨c, hc, hc', hceiling, -⟩ := hint.ceiling
  have hsucc := Precedences.exactInt_succ hc hc'
  have hexact := Precedences.exactInt_of_bounds hc hc'
  have hends : ∀ b, Ends style.table c b ks := fun b => hks.ends hc hc' hceiling
  rw [hceiling] at hs
  obtain ⟨first, u, e', t, hfirst, ht, halike, hclimb⟩ := h.enclosed hint (by omega) hsucc
    (fun k hk hle => by
      rw [Floating.ofInt_le hk hexact, decide_eq_false_iff_not, not_le] at hle
      exact ⟨hle, hle.le⟩)
    (fun ha => hlegible.encloses hint hshape ha fun a hpower hlast => by
      rw [Floating.ofInt_le hpower.exact hexact, decide_eq_true_eq]
      exact (hlast a hpower).2 c hceiling hexact)
    hs (hends _)
  have habove : Precedences.above style.table.ceiling = .ofInt (c + 1) := by
    rw [hceiling, Precedences.above_ofInt hc hc']
  refine ⟨e', t, .operand hfirst ?_, ht, halike⟩
  rw [habove]
  exact hclimb (.climbEnd ((hends true).stops hint ht hsucc (by omega) fun m _ hm => by omega))

end Integral

end Parser

end Keel
