import Keel.Proofs.Syntax.Termination
import Keel.Token.Lexer

/-! The parser looks no further than one token beyond the current one. -/

namespace Keel

namespace TokenStream

variable {s t u : TokenStream} {more : List Token}

def Onward (s t : TokenStream) : Prop := ∃ ts, s.rest = ts ++ t.rest ∧ t.passed = ts.reverse ++ s.passed

lemma Onward.refl (s : TokenStream) : s.Onward s := ⟨[], rfl, rfl⟩

lemma Onward.trans (h : s.Onward t) (h' : t.Onward u) : s.Onward u := by
  obtain ⟨ts, hrest, hpassed⟩ := h
  obtain ⟨us, hrest', hpassed'⟩ := h'
  exact ⟨ts ++ us, by rw [hrest, hrest', List.append_assoc], by rw [hpassed', hpassed, List.reverse_append,
    List.append_assoc]⟩

lemma onward_next (s : TokenStream) : s.Onward s.next := by
  obtain ⟨passed, rest⟩ := s
  cases rest with
  | nil => exact .refl _
  | cons t ts => exact ⟨[t], rfl, rfl⟩

def followed (s : TokenStream) (more : List Token) : TokenStream := ⟨s.passed, s.rest ++ more⟩

lemma Onward.followed (h : s.Onward (t.followed more)) : ∃ u : TokenStream, s = u.followed more ∧ u.Onward t := by
  obtain ⟨ts, hrest, hpassed⟩ := h
  refine ⟨⟨s.passed, ts ++ t.rest⟩, ?_, ts, rfl, hpassed⟩
  rw [TokenStream.followed, List.append_assoc, ← show s.rest = ts ++ (t.rest ++ more) from hrest]

lemma Onward.length_le (h : s.Onward t) : t.rest.length ≤ s.rest.length := by
  obtain ⟨ts, hrest, -⟩ := h
  rw [hrest, List.length_append]
  exact Nat.le_add_left _ _

lemma followed_inj (h : s.followed more = t.followed more) : s = t := by
  obtain ⟨passed, rest⟩ := s
  obtain ⟨passed', rest'⟩ := t
  simpa [followed] using h

lemma ofTokens_split (n : ℕ) (tokens : List Token) :
    ofTokens tokens = (ofTokens (tokens.take n)).followed (tokens.drop n) := by
  rw [followed, ofTokens, ofTokens, List.take_append_drop]

lemma look_followed {i : ℕ} (h : i < s.rest.length) (more : List Token) :
    (s.followed more).look i = s.rest[i] := by
  simp [look, followed, List.getElem?_append_left h, List.getElem?_eq_getElem h]

lemma next_followed (h : s.rest ≠ []) (more : List Token) : (s.followed more).next = s.next.followed more := by
  obtain ⟨passed, rest⟩ := s
  cases rest with
  | nil => exact absurd rfl h
  | cons t ts => rfl

end TokenStream

namespace Reader

open TokenStream

variable {α β : Type} {s t : TokenStream} {x y : Reader α}

def stop : EStateM.Result Halt TokenStream α → TokenStream
  | .ok _ t | .error _ t => t

def followed (more : List Token) : EStateM.Result Halt TokenStream α → EStateM.Result Halt TokenStream α
  | .ok v t => .ok v (t.followed more)
  | .error e t => .error e (t.followed more)

structure Settled (x y : Reader α) : Prop where
  onward : ∀ s : TokenStream, s.Onward (stop (x s))
  blames : ∀ s e t, x s = .error (.error e) t → e.token = t.head
  same : ∀ (s : TokenStream) more more' r, x (s.followed more) = followed more r → 2 ≤ (stop r).rest.length →
    Halts x (s.followed more) → Halts y (s.followed more') → y (s.followed more') = followed more' r

lemma bind_of_ok {f : α → Reader β} {a : α} (h : x s = .ok a t) : (x >>= f) s = f a t := by
  simp only [Bind.bind, EStateM.bind, h]

lemma bind_of_error {f : α → Reader β} {e : Halt} (h : x s = .error e t) : (x >>= f) s = .error e t := by
  simp only [Bind.bind, EStateM.bind, h]

lemma Halts.of_bind {f : α → Reader β} (h : Halts (x >>= f) s) : Halts x s :=
  fun t hx => h t (bind_of_error hx)

lemma Halts.of_bind_ok {f : α → Reader β} {a : α} (h : Halts (x >>= f) s) (hx : x s = .ok a t) : Halts (f a) t :=
  fun u hf => h u ((bind_of_ok hx).trans hf)

lemma Settled.bind {f g : α → Reader β} (hx : Settled x y) (hf : ∀ a, Settled (f a) (g a)) :
    Settled (x >>= f) (y >>= g) where
  onward s := by
    have honward := hx.onward s
    cases hs : x s with
    | ok a t =>
      rw [hs] at honward
      rw [bind_of_ok hs]
      exact honward.trans ((hf a).onward t)
    | error e t =>
      rw [hs] at honward
      rwa [bind_of_error hs]
  blames s e t h := by
    cases hs : x s with
    | ok a u =>
      rw [bind_of_ok hs] at h
      exact (hf a).blames u e t h
    | error e' u =>
      rw [bind_of_error hs] at h
      cases h
      exact hx.blames s e t hs
  same s more more' r h hlong hhalts hhalts' := by
    cases hs : x (s.followed more) with
    | ok a t =>
      rw [bind_of_ok hs] at h
      have honward : t.Onward ((stop r).followed more) := by
        have := (hf a).onward t
        rw [h] at this
        cases r <;> exact this
      obtain ⟨u, rfl, hu⟩ := honward.followed
      have hfirst := hx.same s more more' (.ok a u) hs (Nat.le_trans hlong hu.length_le) hhalts.of_bind hhalts'.of_bind
      rw [bind_of_ok hfirst]
      exact (hf a).same u more more' r h hlong (hhalts.of_bind_ok hs) (hhalts'.of_bind_ok hfirst)
    | error e t =>
      rw [bind_of_error hs] at h
      cases r with
      | ok b u => cases h
      | error e' u =>
        cases h
        exact bind_of_error (hx.same s more more' (.error e u) hs hlong hhalts.of_bind hhalts'.of_bind)

lemma Settled.exhausted (h : Settled x y) : Settled x Reader.exhausted where
  onward := h.onward
  blames := h.blames
  same _ _ _ _ _ _ _ hhalts' := absurd rfl (hhalts' _)

lemma settled_exhausted : Settled (exhausted : Reader α) y where
  onward s := .refl s
  blames _ _ _ h := nomatch h
  same _ _ _ _ _ _ hhalts _ := absurd rfl (hhalts _)

lemma settled_pure (a : α) : Settled (pure a) (pure a) where
  onward s := .refl s
  blames _ _ _ h := nomatch h
  same s more more' r h _ _ _ := by
    cases r with
    | ok b t =>
      obtain ⟨rfl, hs⟩ := pure_ok.mp h
      rw [followed_inj hs]
      rfl
    | error e t => cases h

lemma settled_look {i : ℕ} (hi : i < 2) : Settled (look i) (look i) where
  onward s := .refl s
  blames _ _ _ h := nomatch h
  same s more more' r h hlong _ _ := by
    cases r with
    | ok a t =>
      obtain ⟨ha, hs⟩ := EStateM.Result.ok.inj h
      obtain rfl := followed_inj hs
      have hlook : i < s.rest.length := Nat.lt_of_lt_of_le hi hlong
      rw [← ha, look_followed hlook, ← look_followed hlook more']
      rfl
    | error e t => cases h

lemma settled_head : Settled head head := settled_look (i := 0) (by omega)

lemma settled_finished : Settled finished finished :=
  settled_head.bind fun t => settled_pure (t.is .endOfInput)

lemma settled_next : Settled next next where
  onward := onward_next
  blames _ _ _ h := nomatch h
  same s more more' r h hlong _ _ := by
    cases r with
    | ok a t =>
      obtain ⟨ha, hs⟩ := next_ok.mp h
      have hmore : t.rest.length + more.length = (s.rest.length + more.length) - 1 := by
        rw [← List.length_append, ← List.length_append]
        exact (congrArg (fun u => u.rest.length) hs).trans (length_next _)
      replace hlong : 2 ≤ t.rest.length := hlong
      have hne : s.rest ≠ [] := List.length_pos_iff.mp (by omega)
      have hlook : 0 < s.rest.length := List.length_pos_iff.mpr hne
      rw [next_followed hne] at hs
      obtain rfl := followed_inj hs
      rw [← ha]
      refine next_ok.mpr ⟨?_, (next_followed hne more').symm⟩
      rw [TokenStream.head, TokenStream.head]
      exact (look_followed hlook more').trans (look_followed hlook more).symm
    | error e t => cases h

lemma settled_fail (cause : ParseCause) : Settled (fail cause : Reader α) (fail cause) where
  onward s := .refl s
  blames s e t h := by
    cases h
    rfl
  same s more more' r h hlong _ _ := by
    cases r with
    | ok a t => cases h
    | error e t =>
      obtain ⟨he, hs⟩ := EStateM.Result.error.inj h
      obtain rfl := followed_inj hs
      have hlook : 0 < s.rest.length := Nat.lt_of_lt_of_le Nat.two_pos hlong
      have hhead : (s.followed more').head = (s.followed more).head :=
        (look_followed hlook more').trans (look_followed hlook more).symm
      rw [← he, ← hhead]
      rfl

lemma settled_ite {c : Prop} [Decidable c] {x' y' : Reader α} (hx : Settled x y) (hx' : Settled x' y') :
    Settled (if c then x else x') (if c then y else y') := by
  split_ifs
  · exact hx
  · exact hx'

lemma settled_punctuation (symbol : String) (code : ParseCode) :
    Settled (punctuation symbol code) (punctuation symbol code) :=
  settled_head.bind fun _ => settled_ite settled_next (settled_fail _)

lemma settled_identifier (code : ParseCode) : Settled (identifier code) (identifier code) := by
  refine settled_head.bind fun t => ?_
  cases t.kind with
  | identifier name => exact settled_next.bind fun _ => settled_pure name
  | _ => exact settled_fail _

lemma settled_stringLiteral : Settled stringLiteral stringLiteral := by
  refine settled_head.bind fun t => ?_
  cases t.kind with
  | string value => exact settled_next.bind fun _ => settled_pure value
  | _ => exact settled_fail _

lemma settled_valueType : Settled valueType valueType := by
  refine settled_head.bind fun t => ?_
  cases t.kind with
  | typeKeyword name =>
    dsimp only
    cases ValueType.ofKeyword? name with
    | some type => exact settled_next.bind fun _ => settled_pure type
    | none => exact settled_fail _
  | _ => exact settled_fail _

end Reader

namespace Parser

open Reader TokenStream

variable {table : Precedences} {depth depth' : ℕ}

lemma settled_comparison : Settled comparison comparison := by
  refine settled_head.bind fun t => ?_
  cases t.kind with
  | operator op => exact settled_ite (settled_next.bind fun _ => settled_pure op) (settled_fail _)
  | _ => exact settled_fail _

lemma settled_power (table : Precedences) : Settled (Parser.power table) (Parser.power table) :=
  settled_head.bind fun t => settled_pure (table.power t.lexeme)

lemma settled_literal (value : Double) (type : ValueType) : Settled (literal value type) (literal value type) :=
  settled_next.bind fun t => settled_pure (Expr.number t.position value type)

lemma settled_importPath : Settled importPath importPath :=
  settled_next.bind fun t => settled_stringLiteral.bind fun path => settled_pure (Expr.importFile t.position path)

structure Settling (table : Precedences) (depth depth' : ℕ) : Prop where
  parameters : Settled (Parser.parameters depth) (Parser.parameters depth')
  statement : ∀ result, Settled (Parser.statement table depth result) (Parser.statement table depth' result)
  expressionStatement : ∀ result, Settled (Parser.expressionStatement table depth result)
    (Parser.expressionStatement table depth' result)
  declaration : ∀ result, Settled (Parser.declaration table depth result) (Parser.declaration table depth' result)
  function : Settled (Parser.function table depth) (Parser.function table depth')
  body : ∀ result, Settled (Parser.body table depth result) (Parser.body table depth' result)
  expression : ∀ result context, Settled (Parser.expression table depth result context)
    (Parser.expression table depth' result context)
  primary : ∀ result context, Settled (Parser.primary table depth result context)
    (Parser.primary table depth' result context)
  arguments : ∀ result, Settled (Parser.arguments table depth result) (Parser.arguments table depth' result)
  climb : ∀ result context least lhs, Settled (Parser.climb table depth result context least lhs)
    (Parser.climb table depth' result context least lhs)
  conditional : ∀ result context, Settled (Parser.conditional table depth result context)
    (Parser.conditional table depth' result context)
  moreConditions : ∀ result context, Settled (Parser.moreConditions table depth result context)
    (Parser.moreConditions table depth' result context)
  condition : ∀ result context, Settled (Parser.condition table depth result context)
    (Parser.condition table depth' result context)
  operand : ∀ result context, Settled (Parser.operand table depth result context)
    (Parser.operand table depth' result context)

lemma settling_zero : Settling table 0 depth := by
  constructor <;> intros <;> exact settled_exhausted

lemma Settling.exhausted (h : Settling table depth depth') : Settling table depth 0 where
  parameters := h.parameters.exhausted
  statement result := (h.statement result).exhausted
  expressionStatement result := (h.expressionStatement result).exhausted
  declaration result := (h.declaration result).exhausted
  function := h.function.exhausted
  body result := (h.body result).exhausted
  expression result context := (h.expression result context).exhausted
  primary result context := (h.primary result context).exhausted
  arguments result := (h.arguments result).exhausted
  climb result context least lhs := (h.climb result context least lhs).exhausted
  conditional result context := (h.conditional result context).exhausted
  moreConditions result context := (h.moreConditions result context).exhausted
  condition result context := (h.condition result context).exhausted
  operand result context := (h.operand result context).exhausted

section Step

variable (ih : Settling table depth depth')
include ih

lemma Settling.parameters_succ : Settled (Parser.parameters (depth + 1)) (Parser.parameters (depth' + 1)) :=
  settled_valueType.bind fun _ => (settled_identifier _).bind fun _ => settled_head.bind fun _ => settled_ite
    (settled_next.bind fun _ => ih.parameters.bind fun _ => settled_pure _) (settled_pure _)

lemma Settling.prototype : Settled (Parser.prototype depth) (Parser.prototype depth') := by
  refine settled_next.bind fun fn => (settled_identifier _).bind fun name => (settled_punctuation _ _).bind fun _ =>
    settled_head.bind fun _ => settled_ite ?_ (ih.parameters.bind fun ps => ?_)
  · exact (settled_punctuation _ _).bind fun _ => (settled_punctuation _ _).bind fun _ =>
      settled_valueType.bind fun result => settled_pure _
  · exact (settled_punctuation _ _).bind fun _ => (settled_punctuation _ _).bind fun _ =>
      settled_valueType.bind fun result => settled_pure _

lemma Settling.statement_succ (result : ValueType) : Settled (Parser.statement table (depth + 1) result)
    (Parser.statement table (depth' + 1) result) := by
  refine settled_head.bind fun t => ?_
  split
  · exact ih.function
  · exact settled_next.bind fun _ => (ih.expression _ _).bind fun value => (settled_punctuation _ _).bind fun _ =>
      settled_pure _
  · exact (ih.conditional _ _).bind fun e => settled_pure _
  · exact (settled_look (i := 1) (by omega)).bind fun _ => settled_ite (ih.expressionStatement _) (ih.declaration _)
  · exact ih.expressionStatement _

lemma Settling.expressionStatement_succ (result : ValueType) :
    Settled (Parser.expressionStatement table (depth + 1) result)
      (Parser.expressionStatement table (depth' + 1) result) :=
  (ih.expression _ _).bind fun _ => (settled_punctuation _ _).bind fun _ => settled_pure _

lemma Settling.declaration_succ (result : ValueType) : Settled (Parser.declaration table (depth + 1) result)
    (Parser.declaration table (depth' + 1) result) :=
  settled_head.bind fun _ => settled_valueType.bind fun _ => (settled_identifier _).bind fun _ =>
    settled_head.bind fun _ => settled_ite
      (settled_next.bind fun _ => (ih.expression _ _).bind fun _ => (settled_punctuation _ _).bind fun _ =>
        settled_pure _)
      (settled_fail _)

lemma Settling.function_succ : Settled (Parser.function table (depth + 1)) (Parser.function table (depth' + 1)) :=
  ih.prototype.bind fun _ => settled_head.bind fun _ => settled_ite
    (settled_next.bind fun _ => settled_pure _)
    ((settled_punctuation _ _).bind fun _ => (ih.body _).bind fun _ => settled_pure _)

lemma Settling.body_succ (result : ValueType) : Settled (Parser.body table (depth + 1) result)
    (Parser.body table (depth' + 1) result) :=
  settled_head.bind fun _ => settled_ite (settled_next.bind fun _ => settled_pure [])
    (settled_finished.bind fun _ => settled_ite (settled_fail _)
      ((ih.statement _).bind fun _ => (ih.body _).bind fun _ => settled_pure _))

lemma Settling.expression_succ (result context : ValueType) :
    Settled (Parser.expression table (depth + 1) result context)
      (Parser.expression table (depth' + 1) result context) :=
  (ih.primary _ _).bind fun _ => ih.climb _ _ _ _

lemma Settling.operand_succ (result context : ValueType) : Settled (Parser.operand table (depth + 1) result context)
    (Parser.operand table (depth' + 1) result context) :=
  (ih.primary _ _).bind fun _ => ih.climb _ _ _ _

lemma Settling.primary_succ (result context : ValueType) : Settled (Parser.primary table (depth + 1) result context)
    (Parser.primary table (depth' + 1) result context) := by
  refine settled_head.bind fun t => ?_
  split
  · exact settled_literal _ _
  · exact settled_literal _ _
  · exact settled_literal _ _
  · exact settled_next.bind fun _ => settled_pure _
  · refine settled_next.bind fun _ => settled_head.bind fun _ => settled_ite ?_ (settled_ite ?_ (settled_pure _))
    · refine settled_next.bind fun _ => settled_head.bind fun _ => settled_ite ?_ ((ih.arguments _).bind fun _ => ?_)
      · exact (settled_punctuation _ _).bind fun _ => settled_pure _
      · exact (settled_punctuation _ _).bind fun _ => settled_pure _
    · exact settled_next.bind fun _ => (ih.expression _ _).bind fun _ => settled_pure _
  · exact settled_next.bind fun _ => (ih.expression _ _).bind fun _ => (settled_punctuation _ _).bind fun _ =>
      settled_pure _
  · exact (settled_look (i := 1) (by omega)).bind fun _ => settled_ite
      (settled_valueType.bind fun _ => (settled_punctuation _ _).bind fun _ => (ih.expression _ _).bind fun _ =>
        (settled_punctuation _ _).bind fun _ => settled_pure _)
      (settled_fail _)
  · exact ih.conditional _ _
  · exact settled_importPath
  · exact settled_fail _

lemma Settling.arguments_succ (result : ValueType) : Settled (Parser.arguments table (depth + 1) result)
    (Parser.arguments table (depth' + 1) result) :=
  (ih.expression _ _).bind fun _ => settled_head.bind fun _ => settled_ite
    (settled_next.bind fun _ => (ih.arguments _).bind fun _ => settled_pure _) (settled_pure _)

lemma Settling.climb_succ (result context : ValueType) (least : Double) (lhs : Expr) :
    Settled (Parser.climb table (depth + 1) result context least lhs)
      (Parser.climb table (depth' + 1) result context least lhs) :=
  (settled_power table).bind fun _ => settled_ite (settled_pure lhs) (settled_next.bind fun _ =>
    (ih.primary _ _).bind fun _ => (settled_power table).bind fun _ => settled_ite
      ((ih.climb _ _ _ _).bind fun _ => ih.climb _ _ _ _) (ih.climb _ _ _ _))

lemma Settling.conditional_succ (result context : ValueType) :
    Settled (Parser.conditional table (depth + 1) result context)
      (Parser.conditional table (depth' + 1) result context) :=
  settled_next.bind fun _ => (settled_punctuation _ _).bind fun _ => (ih.condition _ _).bind fun _ =>
    (ih.moreConditions _ _).bind fun _ => (settled_punctuation _ _).bind fun _ =>
      (settled_punctuation _ _).bind fun _ => (ih.body _).bind fun _ => settled_pure _

lemma Settling.moreConditions_succ (result context : ValueType) :
    Settled (Parser.moreConditions table (depth + 1) result context)
      (Parser.moreConditions table (depth' + 1) result context) := by
  refine settled_head.bind fun t => ?_
  cases separator? t with
  | none => exact settled_pure _
  | some separator =>
    exact settled_next.bind fun _ => (ih.condition _ _).bind fun _ => (ih.moreConditions _ _).bind fun _ =>
      settled_pure _

lemma Settling.condition_succ (result context : ValueType) : Settled (Parser.condition table (depth + 1) result context)
    (Parser.condition table (depth' + 1) result context) :=
  (ih.operand _ _).bind fun _ => settled_comparison.bind fun _ => (ih.operand _ _).bind fun _ => settled_pure _

lemma Settling.step : Settling table (depth + 1) (depth' + 1) where
  parameters := ih.parameters_succ
  statement := ih.statement_succ
  expressionStatement := ih.expressionStatement_succ
  declaration := ih.declaration_succ
  function := ih.function_succ
  body := ih.body_succ
  expression := ih.expression_succ
  primary := ih.primary_succ
  arguments := ih.arguments_succ
  climb := ih.climb_succ
  conditional := ih.conditional_succ
  moreConditions := ih.moreConditions_succ
  condition := ih.condition_succ
  operand := ih.operand_succ

end Step

lemma settling (table : Precedences) (depth depth' : ℕ) : Settling table depth depth' := by
  induction depth generalizing depth' with
  | zero => exact settling_zero
  | succ depth ih =>
    cases depth' with
    | zero => exact (ih depth).step.exhausted
    | succ depth' => exact (ih depth').step

lemma settled_program (table : Precedences) (depth depth' : ℕ) :
    Settled (Parser.program table depth) (Parser.program table depth') := by
  induction depth generalizing depth' with
  | zero => exact settled_exhausted
  | succ depth ih =>
    have hstep (depth' : ℕ) : Settled (Parser.program table (depth + 1)) (Parser.program table (depth' + 1)) :=
      settled_finished.bind fun _ => settled_ite (settled_pure [])
        (((settling table depth depth').statement _).bind fun _ => (ih depth').bind fun _ => settled_pure _)
    cases depth' with
    | zero => exact (hstep depth).exhausted
    | succ depth' => exact hstep depth'

/-- The parser stops with the error at the token of the given index. -/
def RefusedAt (table : Precedences) (tokens : List Token) (e : ParseError) (k : ℕ) : Prop :=
  ∃ t, Parser.program table (depthFor tokens) (.ofTokens tokens) = .error (.error e) t ∧ t.index = k

variable {tokens : List Token} {e : ParseError} {k : ℕ}

instance : Decidable (RefusedAt table tokens e k) :=
  match h : Parser.program table (depthFor tokens) (.ofTokens tokens) with
  | .ok _ _ | .error .exhausted _ => .isFalse fun ⟨_, ht, _⟩ => nomatch h.symm.trans ht
  | .error (.error e') t =>
    decidable_of_iff (e' = e ∧ t.index = k) ⟨fun ⟨he, hk⟩ => ⟨t, he ▸ h, hk⟩, fun ⟨t', ht, hk⟩ => by
      obtain ⟨he, rfl⟩ := EStateM.Result.error.inj (h.symm.trans ht)
      exact ⟨Halt.error.inj he, hk⟩⟩

lemma RefusedAt.parse_eq (h : RefusedAt table tokens e k) : parse tokens table = .error (.error e) := by
  obtain ⟨t, ht, -⟩ := h
  rw [parse, ht]

lemma halts_parse (table : Precedences) (tokens : List Token) :
    Halts (Parser.program table (depthFor tokens)) (.ofTokens tokens) := by
  apply halts_program
  simp only [ofTokens, depthFor]
  omega

lemma RefusedAt.split (h : RefusedAt table tokens e k) (hk : k + 1 < tokens.length) : ∃ t : TokenStream,
    Parser.program table (depthFor tokens) (.ofTokens tokens) = .error (.error e) (t.followed (tokens.drop (k + 2))) ∧
      t.index = k ∧ t.rest = (tokens.drop k).take 2 ∧ t.rest.length = 2 := by
  obtain ⟨t, ht, rfl⟩ := h
  have honward := (settled_program table (depthFor tokens) (depthFor tokens)).onward (ofTokens tokens)
  rw [ht] at honward
  obtain ⟨ts, hrest, hpassed⟩ := honward
  have hindex : t.index = ts.length := by simp [index, show t.passed = ts.reverse ++ [] from hpassed]
  have htokens : tokens.drop t.index = t.rest := by
    rw [hindex, show tokens = ts ++ t.rest from hrest, List.drop_left]
  refine ⟨⟨t.passed, (tokens.drop t.index).take 2⟩, ?_, rfl, rfl, ?_⟩
  · rw [ht, TokenStream.followed, ← List.drop_drop, List.take_append_drop, htokens]
  · rw [List.length_take, List.length_drop]
    omega

end Parser

open Keel.Parser in
/-- An error blames the token that the parser has come to, and nothing behind the token after that one has a part in
it. -/
theorem parse_refusal_settled {table : Precedences} {tokens : List Token} {e : ParseError} {k : ℕ}
    (h : RefusedAt table tokens e k) (hk : k + 1 < tokens.length) : tokens[k]? = some e.token ∧
      ∀ tokens', k + 1 < tokens'.length → (∀ i ≤ k + 1, tokens'[i]? = tokens[i]?) →
        parse tokens' table = .error (.error e) ∧ RefusedAt table tokens' e k := by
  obtain ⟨t, ht, hindex, hrest, hlength⟩ := h.split hk
  constructor
  · have hblamed := (settled_program table _ (depthFor tokens)).blames _ _ _ ht
    rw [hblamed, TokenStream.head, show (0 : Int) = (0 : ℕ) from rfl, TokenStream.look_followed (by omega)]
    simp only [hrest, List.getElem_take, List.getElem_drop, Nat.add_zero]
    exact List.getElem?_eq_getElem (by omega)
  · intro tokens' hk' hsame
    have htake : tokens'.take (k + 2) = tokens.take (k + 2) := by
      apply List.ext_getElem?
      intro i
      rw [List.getElem?_take, List.getElem?_take]
      split_ifs with hi
      · exact hsame i (by omega)
      · rfl
    have hhalts := halts_parse table tokens
    have hhalts' := halts_parse table tokens'
    rw [TokenStream.ofTokens_split (k + 2)] at ht hhalts hhalts'
    rw [htake] at hhalts'
    have hread := (settled_program table _ (depthFor tokens')).same _ _ (tokens'.drop (k + 2)) (.error (.error e) t) ht
      (Nat.le_of_eq hlength.symm) hhalts hhalts'
    rw [← htake, ← TokenStream.ofTokens_split] at hread
    have hrefused : RefusedAt table tokens' e k := ⟨_, hread, hindex⟩
    exact ⟨hrefused.parse_eq, hrefused⟩

def openSum : List Token := (lex "1 + ; fn").toOption.getD []

def openSumAndMore : List Token := (lex "1 + ; fn f() -> i32").toOption.getD []

def semicolonError : ParseError := ⟨.unknownInExpression, ⟨.punctuation ";", ";", ⟨1, 5, 4⟩⟩⟩

theorem parse_refusal_settled_sum : Parser.RefusedAt .standard openSum semicolonError 2 ∧ 2 + 1 < openSum.length ∧
    openSum[2]? = some semicolonError.token ∧ parse openSumAndMore .standard = .error (.error semicolonError) := by
  have h : Parser.RefusedAt .standard openSum semicolonError 2 := by decide +kernel
  have hlength : 2 + 1 < openSum.length := by decide +kernel
  obtain ⟨hblamed, hsettled⟩ := parse_refusal_settled h hlength
  exact ⟨h, hlength, hblamed, (hsettled openSumAndMore (by decide +kernel) (by decide +kernel)).1⟩

end Keel
