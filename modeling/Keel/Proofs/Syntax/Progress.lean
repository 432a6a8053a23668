import Keel.Proofs.Syntax.Foresight

/-! Every phrase takes tokens, and so the parser comes to an end. -/

namespace Keel

namespace TokenStream

variable {s t : TokenStream}

def tokens (s : TokenStream) : List Token := s.passed.reverse ++ s.rest

lemma index_add_length (s : TokenStream) : s.index + s.rest.length = s.tokens.length := by
  simp [tokens, index]

lemma Onward.tokens_eq (h : s.Onward t) : t.tokens = s.tokens := by
  obtain ⟨ts, hrest, hpassed⟩ := h
  simp [tokens, hrest, hpassed]

end TokenStream

namespace Reader

open TokenStream

variable {α : Type} {x y : Reader α} {tokens : List Token}

def Advances (tokens : List Token) (x : Reader α) : Prop :=
  ∀ s v t, s.tokens = tokens → x s = .ok v t → s.index < t.index ∧ t.index ≤ tokens.length

def Remains (tokens : List Token) (x : Reader α) : Prop :=
  ∀ s v t, s.tokens = tokens → x s = .ok v t → s.index ≤ t.index ∧ t.index ≤ tokens.length

lemma Settled.index_add_length (h : Settled x y) {s t : TokenStream} {v : α} (hx : x s = .ok v t) :
    t.index + t.rest.length = s.index + s.rest.length := by
  have honward := h.onward s
  rw [hx] at honward
  have htokens : t.tokens = s.tokens := honward.tokens_eq
  rw [t.index_add_length, s.index_add_length, htokens]

lemma Settled.advances (h : Settled x y)
    (hlength : ∀ s v t, x s = .ok v t → t.rest.length + 1 ≤ s.rest.length) : Advances tokens x := by
  intro s v t hs hx
  have hindex := h.index_add_length hx
  have htokens := s.index_add_length
  have htaken := hlength s v t hx
  rw [hs] at htokens
  omega

lemma Settled.remains (h : Settled x y) (hlength : ∀ s v t, x s = .ok v t → t.rest.length ≤ s.rest.length) :
    Remains tokens x := by
  intro s v t hs hx
  have hindex := h.index_add_length hx
  have htokens := s.index_add_length
  have htaken := hlength s v t hx
  rw [hs] at htokens
  omega

end Reader

namespace Parser

open Reader TokenStream

variable {table : Precedences} {s t : TokenStream}

/-- Wherever among the tokens they begin, statements, expressions, signatures and types take a token or more. -/
structure Progresses (table : Precedences) (tokens : List Token) : Prop where
  statement : ∀ depth result, Advances tokens (Parser.statement table depth result)
  expression : ∀ depth result context, Advances tokens (Parser.expression table depth result context)
  primary : ∀ depth result context, Advances tokens (Parser.primary table depth result context)
  conditional : ∀ depth result context, Advances tokens (Parser.conditional table depth result context)
  prototype : ∀ depth, Advances tokens (Parser.prototype depth)
  valueType : Advances tokens Reader.valueType
  climb : ∀ depth result context least lhs, Remains tokens (Parser.climb table depth result context least lhs)
  body : ∀ depth result, Remains tokens (Parser.body table depth result)

lemma progresses (table : Precedences) (tokens : List Token) : Progresses table tokens where
  statement depth result := ((settling table depth depth).statement result).advances fun _ _ _ h => length_statement h
  expression depth result context := ((settling table depth depth).expression result context).advances fun _ _ _ h =>
    length_expression h
  primary depth result context := ((settling table depth depth).primary result context).advances fun _ _ _ h =>
    length_primary h
  conditional depth result context := ((settling table depth depth).conditional result context).advances fun _ _ _ h =>
    ((sound depth).conditional h).length_le
  prototype depth := (settling table depth depth).prototype.advances fun _ _ _ h =>
    have hp : Derives table (.prototype _) _ _ := prototype_sound h
    hp.length_le
  valueType := settled_valueType.advances fun _ _ _ h => Nat.le_of_eq (length_valueType h).symm
  climb depth result context least lhs :=
    ((settling table depth depth).climb result context least lhs).remains fun _ _ _ h => length_climb h
  body depth result := ((settling table depth depth).body result).remains fun _ _ _ h =>
    Nat.le_of_succ_le ((sound depth).body h).length_le

lemma length_program {depth : ℕ} {p : Program} (h : Parser.program table depth s = .ok p t) :
    p.length + t.rest.length ≤ s.rest.length := by
  induction depth generalizing s p with
  | zero => exact (exhausted_ok h).elim
  | succ depth ih =>
    simp only [Parser.program, finished_bind, bind_ok, ite_ok, pure_ok] at h
    obtain ⟨-, rfl, rfl⟩ | ⟨-, first, u, hfirst, rest, v, hrest, rfl, rfl⟩ := h
    · exact Nat.le_of_eq (Nat.zero_add _)
    · have htaken := length_statement hfirst
      have hleft := ih hrest
      rw [List.length_cons]
      omega

end Parser

/-- The parser goes forward with every phrase that it reads, and ends with a program or an error. -/
theorem parse_progresses (table : Precedences) (tokens : List Token) : Parser.Progresses table tokens ∧
    ((∃ p, parse tokens table = .ok p ∧ p.length ≤ tokens.length) ∨ ∃ e, parse tokens table = .error (.error e)) := by
  refine ⟨Parser.progresses table tokens, ?_⟩
  have hhalts := Parser.halts_parse table tokens
  unfold parse
  cases h : Parser.program table (Parser.depthFor tokens) (.ofTokens tokens) with
  | ok p t => exact .inl ⟨p, rfl, Nat.le_of_add_right_le (Parser.length_program h)⟩
  | error e t =>
    cases e with
    | error e => exact .inr ⟨e, rfl⟩
    | exhausted => exact absurd h (hhalts t)

end Keel
