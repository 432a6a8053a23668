import Keel.Proofs.Token.Tiling

namespace Keel

namespace Lexer

def IsName (name : String) : Prop := IsWord name.toList ∧ wordKind name = .identifier name

end Lexer

def Token.Genuine (t : Token) : Prop :=
  match t.kind with
  | .int value => value.isFinite → value.IsLiteral ∧ value.isInteger
  | .float value => value.isFinite → value.IsLiteral
  | .identifier name => t.lexeme = name ∧ Lexer.IsName name
  | .operator op => t.lexeme = op
  | .endOfInput => t.lexeme = ""
  | _ => True

def Token.Regular (t : Token) : Prop :=
  (t.lexeme ∈ Lexer.operatorSymbols → t.kind = .operator t.lexeme) ∧
    ∀ name, t.kind = .typeKeyword name → (ValueType.ofKeyword? name).isSome

namespace Lexer

lemma toFloating_isInteger (n : ℕ) (h : (Decimal.toFloating false ⟨n, 0⟩ : Double).isFinite) :
    (Decimal.toFloating false ⟨n, 0⟩ : Double).isInteger := by
  simp only [Decimal.toFloating, neg_zero, Int.toNat_zero, pow_zero, mul_one] at h ⊢
  exact Floating.round_isInteger false n (by decide) h

variable {kind : TokenKind} {text : List Char}

lemma Spelt.genuine (h : Spelt kind text) (place : Position) : Token.Genuine ⟨kind, String.ofList text, place⟩ := by
  cases h with
  | int _ _ => exact fun hf => ⟨Floating.isLiteral_toFloating _ hf, toFloating_isInteger _ hf⟩
  | float _ _ _ _ => exact fun hf => Floating.isLiteral_toFloating _ hf
  | identifier hword htype hkeyword hbool =>
    exact ⟨String.ofList_toList, hword, wordKind_identifier htype hkeyword hbool⟩
  | operator _ => exact String.ofList_toList
  | _ => trivial

lemma Spelt.regular (h : Spelt kind text) (place : Position) : Token.Regular ⟨kind, String.ofList text, place⟩ := by
  constructor
  · intro hop
    have hoperator := Spelt.operator hop
    rw [String.toList_ofList] at hoperator
    exact h.unique hoperator
  · rintro name rfl
    cases h with
    | typeKeyword type =>
      cases type <;> rfl

end Lexer

section Lex

variable {source : String} {tokens : List Token}

lemma lex_lexemes (h : lex source = .ok tokens) :
    ∃ before last, tokens = before ++ [Token.endOfInput last] ∧ ∀ t ∈ before, Lexer.Spelt t.kind t.lexeme.toList := by
  obtain ⟨before, rfl, hbefore⟩ := ((Lexer.scanned [] source.toList).tiled tokens h).closed
  exact ⟨before, _, rfl, hbefore⟩

lemma lex_genuine (h : lex source = .ok tokens) : ∀ t ∈ tokens, t.Genuine := by
  obtain ⟨before, last, rfl, hbefore⟩ := lex_lexemes h
  intro t ht
  rcases List.mem_append.mp ht with ht | ht
  · have hgenuine := (hbefore t ht).genuine t.position
    rwa [String.ofList_toList] at hgenuine
  · obtain rfl := List.mem_singleton.mp ht
    rfl

lemma lex_regular (h : lex source = .ok tokens) : ∀ t ∈ tokens, t.Regular := by
  obtain ⟨before, last, rfl, hbefore⟩ := lex_lexemes h
  intro t ht
  rcases List.mem_append.mp ht with ht | ht
  · have hregular := (hbefore t ht).regular t.position
    rwa [String.ofList_toList] at hregular
  · obtain rfl := List.mem_singleton.mp ht
    exact ⟨fun hop => absurd hop (show "" ∉ Lexer.operatorSymbols by decide), by simp [Token.endOfInput]⟩

lemma lex_closed (h : lex source = .ok tokens) :
    ∃ ks, tokens.map Token.kind = ks ++ [.endOfInput] ∧ .endOfInput ∉ ks := by
  obtain ⟨before, last, rfl, hbefore⟩ := lex_lexemes h
  refine ⟨before.map Token.kind, by simp [Token.endOfInput], fun hmem => ?_⟩
  obtain ⟨t, ht, hkind⟩ := List.mem_map.mp hmem
  exact (hbefore t ht).ne_endOfInput hkind

end Lex

end Keel
