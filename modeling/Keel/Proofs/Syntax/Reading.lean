import Keel.Proofs.Syntax.Derivation
import Mathlib.Tactic.Common
import Mathlib.Tactic.SplitIfs

namespace Keel.Reader

open TokenStream

variable {α β : Type} {s t : TokenStream}

lemma bind_ok {x : Reader α} {f : α → Reader β} {b : β} :
    (x >>= f) s = .ok b t ↔ ∃ a u, x s = .ok a u ∧ f a u = .ok b t := by
  simp only [bind, EStateM.bind]
  cases x s with
  | ok a u =>
    constructor
    · intro h
      exact ⟨a, u, rfl, h⟩
    · rintro ⟨a', u', h, h'⟩
      cases h
      exact h'
  | error e u => simp

lemma pure_ok {a b : α} : (pure a : Reader α) s = .ok b t ↔ a = b ∧ t = s := by
  simp [pure, EStateM.pure, eq_comm]

lemma ite_ok {c : Prop} [Decidable c] {x y : Reader α} {a : α} :
    (if c then x else y) s = .ok a t ↔ (c ∧ x s = .ok a t) ∨ (¬ c ∧ y s = .ok a t) := by
  split_ifs with h <;> simp [h]

lemma exhausted_ok {a : α} : ¬ (exhausted : Reader α) s = .ok a t := nofun

lemma fail_ok {c : ParseCause} {a : α} : ¬ fail c s = .ok a t := nofun

lemma head_bind (f : Token → Reader β) : (head >>= f) s = f s.head s := rfl

lemma head_bind_ok {f : Token → Reader β} {b : β} :
    (head >>= f) s = .ok b t ↔ ∃ x, f s.head = x ∧ x s = .ok b t := by
  simp [head_bind]

lemma finished_bind (f : Bool → Reader β) : (finished >>= f) s = f s.finished s := rfl

lemma finished_iff : s.finished = true ↔ s.head.kind = .endOfInput := by
  simp [TokenStream.finished, Token.is]

lemma look_bind (i : Int) (f : Token → Reader β) : (look i >>= f) s = f (s.look i) s := rfl

lemma next_bind (f : Token → Reader β) : (next >>= f) s = f s.head s.next := rfl

lemma next_ok {a : Token} : next s = .ok a t ↔ s.head = a ∧ t = s.next := by
  rw [← pure_ok]
  exact Iff.rfl

lemma is_iff {a : Token} {kind : TokenKind} : a.is kind = true ↔ a.kind = kind := by
  simp [Token.is]

lemma punctuation_ok {symbol : String} {code : ParseCode} {a : Token} :
    punctuation symbol code s = .ok a t ↔ s.head = a ∧ s.Passes (.punctuation symbol) t := by
  simp only [punctuation, head_bind, ite_ok, next_ok, fail_ok, is_iff, Passes]
  grind

lemma identifier_ok {code : ParseCode} {name : String} :
    identifier code s = .ok name t ↔ s.Passes (.identifier name) t := by
  simp only [identifier, head_bind, Passes]
  cases s.head.kind <;> simp [next_bind, pure_ok, fail_ok]

lemma stringLiteral_ok {value : String} : stringLiteral s = .ok value t ↔ s.Passes (.string value) t := by
  simp only [stringLiteral, head_bind, Passes]
  cases s.head.kind <;> simp [next_bind, pure_ok, fail_ok]

lemma valueType_ok {type : ValueType} :
    valueType s = .ok type t ↔
      ∃ text, s.Passes (.typeKeyword text) t ∧ ValueType.ofKeyword? text = some type := by
  simp only [valueType, head_bind, Passes]
  cases s.head.kind with
  | typeKeyword text =>
    cases htype : ValueType.ofKeyword? text <;> simp [next_bind, pure_ok, fail_ok, htype, and_comm]
  | _ => simp [fail_ok]

end Keel.Reader

namespace Keel.Parser

open Reader TokenStream

variable {table : Precedences} {s t : TokenStream}

lemma power_bind {β : Type} (f : Double → Reader β) :
    (power table >>= f) s = f (table.power s.head.lexeme) s := rfl

lemma comparison_ok {op : String} :
    comparison s = .ok op t ↔ s.Passes (.operator op) t ∧ yieldsTruth op = true := by
  simp only [comparison, head_bind, Passes]
  cases s.head.kind with
  | operator text => simp only [ite_ok, next_bind, pure_ok, fail_ok]; grind
  | _ => simp [fail_ok]

end Keel.Parser
