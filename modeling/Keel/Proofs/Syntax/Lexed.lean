import Keel.Proofs.Syntax.Grammar
import Keel.Proofs.Syntax.Regrouping
import Keel.Proofs.Syntax.Shape

namespace Keel

open Grammar

open TokenKind (Inner)

namespace TokenStream

variable {s t : TokenStream} {k k' : TokenKind} {ks : List TokenKind}

def kinds (s : TokenStream) : List TokenKind := s.rest.map Token.kind

structure Lexed (s : TokenStream) : Prop where
  genuine : ∀ t ∈ s.rest, t.Genuine
  regular : ∀ t ∈ s.rest, t.Regular
  closed : ∃ ks, s.kinds = ks ++ [.endOfInput] ∧ .endOfInput ∉ ks

lemma kinds_of_head (hk : s.head.kind ≠ .endOfInput) : s.kinds = s.head.kind :: s.next.kinds := by
  rw [kinds, rest_of_head hk, List.map_cons]
  rfl

lemma Passes.kinds [hk : Inner k] (h : s.Passes k t) : s.kinds = k :: t.kinds := by
  obtain ⟨rfl, rfl⟩ := h
  exact kinds_of_head hk.ne_endOfInput

lemma lexed_ofTokens {source : String} {tokens : List Token} (h : lex source = .ok tokens) :
    (ofTokens tokens).Lexed :=
  ⟨lex_genuine h, lex_regular h, lex_closed h⟩

namespace Lexed

lemma rest_eq (h : s.Lexed) : s.rest = s.head :: s.next.rest := by
  cases hrest : s.rest with
  | nil =>
    obtain ⟨ks, hks, -⟩ := h.closed
    simp [kinds, hrest] at hks
  | cons t ts => simp [head, look, next, hrest]

lemma kinds_eq (h : s.Lexed) : s.kinds = s.head.kind :: s.next.kinds := by
  rw [kinds, h.rest_eq, List.map_cons]
  rfl

lemma head_genuine (h : s.Lexed) : s.head.Genuine := h.genuine _ (by simp [h.rest_eq])

lemma head_regular (h : s.Lexed) : s.head.Regular := h.regular _ (by simp [h.rest_eq])

lemma next (h : s.Lexed) (hk : s.head.kind ≠ .endOfInput) : s.next.Lexed := by
  refine ⟨fun t ht => h.genuine t ?_, fun t ht => h.regular t ?_, ?_⟩
  · rw [h.rest_eq]
    exact List.mem_cons_of_mem _ ht
  · rw [h.rest_eq]
    exact List.mem_cons_of_mem _ ht
  · obtain ⟨ks, hks, hfree⟩ := h.closed
    rw [h.kinds_eq] at hks
    cases ks with
    | nil => exact absurd (List.cons.inj hks).1 hk
    | cons k ks => exact ⟨ks, (List.cons.inj hks).2, fun hmem => hfree (List.mem_cons_of_mem _ hmem)⟩

lemma kinds_end (h : s.Lexed) (hk : s.head.kind = .endOfInput) : s.kinds = [.endOfInput] := by
  obtain ⟨ks, hks, hfree⟩ := h.closed
  have hcons := h.kinds_eq
  cases ks with
  | nil => exact hks
  | cons k ks =>
    rw [hks, List.cons_append, hk] at hcons
    exact absurd (List.mem_cons.mpr (.inl (List.cons.inj hcons).1.symm)) hfree

lemma next_rest_nil (h : s.Lexed) (hk : s.head.kind = .endOfInput) : s.next.rest = [] := by
  have hkinds := h.kinds_end hk
  rw [h.kinds_eq] at hkinds
  exact List.map_eq_nil_iff.mp (List.cons.inj hkinds).2

lemma after [hk : Inner k] (h : s.Lexed) (hp : s.Passes k t) : t.Lexed := by
  obtain ⟨rfl, rfl⟩ := hp
  exact h.next hk.ne_endOfInput

lemma head_ne_of_next (h : s.Lexed) (hk : s.next.head.kind ≠ .endOfInput) : s.head.kind ≠ .endOfInput :=
  fun hend => hk (head_kind_of_rest_nil (h.next_rest_nil hend))

lemma after_next [hk : Inner k] (h : s.Lexed) (hp : s.next.Passes k t) : t.Lexed :=
  (h.next (h.head_ne_of_next (hp.1 ▸ hk.ne_endOfInput))).after hp

lemma passes [hk : Inner k] (h : s.Lexed) (hs : s.kinds = k :: ks) :
    s.Passes k s.next ∧ s.next.Lexed ∧ s.next.kinds = ks := by
  rw [h.kinds_eq] at hs
  obtain ⟨rfl, rfl⟩ := List.cons.inj hs
  exact ⟨⟨rfl, rfl⟩, h.next hk.ne_endOfInput, rfl⟩

lemma head_kind (h : s.Lexed) (hs : s.kinds = k :: ks) : s.head.kind = k := by
  rw [h.kinds_eq] at hs
  exact (List.cons.inj hs).1

lemma head?_eq (h : s.Lexed) : s.kinds.head? = some s.head.kind := by
  rw [h.kinds_eq, List.head?_cons]

lemma look_one (hs : s.kinds = k :: k' :: ks) : (s.look 1).kind = k' := by
  match hrest : s.rest with
  | [] => simp [kinds, hrest] at hs
  | [t] => simp [kinds, hrest] at hs
  | t :: t' :: ts =>
    simp only [kinds, hrest, List.map_cons, List.cons.injEq] at hs
    simpa [look, hrest] using hs.2.1

lemma typeKeyword (h : s.Lexed) {text : String} (hk : s.head.kind = .typeKeyword text) :
    ∃ type, ValueType.ofKeyword? text = some type :=
  Option.isSome_iff_exists.mp (h.head_regular.2 text hk)

end Lexed

end TokenStream

namespace Precedences

variable {op : String} {n k : ℤ} {symbols : List String}

def Reaches (n : ℤ) (symbols : List String) : Prop :=
  ∀ op, op ∈ symbols ↔ ∃ k, standard.HasPower op k ∧ n ≤ k

lemma exists_power (h : op ∈ joiningSymbols) :
    ∃ k, standard.HasPower op k ∧ (op ∈ tightSymbols ↔ 11 ≤ k) := by
  have htable : ∀ op ∈ joiningSymbols, ∃ k ∈ [(2 : ℤ), 10, 20, 40],
      standard.binding? op = some (.ofInt k) ∧ (op ∈ tightSymbols ↔ 11 ≤ k) := by decide +kernel
  obtain ⟨k, hk, hpower, htight⟩ := htable op h
  have hbounds : 0 < k ∧ k < 2 ^ 53 := by
    have : ∀ k ∈ [(2 : ℤ), 10, 20, 40], 0 < k ∧ k < 2 ^ 53 := by decide
    exact this k hk
  exact ⟨k, ⟨hpower, hbounds⟩, htight⟩

lemma joining_of_find? {power : Double} (h : standard.find? op = some power) : op ∈ joiningSymbols := by
  obtain ⟨before, after, heq, -⟩ := List.lookup_eq_some_iff.mp h
  have hkeys : standard.entries.map Prod.fst = joiningSymbols := by decide
  rw [← hkeys, heq]
  simp

lemma HasPower.joining (h : standard.HasPower op k) : op ∈ joiningSymbols :=
  joining_of_find? (Option.filter_eq_some_iff.mp h.1).1

lemma reaches_joining : Reaches 0 joiningSymbols := by
  intro op
  constructor
  · intro hop
    obtain ⟨k, hk, -⟩ := exists_power hop
    exact ⟨k, hk, hk.2.1.le⟩
  · rintro ⟨k, hk, -⟩
    exact hk.joining

lemma reaches_tight : Reaches 11 tightSymbols := by
  intro op
  constructor
  · intro hop
    obtain ⟨k, hk, htight⟩ := exists_power (List.mem_append_right _ hop)
    exact ⟨k, hk, htight.mp hop⟩
  · rintro ⟨k, hk, hle⟩
    obtain ⟨k', hk', htight⟩ := exists_power hk.joining
    exact htight.mpr (hk.unique hk' ▸ hle)

lemma above_ceiling : above standard.ceiling = .ofInt 11 := by decide +kernel

end Precedences

namespace Parser

open TokenStream

open Precedences (standard Reaches)

variable {s t : TokenStream} {op : String} {n k : ℤ} {symbols : List String}

lemma operator_of_power (hs : s.Lexed) (h : standard.HasPower s.head.lexeme k) :
    s.head.kind = .operator s.head.lexeme :=
  hs.head_regular.1 (Precedences.integral_standard.hasPower h.1).1

lemma lexeme_of_operator (hs : s.Lexed) (h : s.head.kind = .operator op) : s.head.lexeme = op := by
  have hgenuine := hs.head_genuine
  rw [Token.Genuine, h] at hgenuine
  exact hgenuine

lemma ends_iff (hs : s.Lexed) (hn : Reaches n symbols) :
    Grammar.Ends symbols s.kinds ↔ ∀ k, standard.HasPower s.head.lexeme k → k < n := by
  constructor
  · intro hends k hk
    by_contra hle
    apply hends s.head.lexeme ((hn _).mpr ⟨k, hk, not_lt.mp hle⟩)
    rw [hs.head?_eq, operator_of_power hs hk]
  · intro hlt op hop hhead
    obtain ⟨k, hk, hle⟩ := (hn op).mp hop
    rw [hs.head?_eq] at hhead
    rw [← lexeme_of_operator hs (Option.some.inj hhead)] at hk
    exact absurd (hlt k hk) (not_lt.mpr hle)

lemma separator_kind (h : separator? s.head = some op) : s.head.kind = .operator op ∧ op ∈ separatorSymbols := by
  unfold separator? at h
  split at h
  · rename_i op' hk
    split_ifs at h with hop
    obtain rfl : op' = op := Option.some.inj h
    simp only [Bool.or_eq_true, decide_eq_true_eq] at hop
    exact ⟨hk, by simpa [separatorSymbols] using hop⟩
  · simp at h

lemma separator_of_kind (hk : s.head.kind = .operator op) (hop : op ∈ separatorSymbols) :
    separator? s.head = some op := by
  simp only [separatorSymbols, List.mem_cons, List.not_mem_nil, or_false] at hop
  rcases hop with rfl | rfl <;> simp [separator?, hk]

lemma Derives.lexed {φ : Phrase} (h : Derives standard φ s t) (hs : s.Lexed) : t.Lexed := by
  induction h with
  | climbStep hown _ _ _ _ ihp ihr ih =>
    obtain ⟨-, k, -, hk⟩ := Precedences.integral_standard.hasPower hown
    exact ih (ihr (ihp (hs.next (by simp [operator_of_power hs hk]))))
  | nextCondition hsep _ _ ihc ih => exact ih (ihc (hs.next (by simp [(separator_kind hsep).1])))
  | _ => grind [Passes, Lexed.next, Lexed.head_ne_of_next]

end Parser

end Keel
