import Keel.Proofs.Syntax.Bounds
import Keel.Proofs.Syntax.Derivation
import Keel.Token.Lexer

namespace Keel.Precedences

open Floating

/-- The operators are the lexer's and their powers whole numbers that are exact. -/
def Integral (table : Precedences) : Prop :=
  ∀ entry ∈ table.entries, entry.1 ∈ Lexer.operatorSymbols ∧
    ((∃ n : ℤ, n.natAbs < 2 ^ 53 ∧ entry.2 = .ofInt n) ∨ entry.2 = .zero true)

def HasPower (table : Precedences) (lexeme : String) (n : ℤ) : Prop :=
  table.binding? lexeme = some (.ofInt n) ∧ 0 < n ∧ n < 2 ^ 53

variable {table : Precedences} {lexeme op : String} {n k : ℤ}

lemma find?_mem {power : Double} (h : table.find? op = some power) : (op, power) ∈ table.entries := by
  obtain ⟨before, after, heq, -⟩ := List.lookup_eq_some_iff.mp h
  simp [heq]

lemma exactInt_of_bounds (hn : 0 ≤ n) (h : n < 2 ^ 53) : ExactInt n := by
  unfold ExactInt
  omega

lemma HasPower.exact (h : table.HasPower op n) : ExactInt n := exactInt_of_bounds h.2.1.le h.2.2

lemma HasPower.isPositive (h : table.HasPower op n) : (Floating.ofInt n : Double).isPositive = true := by
  have hzero : ExactInt 0 := by simp [ExactInt]
  rw [Floating.isPositive, ← ofInt_zero, ofInt_lt hzero h.exact]
  exact decide_eq_true h.2.1

lemma HasPower.level (h : table.HasPower op n) : table.level op = .ofInt n := by
  have hb := h.1
  simp only [binding?, Option.filter_eq_some_iff] at hb
  rw [Precedences.level, hb.1, Option.getD_some]

lemma ofInt_inj (hn : ExactInt n) (hk : ExactInt k) (h : (Floating.ofInt n : Double) = .ofInt k) : n = k := by
  have hrat := congrArg toRat h
  rw [toRat_ofInt hn, toRat_ofInt hk] at hrat
  exact_mod_cast hrat

lemma HasPower.unique (h : table.HasPower op n) (h' : table.HasPower op k) : n = k :=
  ofInt_inj h.exact h'.exact (Option.some.inj (h.1.symm.trans h'.1))

/-- The powers are whole numbers that are exact, whatever lexemes they belong to. -/
def Whole (table : Precedences) : Prop :=
  ∀ entry ∈ table.entries, (∃ n : ℤ, n.natAbs < 2 ^ 53 ∧ entry.2 = .ofInt n) ∨ entry.2 = .zero true

lemma exactInt_of_natAbs (h : n.natAbs < 2 ^ 53) : ExactInt n := by
  unfold ExactInt
  omega

namespace Whole

variable (ht : table.Whole)
include ht

lemma hasPower {power : Double} (h : table.binding? op = some power) : ∃ n, power = .ofInt n ∧ table.HasPower op n := by
  obtain ⟨hfind, hpos⟩ := Option.filter_eq_some_iff.mp h
  obtain ⟨n, hn, rfl⟩ | rfl := ht (op, power) (find?_mem hfind)
  · have hzero : ExactInt 0 := by simp [ExactInt]
    rw [← ofInt_zero, ofInt_le (exactInt_of_natAbs hn) hzero, ← decide_not, decide_eq_true_eq] at hpos
    exact ⟨n, rfl, h, by omega, by omega⟩
  · exact absurd hpos (by decide)

lemma power_ofInt (lexeme : String) :
    ∃ n, ExactInt n ∧ table.power lexeme = .ofInt n ∧ (table.HasPower lexeme n ∨ n = -1) := by
  cases hb : table.binding? lexeme with
  | none => exact ⟨-1, by simp [ExactInt], power_of_none hb, .inr rfl⟩
  | some power =>
    obtain ⟨n, rfl, hn⟩ := ht.hasPower hb
    exact ⟨n, hn.exact, power_of_binding? hb, .inl hn⟩

lemma stops_ofInt (hn : ExactInt n) (hn' : 0 ≤ n) (h : ∀ k, table.HasPower lexeme k → k < n) :
    table.Stops (.ofInt n) lexeme := by
  obtain ⟨k, hexact, hpower, hk⟩ := ht.power_ofInt lexeme
  rw [Stops, hpower, ofInt_lt hexact hn, decide_eq_true_eq]
  obtain hk | rfl := hk
  · exact h k hk
  · omega

lemma level_ofInt (op : String) : ∃ n : ℤ, n.natAbs < 2 ^ 53 ∧
    (table.level op = .ofInt n ∨ n = 0 ∧ table.level op = .zero true) := by
  cases h : table.find? op with
  | none => exact ⟨0, by decide, .inl (by rw [Precedences.level, h]; rfl)⟩
  | some power =>
    have hl : table.level op = power := by rw [Precedences.level, h, Option.getD_some]
    obtain ⟨n, hn, rfl⟩ | rfl := ht (op, power) (find?_mem h)
    · exact ⟨n, hn, .inl hl⟩
    · exact ⟨0, by decide, .inr ⟨rfl, hl⟩⟩

lemma level_toRat (op : String) :
    ∃ n : ℤ, n.natAbs < 2 ^ 53 ∧ (table.level op).isFinite ∧ (table.level op).toRat = n := by
  obtain ⟨n, hn, hl | ⟨rfl, hl⟩⟩ := ht.level_ofInt op
  · have hexact := exactInt_of_natAbs hn
    exact ⟨n, hn, hl ▸ ofInt_finite hexact, hl ▸ toRat_ofInt hexact⟩
  · exact ⟨0, hn, hl ▸ rfl, by simp [hl, zero, toRat]⟩

lemma greater_level {c : ℤ} (hc : 0 ≤ c) (hc' : c < 2 ^ 53) (op : String) :
    ∃ d, c ≤ d ∧ d < 2 ^ 53 ∧ greater (.ofInt c) (table.level op) = .ofInt d ∧
      (table.level op).toRat ≤ d ∧ (d = c ∨ table.level op = .ofInt d) := by
  have hexact := exactInt_of_bounds hc hc'
  obtain ⟨n, hn, hl | ⟨rfl, hl⟩⟩ := ht.level_ofInt op
  · have hn' := exactInt_of_natAbs hn
    rw [greater, hl, ofInt_lt hexact hn', toRat_ofInt hn']
    have hnan : (Floating.ofInt n : Double) ≠ .nan := ne_nan_of_finite (ofInt_finite hn')
    by_cases h : c < n
    · exact ⟨n, h.le, by omega, by simp [h], le_rfl, .inr rfl⟩
    · exact ⟨c, le_rfl, hc', by simp [h, hnan], by exact_mod_cast not_lt.mp h, .inl rfl⟩
  · have hlt : (Floating.ofInt c : Double).lt (.zero true) = false := by
      rw [Bool.eq_false_iff, Ne, lt_iff (ofInt_finite hexact) rfl, toRat_ofInt hexact]
      simpa [zero, toRat] using hc
    have hnan : (zero true : Double) ≠ .nan := ne_nan_of_finite rfl
    exact ⟨c, le_rfl, hc', by simp [greater, hl, hlt, hnan], by simpa [hl, zero, toRat] using hc, .inl rfl⟩

lemma foldl_greater {c : ℤ} (hc : 0 ≤ c) (hc' : c < 2 ^ 53) (ops : List String) :
    ∃ d, c ≤ d ∧ d < 2 ^ 53 ∧ (ops.map table.level).foldl greater (.ofInt c) = .ofInt d ∧
      (∀ op ∈ ops, (table.level op).toRat ≤ d) ∧ (d = c ∨ ∃ op ∈ ops, table.level op = .ofInt d) := by
  induction ops generalizing c with
  | nil => exact ⟨c, le_rfl, hc', rfl, by simp, .inl rfl⟩
  | cons op ops ih =>
    obtain ⟨d, hd, hd', hgreater, hop, hattained⟩ := ht.greater_level hc hc' op
    obtain ⟨b, hb, hb', hfold, hops, hlater⟩ := ih (hc.trans hd) hd'
    refine ⟨b, hd.trans hb, hb', ?_, ?_, ?_⟩
    · rw [List.map_cons, List.foldl_cons, hgreater, hfold]
    · exact List.forall_mem_cons.mpr ⟨hop.trans (by exact_mod_cast hb), hops⟩
    · obtain rfl | ⟨op', hop', hl⟩ := hlater
      · exact hattained.imp id fun hl => ⟨op, List.mem_cons_self .., hl⟩
      · exact .inr ⟨op', List.mem_cons_of_mem _ hop', hl⟩

lemma ceiling : ∃ c, 0 ≤ c ∧ c < 2 ^ 53 ∧ table.ceiling = .ofInt c ∧
    (∀ op ∈ comparisonSymbols, (table.level op).toRat ≤ c) ∧
    (c = 0 ∨ ∃ op ∈ comparisonSymbols, table.level op = .ofInt c) :=
  ht.foldl_greater le_rfl (by norm_num) comparisonSymbols

end Whole

namespace Integral

variable (ht : table.Integral)
include ht

lemma whole : table.Whole := fun entry he => (ht entry he).2

lemma hasPower {power : Double} (h : table.binding? op = some power) :
    op ∈ Lexer.operatorSymbols ∧ ∃ n, power = .ofInt n ∧ table.HasPower op n := by
  exact ⟨(ht (op, power) (find?_mem (Option.filter_eq_some_iff.mp h).1)).1, ht.whole.hasPower h⟩

lemma ceiling : ∃ c, 0 ≤ c ∧ c < 2 ^ 53 ∧ table.ceiling = .ofInt c ∧
    ∀ op, yieldsTruth op = true → ∀ n, table.HasPower op n → n ≤ c := by
  obtain ⟨c, hc, hc', hceiling, hle, -⟩ := ht.whole.ceiling
  refine ⟨c, hc, hc', hceiling, fun op hop n hn => ?_⟩
  have hlevel := hle op (by simpa [yieldsTruth] using hop)
  rw [hn.level, toRat_ofInt hn.exact] at hlevel
  exact_mod_cast hlevel

end Integral

lemma above_ofInt (hn : 0 ≤ n) (h : n < 2 ^ 53) : above (.ofInt n) = .ofInt (n + 1) :=
  ofInt_add_one hn h

lemma exactInt_succ (hn : 0 ≤ n) (h : n < 2 ^ 53) : ExactInt (n + 1) := by
  unfold ExactInt
  omega

lemma integral_ofInts {entries : List (String × ℤ)}
    (h : ∀ entry ∈ entries, entry.1 ∈ Lexer.operatorSymbols ∧ entry.2.natAbs < 2 ^ 53) :
    (ofInts entries).Integral := by
  intro entry he
  obtain ⟨⟨op, n⟩, hmem, rfl⟩ := List.mem_map.mp he
  exact ⟨(h _ hmem).1, .inl ⟨n, (h _ hmem).2, rfl⟩⟩

lemma HasPower.mem_ofInts {entries : List (String × ℤ)} (h : (ofInts entries).HasPower op n)
    (he : ∀ entry ∈ entries, entry.2.natAbs < 2 ^ 53) : (op, n) ∈ entries := by
  have hmem : (op, Floating.ofInt n) ∈ (ofInts entries).entries := find?_mem (Option.filter_eq_some_iff.mp h.1).1
  obtain ⟨⟨op', k⟩, hk, heq⟩ := List.mem_map.mp hmem
  obtain ⟨rfl, hpower⟩ := Prod.mk.inj heq
  have hexact : ExactInt k := by
    have := he _ hk
    unfold ExactInt
    omega
  rwa [ofInt_inj h.exact hexact hpower.symm]

lemma integral_standard : standard.Integral := integral_ofInts (by decide)

lemma standard_powers {op : String} {n : ℤ} (h : standard.HasPower op n) : op = "=" ∧ n = 2 ∨ op ≠ "=" ∧ 2 < n := by
  have hmem := h.mem_ofInts (by decide)
  simp only [List.mem_cons, Prod.mk.injEq, List.not_mem_nil, or_false] at hmem
  rcases hmem with h | h | h | h | h | h | h | h | h | h | h <;> obtain ⟨rfl, rfl⟩ := h <;> simp

lemma standard_ceiling : standard.ceiling = .ofInt 10 := by decide +kernel

def AssignsLast (table : Precedences) : Prop :=
  ∀ a, table.HasPower "=" a → (∀ op n, table.HasPower op n → op ≠ "=" → a < n) ∧
    ∀ c, table.ceiling = .ofInt c → ExactInt c → a ≤ c

lemma assignsLast_standard : standard.AssignsLast := by
  intro a ha
  obtain ⟨-, rfl⟩ | ⟨hne, -⟩ := standard_powers ha
  · refine ⟨fun op n hn hop => ?_, fun c hc hexact => ?_⟩
    · obtain ⟨rfl, -⟩ | ⟨-, hlt⟩ := standard_powers hn
      · exact absurd rfl hop
      · exact hlt
    · rw [← ofInt_inj (by simp [ExactInt]) hexact (standard_ceiling.symm.trans hc)]
      norm_num
  · exact absurd rfl hne

end Keel.Precedences
