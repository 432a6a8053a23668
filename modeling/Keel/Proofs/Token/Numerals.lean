import Keel.Proofs.Floating.Texts
import Keel.Token.Lexer

namespace Keel

namespace Floating

def IsLiteral (v : Double) : Prop :=
  ∃ m e, v = .finite false m e ∧ Canonical v

lemma IsLiteral.finite {v : Double} (h : IsLiteral v) : v.isFinite := by
  obtain ⟨m, e, rfl, -⟩ := h
  rfl

lemma IsLiteral.ext {v w : Double} (hv : IsLiteral v) (hw : IsLiteral w) (h : v.toRat = w.toRat) : v = w := by
  obtain ⟨m, e, rfl, hm⟩ := hv
  obtain ⟨k, d, rfl, hk⟩ := hw
  exact finite_ext hm hk (by simpa [toRat] using h)

lemma isLiteral_ofInt {n : ℤ} (hn : 0 ≤ n) (h : ExactInt n) : IsLiteral (ofInt n) := by
  obtain ⟨m, e, hx, hc, -⟩ := ofInt_exact h
  rw [decide_eq_false (not_lt.mpr hn)] at hx hc
  exact ⟨m, e, hx, hx ▸ hc⟩

lemma IsLiteral.eq_ofInt {v : Double} (hv : IsLiteral v) {n : ℤ} (hn : 0 ≤ n) (hx : ExactInt n)
    (h : v.eq (ofInt n)) : v = ofInt n :=
  hv.ext (isLiteral_ofInt hn hx) ((eq_iff hv.finite (ofInt_finite hx)).mp h)

lemma isLiteral_toFloating (d : Decimal) (h : (d.toFloating false : Double).isFinite) :
    IsLiteral (d.toFloating false) := by
  have hc : Canonical (d.toFloating false : Double) :=
    round_canonical (by positivity) (by decide) (by decide)
  cases hx : (d.toFloating false : Double) with
  | finite s m e =>
    obtain rfl := round_sign hx
    exact ⟨m, e, rfl, hx ▸ hc⟩
  | infinite s => simp [hx, isFinite] at h
  | nan => simp [hx, isFinite] at h

end Floating

namespace Lexer

lemma isDigit_eq (c : Char) : isDigit c = c.isDigit := rfl

lemma isDigit_toDigits (n : ℕ) : ∀ c ∈ Nat.toDigits 10 n, isDigit c = true := fun c hc => by
  rw [isDigit_eq]
  exact Nat.isDigit_of_mem_toDigits (by decide) (by decide) hc

lemma digitsValue_eq (ds : List Char) : digitsValue ds = Nat.ofDigitChars 10 ds 0 :=
  Nat.ofDigitChars_eq_foldl.symm

lemma digitsValue_toDigits (n : ℕ) : digitsValue (Nat.toDigits 10 n) = n := by
  rw [digitsValue_eq, Nat.ofDigitChars_ten_toDigits]

lemma digitsValue_append_zeros (n : ℕ) (ds : List Char) :
    digitsValue (ds ++ Decimal.zeros n) = digitsValue ds * 10 ^ n := by
  rw [digitsValue_eq, digitsValue_eq, Nat.ofDigitChars_append, Decimal.zeros, Nat.ofDigitChars_replicate_zero,
    Nat.mul_comm]

lemma span_digits {ds : List Char} (rest : List Char) (h : ∀ c ∈ ds, isDigit c = true)
    (hr : ∀ c ∈ rest.head?, isDigit c = false) : (ds ++ rest).span isDigit = (ds, rest) := by
  rw [List.span_eq_takeWhile_dropWhile, List.takeWhile_append_of_pos h, List.dropWhile_append_of_pos h]
  cases rest with
  | nil => simp
  | cons c cs =>
    have hc : isDigit c = false := hr c rfl
    simp [hc]

lemma numberKind?_whole {ds : List Char} (h : ∀ c ∈ ds, isDigit c = true) :
    numberKind? ds = some (.int (Decimal.toFloating false ⟨digitsValue ds, 0⟩)) := by
  have hs := span_digits [] h (by simp)
  rw [List.append_nil] at hs
  simp only [numberKind?, hs]

lemma numberKind?_fraction {whole fraction : List Char} (hw : ∀ c ∈ whole, isDigit c = true)
    (hf : ∀ c ∈ fraction, isDigit c = true) (hn : fraction ≠ []) :
    numberKind? (whole ++ '.' :: fraction) =
      some (.float (Decimal.toFloating false ⟨digitsValue (whole ++ fraction), -fraction.length⟩)) := by
  have hs := span_digits ('.' :: fraction) hw (by simp; decide)
  have hall : fraction.all isDigit = true := List.all_eq_true.mpr hf
  have hempty : fraction.isEmpty = false := by simpa using hn
  simp only [numberKind?, hs, hempty, hall, Bool.not_true, Bool.or_self, Bool.false_eq_true, if_false]

structure Numeral (text : List Char) (kind : TokenKind) : Prop where
  kind_eq : numberKind? text = some kind
  head : ∃ c cs, text = c :: cs ∧ isDigit c = true
  parts : ∀ c ∈ text, isNumberPart c = true

lemma isNumberPart_of_isDigit {c : Char} (h : isDigit c = true) : isNumberPart c = true := by
  simp [isNumberPart, h]

lemma head_digits {ds : List Char} (rest : List Char) (h : ∀ c ∈ ds, isDigit c = true) (hn : ds ≠ []) :
    ∃ c cs, ds ++ rest = c :: cs ∧ isDigit c = true := by
  obtain ⟨c, cs, rfl⟩ := List.exists_cons_of_ne_nil hn
  exact ⟨c, cs ++ rest, rfl, h c (by simp)⟩

lemma numeral_whole {ds : List Char} (h : ∀ c ∈ ds, isDigit c = true) (hn : ds ≠ []) :
    Numeral ds (.int (Decimal.toFloating false ⟨digitsValue ds, 0⟩)) where
  kind_eq := numberKind?_whole h
  head := by simpa using head_digits [] h hn
  parts c hc := isNumberPart_of_isDigit (h c hc)

lemma numeral_fraction (whole fraction : List Char) (hw : ∀ c ∈ whole, isDigit c = true)
    (hf : ∀ c ∈ fraction, isDigit c = true) (hwn : whole ≠ []) (hfn : fraction ≠ []) :
    Numeral (whole ++ '.' :: fraction)
      (.float (Decimal.toFloating false ⟨digitsValue (whole ++ fraction), -fraction.length⟩)) where
  kind_eq := numberKind?_fraction hw hf hfn
  head := head_digits _ hw hwn
  parts c hc := by
    simp only [List.mem_append, List.mem_cons] at hc
    rcases hc with hc | rfl | hc
    · exact isNumberPart_of_isDigit (hw c hc)
    · rfl
    · exact isNumberPart_of_isDigit (hf c hc)

lemma numeral_plain (d : Decimal) (h : d.exponent < 0) : Numeral d.plain (.float (d.toFloating false)) := by
  obtain ⟨whole, fraction, hw, hf, hplain, hvalue, hlength⟩ := d.plain_fraction h
  have hnum := numeral_fraction whole fraction hw.2 hf.2 hw.1 hf.1
  rwa [digitsValue_eq, hvalue, hlength, ← hplain] at hnum

end Lexer

namespace Floating

lemma toFloating_of_isInteger {m : ℕ} {e : ℤ} (hc : Canonical (.finite (f := .binary64) false m e))
    (hi : (Floating.finite (f := .binary64) false m e).isInteger) :
    Decimal.toFloating false ⟨m * 2 ^ e.toNat / 2 ^ (-e).toNat, 0⟩ = Floating.finite (f := .binary64) false m e := by
  have hv := quotient_of_isInteger (isInteger_iff.mp hi) (e := e)
  by_cases hm : m = 0
  · subst hm
    have he : e = Format.binary64.minExponent := by simpa using hc.2.2.2
    simp [Decimal.toFloating, round, zero, he]
  · exact Decimal.toFloating_exact hm hc (by simpa [Decimal.toRat] using hv)

lemma IsLiteral.numeral_integer {v : Double} (h : IsLiteral v) (hi : v.isInteger) :
    Lexer.Numeral v.plainText.toList (.int v) := by
  obtain ⟨m, e, rfl, hc⟩ := h
  have hnum := Lexer.numeral_whole (Lexer.isDigit_toDigits (m * 2 ^ e.toNat / 2 ^ (-e).toNat)) Nat.toDigits_ne_nil
  rw [Lexer.digitsValue_toDigits, toFloating_of_isInteger hc hi] at hnum
  simpa [plainText, hi, signText] using hnum

lemma IsLiteral.numeral_integer_point {v : Double} (h : IsLiteral v) (hi : v.isInteger) :
    Lexer.Numeral (v.plainText ++ ".0").toList (.float v) := by
  obtain ⟨m, e, rfl, hc⟩ := h
  set n := m * 2 ^ e.toNat / 2 ^ (-e).toNat with hn
  have hnum := Lexer.numeral_fraction _ ['0'] (Lexer.isDigit_toDigits n) (by simp; decide)
    Nat.toDigits_ne_nil (by simp)
  have hread : Decimal.toFloating false ⟨n * 10 ^ 1, -1⟩ = Floating.finite (f := .binary64) false m e := by
    rw [← toFloating_of_isInteger hc hi]
    apply Decimal.toFloating_congr
    simp [Decimal.toRat, hn]
  have hval : Lexer.digitsValue (Nat.toDigits 10 n ++ ['0']) = n * 10 ^ 1 := by
    rw [show (['0'] : List Char) = Decimal.zeros 1 from rfl, Lexer.digitsValue_append_zeros,
      Lexer.digitsValue_toDigits]
  rw [hval] at hnum
  simp only [List.length_singleton, Nat.cast_one, hread] at hnum
  simpa [plainText, hi, signText, ← hn] using hnum

lemma IsLiteral.numeral_fraction {v : Double} (h : IsLiteral v) (hi : v.isInteger = false) :
    Lexer.Numeral v.plainText.toList (.float v) := by
  obtain ⟨m, e, rfl, hc⟩ := h
  have hnum := Lexer.numeral_plain _ (shortest_exponent_neg hc (by decide) hi)
  rw [Decimal.shortest_toFloating hc] at hnum
  simpa [plainText_fraction hc hi, signText] using hnum

end Floating

end Keel
