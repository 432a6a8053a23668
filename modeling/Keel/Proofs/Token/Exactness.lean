import Keel.Proofs.Floating.Fewest
import Keel.Proofs.Token.Scanning

/-! Numbers are printed exactly: as text they denote what they are. -/

namespace Keel

namespace Lexer

/-- The whole text is one token. -/
def IsToken (text : String) (kind : TokenKind) : Prop :=
  lex text = .ok [⟨kind, text, .start⟩, Token.endOfInput (Position.start.advanceAll text.toList)]

lemma scan_numeral {text rest : List Char} {kind : TokenKind} (h : Numeral text kind) (hr : Delimited rest)
    (place : Position) : scan 0 place (text ++ rest) =
      (scan 0 (place.advanceAll text) rest).map (⟨kind, String.ofList text, place⟩ :: ·) := by
  obtain ⟨c, cs, rfl, -⟩ := h.head
  rw [List.cons_append, scan, piece_numeral h hr]
  dsimp only
  rw [scan_skip, List.take_left]
  rfl

lemma Numeral.isToken {text : String} {kind : TokenKind} (h : Numeral text.toList kind) : IsToken text kind := by
  have hscan := scan_numeral h delimited_nil .start
  rw [List.append_nil, String.ofList_toList] at hscan
  exact hscan

end Lexer

namespace Decimal

def IsPointed (text : List Char) : Prop :=
  ∃ whole fraction, IsDigits whole ∧ IsDigits fraction ∧ text = whole ++ '.' :: fraction

lemma IsPointed.point_mem {text : List Char} (h : IsPointed text) : '.' ∈ text := by
  obtain ⟨whole, fraction, -, -, rfl⟩ := h
  simp

lemma isPointed_plain (d : Decimal) (h : d.exponent < 0) : IsPointed d.plain := by
  obtain ⟨whole, fraction, hw, hf, hplain, -⟩ := d.plain_fraction h
  exact ⟨whole, fraction, hw, hf, hplain⟩

end Decimal

namespace Floating

/-! A number that is not negative is printed as its absolute value: they differ in the sign of zero only. -/

lemma exists_literal {v : Double} (hc : Canonical v) (hf : v.isFinite = true) (h : (zero false).le v = true) :
    ∃ w, IsLiteral w ∧ w.toRat = v.toRat ∧ w.isInteger = v.isInteger ∧ w.plainText = v.plainText ∧
      (v.isInteger = false → w = v) := by
  cases v with
  | finite s m e =>
    rw [le_iff rfl hf] at h
    refine ⟨.finite false m e, ⟨m, e, rfl, hc⟩, ?_⟩
    cases s with
    | false => exact ⟨rfl, rfl, rfl, fun _ => rfl⟩
    | true =>
      have hm : m = 0 := by
        by_contra hne
        have hpos : (0 : ℚ) < m * 2 ^ e := by positivity
        simp [toRat, zero] at h
        linarith
      subst hm
      simp [toRat, isInteger, plainText]
  | infinite s => cases hf
  | nan => cases hf

variable {v : Double}

lemma IsLiteral.value?_integer (h : IsLiteral v) (hi : v.isInteger = true) :
    Decimal.IsDigits v.plainText.toList ∧ Decimal.value? v.plainText = some v.toRat := by
  obtain ⟨m, e, rfl, -⟩ := h
  have hdigits := Decimal.isDigits_toDigits (m * 2 ^ e.toNat / 2 ^ (-e).toNat)
  have htext : (plainText (.finite false m e)).toList = Nat.toDigits 10 (m * 2 ^ e.toNat / 2 ^ (-e).toNat) := by
    simp [plainText, hi, signText]
  have hvalue := quotient_of_isInteger (isInteger_iff.mp hi)
  rw [Decimal.value?, htext, Decimal.read?_of_notMem hdigits.letter_notMem, Decimal.mantissa?_whole hdigits,
    Nat.ofDigitChars_ten_toDigits]
  exact ⟨hdigits, by simp [Decimal.toRat, toRat, hvalue]⟩

lemma IsLiteral.value?_fraction (h : IsLiteral v) (hi : v.isInteger = false) :
    Decimal.IsPointed v.plainText.toList ∧ ∃ d : Decimal, d.IsShortest v ∧
      Decimal.value? v.plainText = some d.toRat ∧ Decimal.value? v.toText = some d.toRat := by
  obtain ⟨m, e, rfl, hc⟩ := h
  have hneg := shortest_exponent_neg hc (by decide) hi
  have hplain : (plainText (.finite false m e)).toList = (Decimal.shortest .binary64 m e).plain := by
    rw [plainText_fraction hc hi]
    simp [signText]
  have htext :
      (Floating.finite (f := .binary64) false m e).toText.toList = (Decimal.shortest .binary64 m e).general := by
    simp [toText, signText]
  refine ⟨hplain ▸ Decimal.isPointed_plain _ hneg, _, Decimal.shortest_isShortest (by decide) (by decide) hc, ?_, ?_⟩
  · rw [Decimal.value?, hplain, Decimal.read?_plain _ hneg, Option.map_some]
  · rw [Decimal.value?, htext, Decimal.read?_general _ hneg, Option.map_some]

lemma IsLiteral.numeral_double (h : IsLiteral v) {context : ValueType} (hcontext : context ≠ .double) :
    '.' ∈ (Literal.text v .double context).toList ∧
      Lexer.Numeral (Literal.text v .double context).toList (.float v) := by
  cases hi : v.isInteger with
  | true =>
    have htext : Literal.text v .double context = v.plainText ++ ".0" := by
      simp [Literal.text, hcontext.symm, hi]
    rw [htext]
    exact ⟨by simp, h.numeral_integer_point hi⟩
  | false =>
    have htext : Literal.text v .double context = v.plainText := by
      simp [Literal.text, hcontext.symm, hi]
    rw [htext]
    exact ⟨(h.value?_fraction hi).1.point_mem, h.numeral_fraction hi⟩

/-- A finite double that is not negative is printed as one number. A whole one is printed as digits that denote it.
Another one is printed as digits around a point, which denote what its text does that may have a power of ten: the
shortest decimal that reads back as it. Where the context gives another type, a double has a point in any case. -/
theorem plainText_exact (hcanonical : Canonical v) (hfinite : v.isFinite = true) (hsign : (zero false).le v = true) :
    ∃ w : Double, w.eq v = true ∧
      (v.isInteger = true → Decimal.IsDigits v.plainText.toList ∧ Lexer.IsToken v.plainText (.int w) ∧
        Decimal.value? v.plainText = some v.toRat) ∧
      (v.isInteger = false → Decimal.IsPointed v.plainText.toList ∧ Lexer.IsToken v.plainText (.float w) ∧
        ∃ d : Decimal, d.IsShortest v ∧ Decimal.value? v.plainText = some d.toRat ∧
          Decimal.value? v.toText = some d.toRat) ∧
      ∀ context : ValueType, context ≠ .double → '.' ∈ (Literal.text v .double context).toList ∧
        Lexer.IsToken (Literal.text v .double context) (.float w) := by
  obtain ⟨w, hw, hvalue, hinteger, htext, hsame⟩ := exists_literal hcanonical hfinite hsign
  have hliteral (context : ValueType) : Literal.text w .double context = Literal.text v .double context := by
    simp only [Literal.text, htext, hinteger, reduceCtorEq, false_and, if_false]
  refine ⟨w, (eq_iff hw.finite hfinite).mpr hvalue, fun hi => ?_, fun hi => ?_, fun context hcontext => ?_⟩
  · rw [← hinteger] at hi
    obtain ⟨hdigits, hread⟩ := hw.value?_integer hi
    rw [← htext, ← hvalue]
    exact ⟨hdigits, (hw.numeral_integer hi).isToken, hread⟩
  · obtain rfl := hsame hi
    obtain ⟨hpointed, d, hd, hplain, hgeneral⟩ := hw.value?_fraction hi
    exact ⟨hpointed, (hw.numeral_fraction hi).isToken, d, hd, hplain, hgeneral⟩
  · rw [← hliteral]
    obtain ⟨hpoint, hnumeral⟩ := hw.numeral_double hcontext
    exact ⟨hpoint, hnumeral.isToken⟩

def least : Double := .finite false 1 (-1074)

theorem plainText_exact_least : Canonical least ∧ least.isFinite = true ∧ (zero false).le least = true ∧
    least.isInteger = false ∧ least.toText = "5e-324" ∧
      least.plainText = String.ofList ('0' :: '.' :: Decimal.zeros 323 ++ ['5']) ∧
      ∃ w : Double, w.eq least = true ∧ Lexer.IsToken least.plainText (.float w) ∧
        ∃ d : Decimal, d.IsShortest least ∧ Decimal.value? least.plainText = some d.toRat ∧
          Decimal.value? least.toText = some d.toRat := by
  have hcanonical : Canonical least := by decide
  have hsign : (zero false).le least = true := by decide +kernel
  have hi : least.isInteger = false := by decide +kernel
  obtain ⟨w, hw, -, hfraction, -⟩ := plainText_exact hcanonical rfl hsign
  obtain ⟨-, htoken, hdecimal⟩ := hfraction hi
  exact ⟨hcanonical, rfl, hsign, hi, by decide +kernel, by decide +kernel, w, hw, htoken, hdecimal⟩

end Floating

end Keel
