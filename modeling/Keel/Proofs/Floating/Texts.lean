import Keel.Proofs.Floating.Nearest
import Keel.Syntax.Literal
import Mathlib.Data.List.TakeWhile

namespace Keel

namespace Decimal

def IsDigits (ds : List Char) : Prop := ds ≠ [] ∧ ∀ c ∈ ds, c.isDigit = true

instance : DecidablePred IsDigits := fun _ => inferInstanceAs (Decidable (_ ∧ _))

def mantissa? (text : List Char) : Option Decimal :=
  let whole := text.takeWhile Char.isDigit
  match text.dropWhile Char.isDigit with
  | [] => if IsDigits whole then some ⟨Nat.ofDigitChars 10 whole 0, 0⟩ else none
  | point :: fraction =>
    if point = '.' ∧ IsDigits whole ∧ IsDigits fraction then
      some ⟨Nat.ofDigitChars 10 (whole ++ fraction) 0, -fraction.length⟩
    else none

def power? : List Char → Option ℤ
  | [] => none
  | sign :: ds =>
    if ¬ IsDigits ds then none
    else if sign = '+' then some (Nat.ofDigitChars 10 ds 0)
    else if sign = '-' then some (-Nat.ofDigitChars 10 ds 0)
    else none

def read? (text : List Char) : Option Decimal :=
  match text.dropWhile (· ≠ 'e') with
  | [] => mantissa? text
  | _ :: power =>
    (mantissa? (text.takeWhile (· ≠ 'e'))).bind fun d => (power? power).map fun p => ⟨d.digits, d.exponent + p⟩

def value? (text : String) : Option ℚ := (read? text.toList).map toRat

/-! Digits. -/

variable {ds whole fraction text : List Char}

lemma isDigits_toDigits (n : ℕ) : IsDigits (Nat.toDigits 10 n) :=
  ⟨Nat.toDigits_ne_nil, fun _ hc => Nat.isDigit_of_mem_toDigits (by decide) (by decide) hc⟩

lemma digit_of_mem_zeros {n : ℕ} {c : Char} (h : c ∈ zeros n) : c.isDigit = true := by
  rw [List.eq_of_mem_replicate h]
  rfl

lemma isDigits_zeros {n : ℕ} (hn : 0 < n) : IsDigits (zeros n) :=
  ⟨by simpa [zeros] using hn.ne', fun _ => digit_of_mem_zeros⟩

lemma IsDigits.zeros_append (n : ℕ) (h : IsDigits ds) : IsDigits (zeros n ++ ds) :=
  ⟨by simp [h.1], fun c hc => (List.mem_append.mp hc).elim digit_of_mem_zeros (h.2 c)⟩

lemma IsDigits.append_zeros (n : ℕ) (h : IsDigits ds) : IsDigits (ds ++ zeros n) :=
  ⟨by simp [h.1], fun c hc => (List.mem_append.mp hc).elim (h.2 c) digit_of_mem_zeros⟩

lemma IsDigits.take {n : ℕ} (h : IsDigits ds) (hn : 0 < n) : IsDigits (ds.take n) :=
  ⟨by simp [h.1, hn.ne'], fun c hc => h.2 c (List.mem_of_mem_take hc)⟩

lemma IsDigits.drop {n : ℕ} (h : IsDigits ds) (hn : n < ds.length) : IsDigits (ds.drop n) :=
  ⟨by simp [hn], fun c hc => h.2 c (List.mem_of_mem_drop hc)⟩

lemma letter_notMem_digits (h : ∀ c ∈ ds, c.isDigit = true) : 'e' ∉ ds := fun hmem => absurd (h 'e' hmem) (by decide)

lemma IsDigits.letter_notMem (h : IsDigits ds) : 'e' ∉ ds := letter_notMem_digits h.2

lemma letter_notMem_fraction (hw : IsDigits whole) (hf : IsDigits fraction) : 'e' ∉ whole ++ '.' :: fraction := by
  simp [hw.letter_notMem, hf.letter_notMem]

lemma span_point (h : ∀ c ∈ whole, c.isDigit = true) (cs : List Char) :
    (whole ++ '.' :: cs).takeWhile Char.isDigit = whole ∧ (whole ++ '.' :: cs).dropWhile Char.isDigit = '.' :: cs := by
  rw [List.takeWhile_append_of_pos h, List.dropWhile_append_of_pos h, List.takeWhile_cons_of_neg (by decide),
    List.dropWhile_cons_of_neg (by decide), List.append_nil]
  exact ⟨rfl, rfl⟩

/-! Reading. -/

lemma mantissa?_whole (h : IsDigits ds) : mantissa? ds = some ⟨Nat.ofDigitChars 10 ds 0, 0⟩ := by
  have htake : ds.takeWhile Char.isDigit = ds := List.takeWhile_eq_self_iff.mpr h.2
  have hdrop : ds.dropWhile Char.isDigit = [] := List.dropWhile_eq_nil_iff.mpr h.2
  simp only [mantissa?, htake, hdrop, h, if_true]

lemma mantissa?_fraction (hw : IsDigits whole) (hf : IsDigits fraction) :
    mantissa? (whole ++ '.' :: fraction) = some ⟨Nat.ofDigitChars 10 (whole ++ fraction) 0, -fraction.length⟩ := by
  obtain ⟨htake, hdrop⟩ := span_point hw.2 fraction
  simp only [mantissa?, htake, hdrop, hw, hf, and_self, if_true]

lemma power?_signed (p : ℤ) :
    power? ((if p < 0 then '-' else '+') :: Nat.toDigits 10 p.natAbs) = some p := by
  simp only [power?, isDigits_toDigits, not_true_eq_false, if_false, Nat.ofDigitChars_ten_toDigits]
  by_cases hp : p < 0
  · rw [if_pos hp, if_neg (by decide), if_pos rfl, Int.ofNat_natAbs_of_nonpos hp.le, neg_neg]
  · rw [if_neg hp, if_pos rfl, Int.natAbs_of_nonneg (not_lt.mp hp)]

lemma read?_of_notMem (h : 'e' ∉ text) : read? text = mantissa? text := by
  have hdrop : text.dropWhile (· ≠ 'e') = [] := List.dropWhile_eq_nil_iff.mpr fun c hc => by
    simpa using fun hce : c = 'e' => h (hce ▸ hc)
  simp only [read?, hdrop]

lemma read?_power (h : 'e' ∉ text) (power : List Char) : read? (text ++ 'e' :: power) =
    (mantissa? text).bind fun d => (power? power).map fun p => ⟨d.digits, d.exponent + p⟩ := by
  have hall : ∀ c ∈ text, decide (c ≠ 'e') = true := fun c hc => by
    simpa using fun hce : c = 'e' => h (hce ▸ hc)
  have htake : (text ++ 'e' :: power).takeWhile (· ≠ 'e') = text := by
    rw [List.takeWhile_append_of_pos hall, List.takeWhile_cons_of_neg (by decide), List.append_nil]
  have hdrop : (text ++ 'e' :: power).dropWhile (· ≠ 'e') = 'e' :: power := by
    rw [List.dropWhile_append_of_pos hall, List.dropWhile_cons_of_neg (by decide)]
  simp only [read?, htake, hdrop]

/-! The texts of a decimal. -/

lemma ofDigitChars_zeros_append (n : ℕ) (ds : List Char) :
    Nat.ofDigitChars 10 (zeros n ++ ds) 0 = Nat.ofDigitChars 10 ds 0 := by
  rw [Nat.ofDigitChars_append, zeros, Nat.ofDigitChars_replicate_zero, Nat.mul_zero]

lemma plain_fraction (d : Decimal) (h : d.exponent < 0) : ∃ whole fraction, IsDigits whole ∧ IsDigits fraction ∧
    d.plain = whole ++ '.' :: fraction ∧ Nat.ofDigitChars 10 (whole ++ fraction) 0 = d.digits ∧
      -(fraction.length : ℤ) = d.exponent := by
  have hdigits := isDigits_toDigits d.digits
  have hvalue : Nat.ofDigitChars 10 (Nat.toDigits 10 d.digits) 0 = d.digits := Nat.ofDigitChars_ten_toDigits
  simp only [plain, if_neg (not_le.mpr h)]
  set ds := Nat.toDigits 10 d.digits
  split_ifs with hpoint
  · obtain ⟨k, hk⟩ : ∃ k : ℕ, (ds.length : ℤ) + d.exponent = k := Int.eq_ofNat_of_zero_le hpoint.le
    rw [hk, Int.toNat_natCast]
    refine ⟨ds.take k, ds.drop k, hdigits.take (by omega), hdigits.drop (by omega), rfl, ?_, ?_⟩
    · rw [List.take_append_drop, hvalue]
    · rw [List.length_drop]
      omega
  · obtain ⟨k, hk⟩ : ∃ k : ℕ, -((ds.length : ℤ) + d.exponent) = k := Int.eq_ofNat_of_zero_le (by omega)
    rw [hk, Int.toNat_natCast]
    refine ⟨zeros 1, zeros k ++ ds, isDigits_zeros Nat.one_pos, hdigits.zeros_append k, rfl, ?_, ?_⟩
    · rw [ofDigitChars_zeros_append, ofDigitChars_zeros_append, hvalue]
    · simp only [zeros, List.length_append, List.length_replicate]
      omega

lemma plain_whole (d : Decimal) (h : 0 ≤ d.exponent) :
    d.plain = Nat.toDigits 10 d.digits ++ zeros d.exponent.toNat := by
  simp only [plain, if_pos h]

lemma letter_notMem_plain (d : Decimal) : 'e' ∉ d.plain := by
  rcases lt_or_ge d.exponent 0 with hneg | hpos
  · obtain ⟨whole, fraction, hw, hf, hplain, -⟩ := plain_fraction d hneg
    rw [hplain]
    exact letter_notMem_fraction hw hf
  · rw [plain_whole d hpos]
    exact ((isDigits_toDigits _).append_zeros _).letter_notMem

lemma read?_plain (d : Decimal) (h : d.exponent < 0) : read? d.plain = some d := by
  obtain ⟨whole, fraction, hw, hf, hplain, hvalue, hlength⟩ := plain_fraction d h
  rw [read?_of_notMem (letter_notMem_plain d), hplain, mantissa?_fraction hw hf, hvalue, hlength]

lemma mantissa?_first {c : Char} {cs : List Char} (h : IsDigits (c :: cs)) :
    mantissa? (c :: if cs = [] then [] else '.' :: cs) = some ⟨Nat.ofDigitChars 10 (c :: cs) 0, -cs.length⟩ := by
  by_cases hcs : cs = []
  · subst hcs
    exact mantissa?_whole h
  · have hw : IsDigits [c] := h.take Nat.one_pos
    have hf : IsDigits cs := ⟨hcs, fun d hd => h.2 d (List.mem_cons_of_mem c hd)⟩
    rw [if_neg hcs]
    exact mantissa?_fraction hw hf

lemma scientific_eq (d : Decimal) {c : Char} {cs : List Char} (h : Nat.toDigits 10 d.digits = c :: cs) :
    d.scientific = (c :: if cs = [] then [] else '.' :: cs) ++ 'e' ::
      (if (cs.length : ℤ) + d.exponent < 0 then '-' else '+') ::
        Nat.toDigits 10 ((cs.length : ℤ) + d.exponent).natAbs := by
  have hpower : ((cs.length + 1 : ℕ) : ℤ) + d.exponent - 1 = cs.length + d.exponent := by
    push_cast
    ring
  have hone : cs.length + 1 ≤ 1 ↔ cs = [] := by simp
  simp only [scientific, h, List.length_cons, hpower, hone, List.drop_succ_cons, List.drop_zero, List.take_succ_cons,
    List.take_zero, List.cons_append, List.nil_append]

lemma read?_scientific (d : Decimal) : read? d.scientific = some d := by
  have hdigits := isDigits_toDigits d.digits
  have hvalue : Nat.ofDigitChars 10 (Nat.toDigits 10 d.digits) 0 = d.digits := Nat.ofDigitChars_ten_toDigits
  obtain ⟨c, cs, hcons⟩ := List.exists_cons_of_ne_nil hdigits.1
  rw [hcons] at hdigits hvalue
  have hletter : 'e' ∉ c :: if cs = [] then [] else '.' :: cs := by
    have := hdigits.letter_notMem
    split_ifs <;> simp_all
  rw [scientific_eq d hcons, read?_power hletter, mantissa?_first hdigits, power?_signed, hvalue]
  simp

lemma read?_general (d : Decimal) (h : d.exponent < 0) : read? d.general = some d := by
  simp only [general]
  split_ifs
  · exact read?_plain d h
  · exact read?_scientific d

end Decimal

namespace Literal

open Decimal (IsDigits zeros)

variable {cs text power : List Char}

/-! Zeros instead of a power of ten. -/

lemma negativePower?_of_notMem (h : 'e' ∉ cs) : negativePower? cs = none := by
  unfold negativePower?
  split
  · simp at h
  · rfl

lemma negativePower?_digits (h : IsDigits power) : negativePower? ('e' :: '-' :: power) = some power := by
  have hempty : power.isEmpty = false := by simpa using h.1
  have hall : power.all Char.isDigit = true := List.all_eq_true.mpr h.2
  simp [negativePower?, hempty, hall]

lemma scaledDown?_of_notMem (h : 'e' ∉ text) : scaledDown? text = none := by
  unfold scaledDown?
  split
  · rename_i lead cs
    have hrest : 'e' ∉ cs.dropWhile Char.isDigit := fun hmem =>
      h (List.mem_cons_of_mem _ (List.mem_cons_of_mem _ ((List.dropWhile_suffix _).subset hmem)))
    simp [negativePower?_of_notMem hrest]
  · rename_i lead cs _
    simp [negativePower?_of_notMem fun hmem => h (List.mem_cons_of_mem lead hmem)]
  · rfl

lemma scaledDown?_power {c : Char} (h : IsDigits (c :: cs)) (hpower : IsDigits power) :
    scaledDown? ((c :: if cs = [] then [] else '.' :: cs) ++ 'e' :: '-' :: power) = some (c :: cs, power) := by
  have hlead : c.isDigit = true := h.2 c List.mem_cons_self
  have hrest : ∀ d ∈ cs, d.isDigit = true := fun d hd => h.2 d (List.mem_cons_of_mem c hd)
  by_cases hcs : cs = []
  · subst hcs
    simp [scaledDown?, hlead, negativePower?_digits hpower]
  · have htake : (cs ++ 'e' :: '-' :: power).takeWhile Char.isDigit = cs := by
      rw [List.takeWhile_append_of_pos hrest, List.takeWhile_cons_of_neg (by decide), List.append_nil]
    have hdrop : (cs ++ 'e' :: '-' :: power).dropWhile Char.isDigit = 'e' :: '-' :: power := by
      rw [List.dropWhile_append_of_pos hrest, List.dropWhile_cons_of_neg (by decide)]
    have hempty : cs.isEmpty = false := by simpa using hcs
    simp only [hcs, if_false, List.cons_append, scaledDown?, htake, hdrop, hlead, hempty, negativePower?_digits hpower,
      Bool.not_true, Bool.or_self, Bool.false_eq_true, Option.map_some]

lemma withZeros_of_notMem (h : 'e' ∉ text) : withZeros text = text := by
  simp only [withZeros, scaledDown?_of_notMem h]

lemma withZeros_scientific (d : Decimal) (h : (Nat.toDigits 10 d.digits).length + d.exponent ≤ 0) :
    withZeros d.scientific = d.plain := by
  have hdigits := Decimal.isDigits_toDigits d.digits
  obtain ⟨c, cs, hcons⟩ := List.exists_cons_of_ne_nil hdigits.1
  rw [hcons, List.length_cons] at h
  push_cast at h
  have hnegative : (cs.length : ℤ) + d.exponent < 0 := by omega
  have hzeros : ((cs.length : ℤ) + d.exponent).natAbs - 1 = (-((cs.length : ℤ) + 1 + d.exponent)).toNat := by omega
  have hexponent : ¬ 0 ≤ d.exponent := by omega
  have hpoint : ¬ 0 < (cs.length : ℤ) + 1 + d.exponent := by omega
  rw [Decimal.scientific_eq d hcons, if_pos hnegative, withZeros,
    scaledDown?_power (hcons ▸ hdigits) (Decimal.isDigits_toDigits _)]
  simp only [Nat.ofDigitChars_ten_toDigits, hzeros, Decimal.plain, hcons, List.length_cons, Nat.cast_add, Nat.cast_one,
    if_neg hexponent, if_neg hpoint, List.cons_append]

lemma withZeros_general (d : Decimal) (h : (Nat.toDigits 10 d.digits).length + d.exponent ≤ 21) :
    withZeros d.general = d.plain := by
  simp only [Decimal.general]
  split_ifs with hpoint
  · exact withZeros_of_notMem (Decimal.letter_notMem_plain d)
  · exact withZeros_scientific d (by omega)

lemma spelledOut_signText (negative : Bool) {c : Char} (h : c.isDigit = true) :
    spelledOut (Floating.signText negative (c :: cs)) = Floating.signText negative (withZeros (c :: cs)) := by
  have hsign : c ≠ '-' := by
    rintro rfl
    exact absurd h (by decide)
  cases negative with
  | true => simp [spelledOut, Floating.signText]
  | false =>
    simp only [spelledOut, Floating.signText, Bool.false_eq_true, if_false, String.toList_ofList]
    split
    · rename_i heq
      exact absurd (List.cons.inj heq).1 hsign
    · rfl

end Literal

namespace Floating

lemma general_head (d : Decimal) : ∃ c cs, d.general = c :: cs ∧ c.isDigit = true := by
  have hdigits := Decimal.isDigits_toDigits d.digits
  simp only [Decimal.general]
  split_ifs
  · rcases lt_or_ge d.exponent 0 with hneg | hpos
    · obtain ⟨whole, fraction, hw, -, hplain, -⟩ := Decimal.plain_fraction d hneg
      obtain ⟨c, cs, rfl⟩ := List.exists_cons_of_ne_nil hw.1
      exact ⟨c, _, hplain, hw.2 c List.mem_cons_self⟩
    · obtain ⟨c, cs, hcons⟩ := List.exists_cons_of_ne_nil hdigits.1
      rw [Decimal.plain_whole d hpos, hcons]
      exact ⟨c, _, rfl, hdigits.2 c (by rw [hcons]; exact List.mem_cons_self)⟩
  · obtain ⟨c, cs, hcons⟩ := List.exists_cons_of_ne_nil hdigits.1
    rw [Decimal.scientific_eq d hcons]
    exact ⟨c, _, rfl, hdigits.2 c (by rw [hcons]; exact List.mem_cons_self)⟩

lemma lt_of_not_isInteger {m : ℕ} {e : ℤ} (hc : Canonical (.finite (f := .binary64) false m e))
    (hi : (Floating.finite (f := .binary64) false m e).isInteger = false) :
    (Floating.finite (f := .binary64) false m e).toRat < 2 ^ 53 := by
  have he : e < 0 := by
    by_contra hpos
    have hz : (-e).toNat = 0 := by omega
    simp [isInteger, hz, Nat.mod_one] at hi
  have hm : (m : ℚ) < 2 ^ 53 := by exact_mod_cast hc.1
  have hone : (2 : ℚ) ^ e ≤ 1 := zpow_le_one_of_nonpos₀ one_le_two he.le
  simp only [toRat, Bool.false_eq_true, if_false]
  calc (m : ℚ) * 2 ^ e ≤ m * 1 := by gcongr
    _ < 2 ^ 53 := by rwa [mul_one]

lemma shortest_point_le {m : ℕ} {e : ℤ} (hc : Canonical (.finite (f := .binary64) false m e))
    (hi : (Floating.finite (f := .binary64) false m e).isInteger = false) :
    (Nat.toDigits 10 (Decimal.shortest .binary64 m e).digits).length +
      (Decimal.shortest .binary64 m e).exponent ≤ 21 := by
  -- the point of a fraction stands behind few digits: from twenty-two on a double would be whole
  have hneg := shortest_exponent_neg hc (by decide) hi
  have hread := Decimal.shortest_toFloating hc
  set d := Decimal.shortest .binary64 m e
  by_contra hlarge
  obtain ⟨k, hk⟩ : ∃ k : ℕ, (Nat.toDigits 10 d.digits).length = k + 1 :=
    ⟨_, (Nat.succ_pred_eq_of_pos Nat.length_toDigits_pos).symm⟩
  have hdigits : 10 ^ k ≤ d.digits := by
    by_contra hsmall
    have := (Nat.length_toDigits_le_iff (b := 10) (by decide) (by omega)).mpr (not_le.mp hsmall)
    omega
  have hvalue : (2 : ℚ) ^ 53 ≤ d.toRat := by
    calc (2 : ℚ) ^ 53 ≤ 10 ^ (21 : ℤ) := by norm_num
      _ ≤ 10 ^ ((k : ℤ) + d.exponent) := zpow_le_zpow_right₀ (by norm_num) (by omega)
      _ = (10 ^ k : ℕ) * 10 ^ d.exponent := by
        rw [zpow_add₀ (by norm_num), zpow_natCast]
        push_cast
        rfl
      _ ≤ d.digits * 10 ^ d.exponent := by gcongr
  have hnearest := toFloating_nearest (f := .binary64) d (by decide) (by decide) (by rw [hread]; rfl)
  have hpower : (Floating.finite (f := .binary64) false (2 ^ 52) 1).toRat = 2 ^ 53 := by norm_num [toRat]
  have hle := hnearest.le_toRat (y := .finite false (2 ^ 52) 1) rfl (by decide) (by rwa [hpower])
  rw [hread, hpower] at hle
  exact absurd (lt_of_not_isInteger hc hi) (not_lt.mpr hle)

lemma plainText_fraction {negative : Bool} {m : ℕ} {e : ℤ} (hc : Canonical (.finite (f := .binary64) negative m e))
    (hi : (Floating.finite (f := .binary64) negative m e).isInteger = false) :
    plainText (.finite negative m e) = signText negative (Decimal.shortest .binary64 m e).plain := by
  obtain ⟨c, cs, hcons, hdigit⟩ := general_head (Decimal.shortest .binary64 m e)
  rw [plainText, if_neg (by rw [hi]; exact Bool.false_ne_true), toText, hcons,
    Literal.spelledOut_signText negative hdigit, ← hcons, Literal.withZeros_general _ (shortest_point_le hc hi)]

end Floating

end Keel
