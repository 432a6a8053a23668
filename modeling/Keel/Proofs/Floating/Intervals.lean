import Keel.Proofs.Floating.Nearest

namespace Keel

namespace Floating

variable {f : Format} {num den num' den' : ℕ}

lemma roundQuotient_mono_left (den : ℕ) (h : num ≤ num') : roundQuotient num den ≤ roundQuotient num' den := by
  have hq : num / den ≤ num' / den := Nat.div_le_div_right h
  simp only [roundQuotient]
  rcases hq.lt_or_eq with hlt | heq
  · split_ifs <;> omega
  · have hr : num % den ≤ num' % den := by
      have hsplit := Nat.div_add_mod num den
      have hsplit' := Nat.div_add_mod num' den
      rw [heq] at hsplit
      omega
    rw [heq]
    split_ifs <;> omega

lemma roundQuotient_mono (hd : 0 < den) (hd' : 0 < den') (h : quotient num den ≤ quotient num' den') :
    roundQuotient num den ≤ roundQuotient num' den' := by
  rw [← roundQuotient_mul num den hd', ← roundQuotient_mul num' den' hd, Nat.mul_comm den' den]
  apply roundQuotient_mono_left
  rw [quotient, quotient, div_le_div_iff₀ (by positivity) (by positivity)] at h
  exact_mod_cast h

lemma roundExponent_mono (f : Format) (hn : 0 < num) (hd : 0 < den) (hn' : 0 < num') (hd' : 0 < den')
    (h : quotient num den ≤ quotient num' den') : roundExponent f num den ≤ roundExponent f num' den' := by
  have hlt := ((binaryExponent_spec hn hd).1.trans h).trans_lt (binaryExponent_spec hn' hd').2
  rw [zpow_lt_zpow_iff_right₀ one_lt_two] at hlt
  unfold roundExponent
  omega

lemma pack_isFinite {negative : Bool} {m : ℕ} {e : ℤ} :
    (pack (f := f) negative m e).isFinite = true ↔ e ≤ f.maxExponent := by
  unfold pack
  split_ifs with h
  · simpa [isFinite] using h
  · simpa [isFinite] using h

lemma round_isFinite_mono (hp : 0 < f.precision) (hd : 0 < den) (hd' : 0 < den')
    (h : quotient num den ≤ quotient num' den') (hf : (round (f := f) false num' den').isFinite = true) :
    (round (f := f) false num den).isFinite = true := by
  rcases Nat.eq_zero_or_pos num with rfl | hn
  · rfl
  have hn' : 0 < num' := by
    have hpos : 0 < quotient num' den' := lt_of_lt_of_le (by unfold quotient; positivity) h
    rw [Nat.pos_iff_ne_zero, ne_eq, ← quotient_zero_iff hd']
    exact hpos.ne'
  rw [round_eq hn'.ne'] at hf
  rw [round_eq hn.ne']
  rcases (roundExponent_mono f hn hd hn' hd' h).lt_or_eq with hlt | heq
  · have hmax : roundExponent f num' den' ≤ f.maxExponent := by
      split_ifs at hf <;> rw [pack_isFinite] at hf <;> omega
    split_ifs <;> rw [pack_isFinite] <;> omega
  -- With one exponent a carry of the smaller quotient is one of the larger, whose significand is not greater than full.
  · have hsignificand : roundSignificand f num den ≤ roundSignificand f num' den' := by
      apply roundQuotient_mono (scaled_den_pos _ hd _) (scaled_den_pos _ hd' _)
      rw [quotient_roundExponent, quotient_roundExponent, heq]
      gcongr
    have hfull := (roundSignificand_bounds (f := f) hn' hd' hp).1
    split_ifs at hf ⊢ <;> rw [pack_isFinite] at hf ⊢ <;> omega

lemma IsNearest.toRat_eq_of_between {x y : Floating f} {q q' : ℚ} (hx : x.IsNearest q') (hy : y.IsNearest q)
    (hne : q ≠ q')
    (h : (x.toRat ≤ q ∧ q ≤ q') ∨ (q' ≤ q ∧ q ≤ x.toRat)) : y.toRat = x.toRat := by
  have hle := hy.le x hx.finite hx.canonical
  have hle' := hx.le y hy.finite hy.canonical
  rcases h with ⟨hxq, hqq⟩ | ⟨hqq, hqx⟩
  · have hlt := lt_of_le_of_ne hqq hne
    have hxy := hy.le_toRat hx.finite hx.canonical hxq
    rw [abs_of_nonpos (by linarith : x.toRat - q ≤ 0)] at hle
    rw [abs_of_nonpos (by linarith : x.toRat - q' ≤ 0), le_abs] at hle'
    have hupper := (abs_le.mp hle).2
    rcases hle' with hbeyond | hbehind <;> linarith
  · have hlt := lt_of_le_of_ne hqq hne.symm
    have hyx := hy.toRat_le hx.finite hx.canonical hqx
    rw [abs_of_nonneg (by linarith : 0 ≤ x.toRat - q)] at hle
    rw [abs_of_nonneg (by linarith : 0 ≤ x.toRat - q'), le_abs] at hle'
    have hlower := (abs_le.mp hle).1
    rcases hle' with hbehind | hbeyond <;> linarith

end Floating

namespace Decimal

open Floating (Canonical quotient)

variable {f : Format} {m num den : ℕ} {e : ℤ} {d d' : Decimal}

lemma toFloating_isFinite_mono (hp : 0 < f.precision) (h : d.toRat ≤ d'.toRat)
    (hf : (d'.toFloating false : Floating f).isFinite = true) : (d.toFloating false : Floating f).isFinite = true := by
  rw [toRat_quotient, toRat_quotient] at h
  exact Floating.round_isFinite_mono hp (by positivity) (by positivity) h hf

lemma toFloating_isFinite_of_le (hp : 0 < f.precision) (hm : m ≠ 0) (hc : Canonical (.finite (f := f) false m e))
    (h : d.toRat ≤ m * 2 ^ e) : (d.toFloating false : Floating f).isFinite = true := by
  have hself := Floating.scaled_den_pos m Nat.one_pos e
  have hquotient := Floating.quotient_scaled_one m e
  rw [toRat_quotient, ← hquotient] at h
  refine Floating.round_isFinite_mono hp (by positivity) hself h ?_
  rw [Floating.round_exact hself hm hc hquotient]
  rfl

lemma toFloating_of_toRat (hc : Canonical (.finite (f := f) false m e))
    (hnear : (d.toFloating false : Floating f).IsNearest d.toRat)
    (h : (d.toFloating false : Floating f).toRat = m * 2 ^ e) :
    d.toFloating false = Floating.finite (f := f) false m e := by
  cases hcases : (d.toFloating false : Floating f) with
  | finite s k b =>
    obtain rfl := Floating.round_sign hcases
    rw [hcases] at h hnear
    exact Floating.finite_ext hnear.canonical hc (by simpa [Floating.toRat] using h)
  | infinite s =>
    rw [hcases] at hnear
    cases hnear.finite
  | nan =>
    rw [hcases] at hnear
    cases hnear.finite

lemma toFloating_between (hp : 2 ≤ f.precision) (he : f.minExponent ≤ f.maxExponent) (hm : m ≠ 0)
    (hc : Canonical (.finite (f := f) false m e)) (hread : d'.toFloating false = Floating.finite (f := f) false m e)
    (h : (m * 2 ^ e ≤ d.toRat ∧ d.toRat ≤ d'.toRat) ∨ (d'.toRat ≤ d.toRat ∧ d.toRat ≤ m * 2 ^ e)) :
    d.toFloating false = Floating.finite (f := f) false m e := by
  by_cases hsame : d.toRat = d'.toRat
  · rw [toFloating_congr hsame, hread]
  have hvalue : (Floating.finite (f := f) false m e).toRat = m * 2 ^ e := by simp [Floating.toRat]
  have hfinite' : (d'.toFloating false : Floating f).isFinite = true := by
    rw [hread]
    rfl
  have hfinite : (d.toFloating false : Floating f).isFinite = true := by
    rcases h with ⟨-, hle⟩ | ⟨-, hle⟩
    · exact toFloating_isFinite_mono (by omega) hle hfinite'
    · exact toFloating_isFinite_of_le (by omega) hm hc hle
  have hnear := Floating.toFloating_nearest d hp he hfinite
  have hnear' := Floating.toFloating_nearest d' hp he hfinite'
  rw [hread] at hnear'
  rw [← hvalue] at h
  exact toFloating_of_toRat hc hnear ((hnear'.toRat_eq_of_between hnear hsame h).trans hvalue)

end Decimal

end Keel
