import Keel.Floating.Decimal
import Keel.Proofs.Floating.Rounding
import Mathlib.Data.Nat.Cast.Field

namespace Keel

namespace Decimal

variable {f : Format}

def toRat (d : Decimal) : ℚ := d.digits * 10 ^ d.exponent

lemma ten_zpow_toNat (e : ℤ) : (10 : ℚ) ^ e = 10 ^ e.toNat / 10 ^ (-e).toNat := by
  rcases le_total 0 e with h | h
  · obtain ⟨n, rfl⟩ := Int.eq_ofNat_of_zero_le h
    simp
  · obtain ⟨n, hn⟩ := Int.eq_ofNat_of_zero_le (Int.neg_nonneg_of_nonpos h)
    obtain rfl : e = -n := by omega
    simp [zpow_neg]

lemma toFloating_eq_round (d : Decimal) {num den : ℕ} (hd : 0 < den)
    (h : d.toRat = Floating.quotient num den) (negative : Bool) :
    d.toFloating negative = Floating.round (f := f) negative num den := by
  apply Floating.round_congr (by positivity) hd
  rw [← h, toRat, Floating.quotient, ten_zpow_toNat]
  push_cast
  rw [mul_div_assoc]

lemma toRat_quotient (d : Decimal) :
    d.toRat = Floating.quotient (d.digits * 10 ^ d.exponent.toNat) (10 ^ (-d.exponent).toNat) := by
  rw [toRat, Floating.quotient, ten_zpow_toNat]
  push_cast
  rw [mul_div_assoc]

lemma toFloating_congr {d d' : Decimal} (h : d.toRat = d'.toRat) (negative : Bool) :
    d.toFloating (f := f) negative = d'.toFloating negative :=
  toFloating_eq_round d (by positivity) (h.trans (toRat_quotient d')) negative

lemma toRat_carried (d : Decimal) : d.carried.toRat = d.toRat := by
  unfold carried
  split_ifs with h
  · simp only [toRat, h]
    rw [zpow_add₀ (by norm_num)]
    push_cast
    ring
  · rfl

lemma carried_toFloating (d : Decimal) (negative : Bool) :
    d.carried.toFloating (f := f) negative = d.toFloating negative :=
  toFloating_congr (toRat_carried d) negative

lemma search_toFloating {x : Floating f} {num den : ℕ} (fuel : ℕ) (exponent : ℤ)
    (h : (neighbours num den (exponent - fuel)).1.toFloating false = x) :
    (search x num den fuel exponent).toFloating false = x := by
  induction fuel generalizing exponent with
  | zero => simpa [search] using h
  | succ fuel ih =>
    simp only [search]
    split_ifs with hnear hfar
    · rw [carried_toFloating, hnear]
    · rw [carried_toFloating, hfar]
    · apply ih
      convert h using 4
      push_cast
      ring

lemma neighbours_exact {num den k : ℕ} {exponent : ℤ} (hd : 0 < den)
    (h : num * 10 ^ (-exponent).toNat = k * (den * 10 ^ exponent.toNat)) :
    (neighbours num den exponent).1 = ⟨k, exponent⟩ := by
  have hp : 0 < den * 10 ^ exponent.toNat := by positivity
  simp only [neighbours, h, Nat.mul_mod_left, Nat.mul_div_cancel k hp]
  simp [hp]

lemma fine_grid (m : ℕ) {e exponent : ℤ} (h : exponent ≤ min e 0) :
    ∃ k : ℕ, (Floating.scaled m 1 e).1 * 10 ^ (-exponent).toNat =
      k * ((Floating.scaled m 1 e).2 * 10 ^ exponent.toNat) := by
  have hx : exponent.toNat = 0 := by omega
  obtain ⟨j, hj⟩ : ∃ j, (-exponent).toNat = (-e).toNat + j := ⟨(-exponent).toNat - (-e).toNat, by omega⟩
  refine ⟨m * 2 ^ e.toNat * 5 ^ (-e).toNat * 10 ^ j, ?_⟩
  rw [hx, hj, pow_add, show (10 : ℕ) ^ (-e).toNat = 2 ^ (-e).toNat * 5 ^ (-e).toNat by rw [← Nat.mul_pow]]
  simp only [Floating.scaled, pow_zero]
  ring

lemma neighbours_toRat (m : ℕ) {e exponent : ℤ} (h : exponent ≤ min e 0) :
    (neighbours (Floating.scaled m 1 e).1 (Floating.scaled m 1 e).2 exponent).1.toRat = m * 2 ^ e := by
  obtain ⟨k, hk⟩ := fine_grid m h
  have hd := Floating.scaled_den_pos m Nat.one_pos e
  have hx : exponent.toNat = 0 := by omega
  rw [neighbours_exact hd hk, toRat_quotient, ← Floating.quotient_scaled_one,
    Floating.quotient_eq_iff (by positivity) hd]
  simp only [hx, pow_zero, mul_one] at hk ⊢
  exact hk.symm

lemma toFloating_exact {d : Decimal} {m : ℕ} {e : ℤ} (hm : m ≠ 0)
    (hc : Floating.Canonical (.finite (f := f) false m e)) (h : d.toRat = m * 2 ^ e) :
    d.toFloating false = Floating.finite (f := f) false m e := by
  rw [toRat_quotient] at h
  exact Floating.round_exact (by positivity) hm hc h

lemma shortest_toFloating {m : ℕ} {e : ℤ} (hc : Floating.Canonical (.finite (f := f) false m e)) :
    (shortest f m e).toFloating false = Floating.finite (f := f) false m e := by
  unfold shortest
  split_ifs with hm
  · subst hm
    obtain ⟨-, -, -, hfull | rfl⟩ := hc
    · simp at hfull
    · simp [toFloating, Floating.round, Floating.zero]
  · apply search_toFloating
    exact toFloating_exact hm hc (neighbours_toRat m (by omega))

end Decimal

namespace Floating

variable {f : Format}

lemma isInteger_iff {negative : Bool} {m : ℕ} {e : ℤ} :
    (Floating.finite (f := f) negative m e).isInteger = true ↔ 2 ^ (-e).toNat ∣ m := by
  simp [isInteger, Nat.dvd_iff_mod_eq_zero]

lemma quotient_of_isInteger {m : ℕ} {e : ℤ} (h : 2 ^ (-e).toNat ∣ m) :
    ((m * 2 ^ e.toNat / 2 ^ (-e).toNat : ℕ) : ℚ) = m * 2 ^ e := by
  rw [Nat.cast_div (Dvd.dvd.mul_right h _) (by positivity), two_zpow_toNat]
  push_cast
  rw [mul_div_assoc]

lemma roundSignificand_of_neg {n : ℕ} (h : roundExponent f n 1 < 0) :
    roundSignificand f n 1 = n * 2 ^ (-roundExponent f n 1).toNat := by
  have hx : (roundExponent f n 1).toNat = 0 := by omega
  simp only [roundSignificand, scaled, neg_neg, hx, pow_zero, mul_one]
  simpa using roundQuotient_exact (m := n * 2 ^ (-roundExponent f n 1).toNat) Nat.one_pos

lemma pack_isInteger {negative : Bool} {m : ℕ} {e : ℤ} (h : 2 ^ (-e).toNat ∣ m)
    (hf : (pack (f := f) negative m e).isFinite) : (pack (f := f) negative m e).isInteger := by
  unfold pack at hf ⊢
  split_ifs at hf ⊢ with hmax
  · simp [isFinite] at hf
  · exact isInteger_iff.mpr h

lemma round_isInteger (negative : Bool) (n : ℕ) (hp : 0 < f.precision)
    (hf : (round (f := f) negative n 1).isFinite) : (round (f := f) negative n 1).isInteger := by
  rcases Nat.eq_zero_or_pos n with rfl | hn
  · simp [round, zero, isInteger]
  · rw [round_eq hn.ne'] at hf ⊢
    rcases lt_or_ge (roundExponent f n 1) 0 with hneg | hpos
    · obtain ⟨k, hk⟩ : ∃ k, (-roundExponent f n 1).toNat = k + 1 :=
        ⟨(-roundExponent f n 1).toNat - 1, by omega⟩
      have hs := roundSignificand_of_neg hneg
      split_ifs at hf ⊢ with hcarry
      · refine pack_isInteger ?_ hf
        have hk' : (-(roundExponent f n 1 + 1)).toNat = k := by omega
        obtain ⟨p, hp⟩ : ∃ p, f.precision = p + 1 := ⟨f.precision - 1, by omega⟩
        rw [hcarry, hp, hk, pow_succ, pow_succ, ← mul_assoc, Nat.mul_left_inj (by norm_num)] at hs
        rw [hk', hp, Nat.add_sub_cancel, hs]
        exact Dvd.intro_left n rfl
      · refine pack_isInteger ?_ hf
        rw [hs]
        exact Dvd.intro_left n rfl
    · have hz : (-roundExponent f n 1).toNat = 0 := by omega
      have hz' : (-(roundExponent f n 1 + 1)).toNat = 0 := by omega
      split_ifs at hf ⊢ with hcarry
      · exact pack_isInteger (by rw [hz', pow_zero]; exact one_dvd _) hf
      · exact pack_isInteger (by rw [hz, pow_zero]; exact one_dvd _) hf

lemma shortest_exponent_neg {m : ℕ} {e : ℤ} (hc : Canonical (.finite (f := f) false m e))
    (hp : 0 < f.precision) (hi : (Floating.finite (f := f) false m e).isInteger = false) :
    (Decimal.shortest f m e).exponent < 0 := by
  by_contra hneg
  have hz : (-(Decimal.shortest f m e).exponent).toNat = 0 := by omega
  have hread := Decimal.shortest_toFloating hc
  rw [Decimal.toFloating, hz, pow_zero] at hread
  have hint := round_isInteger (f := f) false
    ((Decimal.shortest f m e).digits * 10 ^ (Decimal.shortest f m e).exponent.toNat) hp (by rw [hread]; rfl)
  rw [hread, hi] at hint
  exact absurd hint (by simp)

end Floating

end Keel
