import Keel.Floating.Arithmetic
import Mathlib.Algebra.Order.Field.Power
import Mathlib.Data.Int.Log
import Mathlib.Data.Rat.Cast.Order
import Mathlib.Tactic.FieldSimp
import Mathlib.Tactic.GCongr
import Mathlib.Tactic.Linarith
import Mathlib.Tactic.Positivity
import Mathlib.Tactic.Ring

namespace Keel.Floating

variable {f : Format}

/-! The quotient as a rational number. -/

def quotient (num den : ℕ) : ℚ := num / den

lemma two_zpow_toNat (e : ℤ) : (2 : ℚ) ^ e = 2 ^ e.toNat / 2 ^ (-e).toNat := by
  rcases le_total 0 e with h | h
  · obtain ⟨n, rfl⟩ := Int.eq_ofNat_of_zero_le h
    simp
  · obtain ⟨n, hn⟩ := Int.eq_ofNat_of_zero_le (Int.neg_nonneg_of_nonpos h)
    obtain rfl : e = -n := by omega
    simp [zpow_neg]

lemma scaled_den_pos (num : ℕ) {den : ℕ} (hd : 0 < den) (e : ℤ) : 0 < (scaled num den e).2 := by
  simp only [scaled]
  positivity

lemma quotient_scaled (num den : ℕ) (e : ℤ) :
    quotient (scaled num den e).1 (scaled num den e).2 = quotient num den * 2 ^ e := by
  simp only [quotient, scaled, two_zpow_toNat e]
  push_cast
  rw [div_mul_div_comm]

lemma quotient_scaled_one (m : ℕ) (e : ℤ) : quotient (scaled m 1 e).1 (scaled m 1 e).2 = m * 2 ^ e := by
  rw [quotient_scaled]
  simp [quotient]

lemma quotient_lt_one_iff {num den : ℕ} (hd : 0 < den) : quotient num den < 1 ↔ num < den := by
  unfold quotient
  rw [div_lt_one (by positivity)]
  exact_mod_cast Iff.rfl

lemma zpow_log2_le {n : ℕ} (hn : 0 < n) : (2 : ℚ) ^ (n.log2 : ℤ) ≤ n := by
  rw [zpow_natCast]
  exact_mod_cast Nat.log2_self_le hn.ne'

lemma lt_zpow_log2 (n : ℕ) : (n : ℚ) < 2 ^ ((n.log2 : ℤ) + 1) := by
  have h : n < 2 ^ (n.log2 + 1) := Nat.lt_log2_self
  exact_mod_cast h

lemma binaryExponent_spec {num den : ℕ} (hn : 0 < num) (hd : 0 < den) :
    (2 : ℚ) ^ binaryExponent num den ≤ quotient num den ∧
      quotient num den < 2 ^ (binaryExponent num den + 1) := by
  have hdq : (0 : ℚ) < den := by exact_mod_cast hd
  have hlo : (2 : ℚ) ^ ((num.log2 : ℤ) - den.log2 - 1) ≤ quotient num den := by
    have hle := div_le_div₀ (by positivity) (zpow_log2_le hn) hdq (lt_zpow_log2 den).le
    rwa [← zpow_sub₀ two_ne_zero, ← sub_sub] at hle
  have hhi : quotient num den < (2 : ℚ) ^ ((num.log2 : ℤ) - den.log2 + 1) := by
    have hlt := div_lt_div₀ (lt_zpow_log2 num) (zpow_log2_le hd) (by positivity) (by positivity)
    rwa [← zpow_sub₀ two_ne_zero, add_sub_right_comm] at hlt
  have hbelow : (scaled num den (-((num.log2 : ℤ) - den.log2))).1 <
      (scaled num den (-((num.log2 : ℤ) - den.log2))).2 ↔
        quotient num den < 2 ^ ((num.log2 : ℤ) - den.log2) := by
    rw [← quotient_lt_one_iff (scaled_den_pos _ hd _), quotient_scaled, zpow_neg,
      ← div_eq_mul_inv, div_lt_one (by positivity)]
  simp only [binaryExponent]
  split_ifs with h
  · exact ⟨hlo, by simpa using hbelow.mp h⟩
  · exact ⟨not_lt.mp fun hh => h (hbelow.mpr hh), hhi⟩

lemma exponent_unique {q : ℚ} {e d : ℤ} (he : (2 : ℚ) ^ e ≤ q) (he' : q < 2 ^ (e + 1))
    (hd : (2 : ℚ) ^ d ≤ q) (hd' : q < 2 ^ (d + 1)) : e = d := by
  have h1 := (zpow_lt_zpow_iff_right₀ (by norm_num : (1 : ℚ) < 2)).mp (he.trans_lt hd')
  have h2 := (zpow_lt_zpow_iff_right₀ (by norm_num : (1 : ℚ) < 2)).mp (hd.trans_lt he')
  omega

lemma binaryExponent_eq {num den : ℕ} (hn : 0 < num) (hd : 0 < den) {e : ℤ}
    (he : (2 : ℚ) ^ e ≤ quotient num den) (he' : quotient num den < 2 ^ (e + 1)) :
    binaryExponent num den = e := by
  obtain ⟨h, h'⟩ := binaryExponent_spec hn hd
  exact exponent_unique h h' he he'

/-! The nearest integer. -/

lemma quotient_eq_iff {num den num' den' : ℕ} (hd : 0 < den) (hd' : 0 < den') :
    quotient num den = quotient num' den' ↔ num * den' = num' * den := by
  unfold quotient
  rw [div_eq_div_iff (by positivity) (by positivity)]
  exact_mod_cast Iff.rfl

lemma roundQuotient_mul (num den : ℕ) {k : ℕ} (hk : 0 < k) :
    roundQuotient (num * k) (den * k) = roundQuotient num den := by
  have hq : num * k / (den * k) = num / den := Nat.mul_div_mul_right _ _ hk
  have hr : num * k % (den * k) = num % den * k := Nat.mul_mod_mul_right _ _ _
  have hlt : den * k < 2 * (num % den * k) ↔ den < 2 * (num % den) := by
    rw [← Nat.mul_assoc, Nat.mul_lt_mul_right hk]
  have heq : 2 * (num % den * k) = den * k ↔ 2 * (num % den) = den := by
    rw [← Nat.mul_assoc, Nat.mul_left_inj hk.ne']
  simp only [roundQuotient, hq, hr, hlt, heq]

lemma roundQuotient_congr {num den num' den' : ℕ} (hd : 0 < den) (hd' : 0 < den')
    (h : quotient num den = quotient num' den') : roundQuotient num den = roundQuotient num' den' := by
  rw [← roundQuotient_mul num den hd', ← roundQuotient_mul num' den' hd,
    (quotient_eq_iff hd hd').mp h, Nat.mul_comm den den']

lemma roundQuotient_exact {m den : ℕ} (hd : 0 < den) : roundQuotient (m * den) den = m := by
  simp [roundQuotient, hd.ne', Nat.ne_of_lt hd]

lemma roundQuotient_eq {num den m : ℕ} (hd : 0 < den) (h : quotient num den = m) :
    roundQuotient num den = m := by
  have hm : quotient num den = quotient (m * den) den := by
    rw [h, quotient]
    push_cast
    field_simp
  rw [roundQuotient_congr hd hd hm, roundQuotient_exact hd]

lemma roundQuotient_bounds {num den : ℕ} (hd : 0 < den) {a b : ℕ} (ha : (a : ℚ) ≤ quotient num den)
    (hb : quotient num den < b) : a ≤ roundQuotient num den ∧ roundQuotient num den ≤ b := by
  have hlo : a ≤ num / den := by
    rw [Nat.le_div_iff_mul_le hd]
    have := (le_div_iff₀ (by exact_mod_cast hd)).mp ha
    exact_mod_cast this
  have hhi : num / den < b := by
    rw [Nat.div_lt_iff_lt_mul hd]
    have := (div_lt_iff₀ (by exact_mod_cast hd)).mp hb
    exact_mod_cast this
  simp only [roundQuotient]
  split <;> omega

/-! The rounded quotient. -/

lemma quotient_zero_iff {num den : ℕ} (hd : 0 < den) : quotient num den = 0 ↔ num = 0 := by
  have : (den : ℚ) ≠ 0 := by positivity
  simp [quotient, this]

lemma round_congr {negative : Bool} {num den num' den' : ℕ} (hd : 0 < den) (hd' : 0 < den')
    (h : quotient num den = quotient num' den') :
    round (f := f) negative num den = round negative num' den' := by
  have hz : num = 0 ↔ num' = 0 := by rw [← quotient_zero_iff hd, h, quotient_zero_iff hd']
  by_cases hn : num = 0
  · simp [round, hn, hz.mp hn]
  · have hn' : num' ≠ 0 := fun hh => hn (hz.mpr hh)
    obtain ⟨hlo, hhi⟩ := binaryExponent_spec (Nat.pos_of_ne_zero hn) hd
    have he : binaryExponent num' den' = binaryExponent num den :=
      binaryExponent_eq (Nat.pos_of_ne_zero hn') hd' (h ▸ hlo) (h ▸ hhi)
    have hq (e : ℤ) : roundQuotient (scaled num den e).1 (scaled num den e).2 =
        roundQuotient (scaled num' den' e).1 (scaled num' den' e).2 :=
      roundQuotient_congr (scaled_den_pos _ hd e) (scaled_den_pos _ hd' e)
        (by rw [quotient_scaled, quotient_scaled, h])
    simp only [round, hn, hn', if_false, he, hq]

def roundExponent (f : Format) (num den : ℕ) : ℤ :=
  max f.minExponent (binaryExponent num den - (f.precision - 1))

def roundSignificand (f : Format) (num den : ℕ) : ℕ :=
  let s := scaled num den (-roundExponent f num den)
  roundQuotient s.1 s.2

lemma round_eq {negative : Bool} {num den : ℕ} (hn : num ≠ 0) :
    round (f := f) negative num den =
      if roundSignificand f num den = 2 ^ f.precision then
        pack negative (2 ^ (f.precision - 1)) (roundExponent f num den + 1)
      else pack negative (roundSignificand f num den) (roundExponent f num den) := by
  rw [round, if_neg hn]
  rfl

lemma quotient_roundExponent (num den : ℕ) :
    quotient (scaled num den (-roundExponent f num den)).1 (scaled num den (-roundExponent f num den)).2 =
      quotient num den / 2 ^ roundExponent f num den := by
  rw [quotient_scaled, zpow_neg, div_eq_mul_inv]

lemma roundExponent_exact {num den m : ℕ} {e : ℤ} (hd : 0 < den) (hm : m ≠ 0)
    (hc : Canonical (.finite (f := f) false m e)) (h : quotient num den = m * 2 ^ e) :
    roundExponent f num den = e := by
  obtain ⟨hlt, hmin, -, hfull⟩ := hc
  have hn : 0 < num := by
    rw [Nat.pos_iff_ne_zero, ne_eq, ← quotient_zero_iff hd, h]
    positivity
  obtain ⟨hlo, hhi⟩ := binaryExponent_spec hn hd
  have hltq : (m : ℚ) < 2 ^ (f.precision : ℤ) := by exact_mod_cast hlt
  have hupper : binaryExponent num den < e + f.precision := by
    rw [← zpow_lt_zpow_iff_right₀ (by norm_num : (1 : ℚ) < 2)]
    refine hlo.trans_lt ?_
    rw [h, zpow_add₀ two_ne_zero, mul_comm]
    gcongr
  rcases hfull with hfull | rfl
  · have hp : 0 < f.precision := by
      rcases Nat.eq_zero_or_pos f.precision with h0 | h0
      · simp only [h0, pow_zero] at hlt
        omega
      · exact h0
    have hfullq : (2 : ℚ) ^ ((f.precision : ℤ) - 1) ≤ m := by
      have hcast : ((f.precision - 1 : ℕ) : ℤ) = (f.precision : ℤ) - 1 := by omega
      rw [← hcast, zpow_natCast]
      exact_mod_cast hfull
    have hlower : e + f.precision - 1 < binaryExponent num den + 1 := by
      rw [← zpow_lt_zpow_iff_right₀ (by norm_num : (1 : ℚ) < 2)]
      refine lt_of_le_of_lt ?_ hhi
      rw [h, add_sub_assoc, zpow_add₀ two_ne_zero, mul_comm]
      gcongr
    simp only [roundExponent]
    omega
  · simp only [roundExponent]
    omega

lemma round_exact {negative : Bool} {num den m : ℕ} {e : ℤ} (hd : 0 < den) (hm : m ≠ 0)
    (hc : Canonical (.finite (f := f) negative m e)) (h : quotient num den = m * 2 ^ e) :
    round negative num den = .finite (f := f) negative m e := by
  have he := roundExponent_exact hd hm hc h
  have hn : num ≠ 0 := by
    rw [ne_eq, ← quotient_zero_iff hd, h]
    positivity
  have hs : roundSignificand f num den = m := by
    apply roundQuotient_eq (scaled_den_pos _ hd _)
    rw [quotient_roundExponent, he, h]
    field_simp
  obtain ⟨hlt, -, hmax, -⟩ := hc
  rw [round_eq hn, hs, he, if_neg hlt.ne, pack, if_neg (not_lt.mpr hmax)]

lemma roundSignificand_bounds {num den : ℕ} (hn : 0 < num) (hd : 0 < den) (hp : 0 < f.precision) :
    roundSignificand f num den ≤ 2 ^ f.precision ∧
      (2 ^ (f.precision - 1) ≤ roundSignificand f num den ∨ roundExponent f num den = f.minExponent) := by
  obtain ⟨hlo, hhi⟩ := binaryExponent_spec hn hd
  have hcast : ((f.precision - 1 : ℕ) : ℤ) = (f.precision : ℤ) - 1 := by omega
  have hq : quotient num den / 2 ^ roundExponent f num den < ((2 ^ f.precision : ℕ) : ℚ) := by
    rw [div_lt_iff₀ (by positivity)]
    refine hhi.trans_le ?_
    push_cast
    rw [← zpow_natCast, ← zpow_add₀ two_ne_zero]
    apply zpow_le_zpow_right₀ (by norm_num)
    simp only [roundExponent]
    omega
  have hupper : roundSignificand f num den ≤ 2 ^ f.precision :=
    (roundQuotient_bounds (scaled_den_pos _ hd _) (a := 0) (by simp [quotient]; positivity)
      (by rwa [quotient_roundExponent])).2
  refine ⟨hupper, ?_⟩
  by_cases hmin : roundExponent f num den = f.minExponent
  · exact Or.inr hmin
  · left
    have he : roundExponent f num den = binaryExponent num den - (f.precision - 1) := by
      simp only [roundExponent] at hmin ⊢
      omega
    have hl : ((2 ^ (f.precision - 1) : ℕ) : ℚ) ≤ quotient num den / 2 ^ roundExponent f num den := by
      rw [le_div_iff₀ (by positivity)]
      push_cast
      rw [← zpow_natCast, ← zpow_add₀ two_ne_zero, hcast, he]
      refine le_trans (le_of_eq ?_) hlo
      congr 1
      ring
    exact (roundQuotient_bounds (scaled_den_pos _ hd _) (by rwa [quotient_roundExponent])
      (by rwa [quotient_roundExponent])).1

lemma pack_canonical {negative : Bool} {m : ℕ} {e : ℤ} (hm : m < 2 ^ f.precision)
    (he : f.minExponent ≤ e) (hfull : 2 ^ (f.precision - 1) ≤ m ∨ e = f.minExponent) :
    Canonical (pack (f := f) negative m e) := by
  unfold pack
  split_ifs with h
  · exact trivial
  · exact ⟨hm, he, not_lt.mp h, hfull⟩

lemma round_canonical {negative : Bool} {num den : ℕ} (hd : 0 < den) (hp : 0 < f.precision)
    (he : f.minExponent ≤ f.maxExponent) : Canonical (round (f := f) negative num den) := by
  rcases Nat.eq_zero_or_pos num with rfl | hn
  · simp [round, zero, Canonical, he]
  · obtain ⟨hle, hfull⟩ := roundSignificand_bounds (f := f) hn hd hp
    have hpow : 2 ^ (f.precision - 1) < 2 ^ f.precision := Nat.pow_lt_pow_right (by norm_num) (by omega)
    have hmin : f.minExponent ≤ roundExponent f num den := le_max_left _ _
    rw [round_eq hn.ne']
    split_ifs with h
    · exact pack_canonical hpow (by omega) (Or.inl le_rfl)
    · exact pack_canonical (lt_of_le_of_ne hle h) hmin hfull

lemma round_sign {negative s : Bool} {num den m : ℕ} {e : ℤ}
    (h : round (f := f) negative num den = .finite s m e) : s = negative := by
  by_cases hn : num = 0
  · simp only [round, hn, if_true, zero, finite.injEq] at h
    exact h.1.symm
  · rw [round_eq hn] at h
    unfold pack at h
    split_ifs at h <;> simp only [finite.injEq] at h <;> exact h.1.symm

lemma finite_ext {m k : ℕ} {e d : ℤ} (hm : Canonical (.finite (f := f) false m e))
    (hk : Canonical (.finite (f := f) false k d)) (h : (m : ℚ) * 2 ^ e = k * 2 ^ d) :
    Floating.finite (f := f) false m e = .finite false k d := by
  have hz : m = 0 ↔ k = 0 := by
    have he : (2 : ℚ) ^ e ≠ 0 := by positivity
    have hd : (2 : ℚ) ^ d ≠ 0 := by positivity
    constructor
    · rintro rfl
      simpa [hd] using h
    · rintro rfl
      simpa [he] using h
  by_cases hm0 : m = 0
  · obtain rfl := hz.mp hm0
    subst hm0
    have he : e = f.minExponent := by simpa using hm.2.2.2
    have hd : d = f.minExponent := by simpa using hk.2.2.2
    rw [he, hd]
  · have hden := scaled_den_pos m Nat.one_pos e
    have hq := quotient_scaled_one m e
    rw [← round_exact hden hm0 hm hq, ← round_exact hden (fun hh => hm0 (hz.mpr hh)) hk (hq.trans h)]

end Keel.Floating
