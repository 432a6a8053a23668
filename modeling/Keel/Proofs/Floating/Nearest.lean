import Keel.Proofs.Floating.Integers
import Keel.Proofs.Floating.Shortest
import Mathlib.Algebra.Group.Even

namespace Keel.Floating

variable {f : Format} {num den : ℕ} {x y : Floating f} {q : ℚ}

def HasEvenSignificand : Floating f → Prop
  | .finite _ m _ => Even m
  | .infinite _ | .nan => False

structure IsNearest (x : Floating f) (q : ℚ) : Prop where
  finite : x.isFinite = true
  canonical : Canonical x
  le : ∀ y : Floating f, y.isFinite = true → Canonical y → |x.toRat - q| ≤ |y.toRat - q|
  even : ∀ y : Floating f, y.isFinite = true → Canonical y → |y.toRat - q| = |x.toRat - q| → y.toRat ≠ x.toRat →
    x.HasEvenSignificand

lemma IsNearest.toRat_eq (h : x.IsNearest y.toRat) (hy : y.isFinite = true) (hc : Canonical y) :
    x.toRat = y.toRat := by
  have hle := h.le y hy hc
  rw [sub_self, abs_zero, abs_nonpos_iff] at hle
  exact sub_eq_zero.mp hle

lemma IsNearest.le_toRat (h : x.IsNearest q) (hy : y.isFinite = true) (hc : Canonical y) (hle : y.toRat ≤ q) :
    y.toRat ≤ x.toRat := by
  have hnear := h.le y hy hc
  rw [abs_of_nonpos (sub_nonpos.mpr hle)] at hnear
  have hbelow := (abs_le.mp hnear).1
  linarith

lemma IsNearest.toRat_le (h : x.IsNearest q) (hy : y.isFinite = true) (hc : Canonical y) (hle : q ≤ y.toRat) :
    x.toRat ≤ y.toRat := by
  have hnear := h.le y hy hc
  rw [abs_of_nonneg (sub_nonneg.mpr hle)] at hnear
  have habove := (abs_le.mp hnear).2
  linarith

/-! On a grid, what is at most half a step away is nearest. -/

lemma quotient_eq_add (hd : 0 < den) :
    quotient num den = (num / den : ℕ) + ((num % den : ℕ) : ℚ) / den := by
  have hden : (den : ℚ) ≠ 0 := by positivity
  have hsplit : (num : ℚ) = den * (num / den : ℕ) + (num % den : ℕ) := by exact_mod_cast (Nat.div_add_mod num den).symm
  rw [quotient, hsplit]
  field_simp

lemma div_le_half_iff {r : ℕ} (hd : 0 < den) : (r : ℚ) / den ≤ 1 / 2 ↔ 2 * r ≤ den := by
  rw [div_le_div_iff₀ (by positivity) two_pos, one_mul, mul_comm]
  exact_mod_cast Iff.rfl

lemma half_le_div_iff {r : ℕ} (hd : 0 < den) : 1 / 2 ≤ (r : ℚ) / den ↔ den ≤ 2 * r := by
  rw [div_le_div_iff₀ two_pos (by positivity), one_mul, mul_comm]
  exact_mod_cast Iff.rfl

lemma abs_roundQuotient_sub_le (num : ℕ) (hd : 0 < den) :
    |(roundQuotient num den : ℚ) - quotient num den| ≤ 1 / 2 ∧
      (|(roundQuotient num den : ℚ) - quotient num den| = 1 / 2 → Even (roundQuotient num den)) := by
  have hden : (0 : ℚ) < den := by exact_mod_cast hd
  have hlt : num % den < den := Nat.mod_lt _ hd
  have hrest : 0 ≤ ((num % den : ℕ) : ℚ) / den := by positivity
  unfold roundQuotient
  rw [quotient_eq_add hd]
  dsimp only
  split_ifs with hup
  · have hhalf := (half_le_div_iff hd).mpr (show den ≤ 2 * (num % den) by omega)
    have hone : ((num % den : ℕ) : ℚ) / den ≤ 1 := by
      rw [div_le_one hden]
      exact_mod_cast hlt.le
    push_cast
    rw [abs_of_nonneg (by linarith)]
    refine ⟨by linarith, fun htie => ?_⟩
    have hequal : ((num % den : ℕ) : ℚ) / den = 1 / 2 := by linarith
    rw [div_eq_div_iff hden.ne' two_ne_zero, one_mul, mul_comm] at hequal
    have htwice : 2 * (num % den) = den := by exact_mod_cast hequal
    rw [Nat.even_add_one, Nat.not_even_iff]
    omega
  · have hhalf := (div_le_half_iff hd).mpr (show 2 * (num % den) ≤ den by omega)
    rw [abs_sub_comm, add_sub_cancel_left, abs_of_nonneg hrest]
    refine ⟨hhalf, fun htie => ?_⟩
    rw [div_eq_div_iff hden.ne' two_ne_zero, one_mul, mul_comm] at htie
    have htwice : 2 * (num % den) = den := by exact_mod_cast htie
    rw [Nat.even_iff]
    omega

lemma abs_sub_le_of_half {n : ℕ} (h : |(n : ℚ) - q| ≤ 1 / 2) (k : ℤ) :
    |(n : ℚ) - q| ≤ |(k : ℚ) - q| ∧ (|(k : ℚ) - q| = |(n : ℚ) - q| → k ≠ n → |(n : ℚ) - q| = 1 / 2) := by
  by_cases hk : k = n
  · rw [hk, Int.cast_natCast]
    exact ⟨le_rfl, fun _ hne => absurd rfl hne⟩
  · have hstep : (1 : ℚ) ≤ |(k : ℚ) - n| := by
      exact_mod_cast Int.one_le_abs (sub_ne_zero.mpr hk)
    have htriangle := abs_sub_le (k : ℚ) q n
    rw [abs_sub_comm q] at htriangle
    exact ⟨by linarith, fun htie _ => by linarith⟩

lemma abs_roundSignificand_sub_le (f : Format) (num : ℕ) (hd : 0 < den) (k : ℤ) :
    |(roundSignificand f num den : ℚ) * 2 ^ roundExponent f num den - quotient num den| ≤
        |(k : ℚ) * 2 ^ roundExponent f num den - quotient num den| ∧
      (|(k : ℚ) * 2 ^ roundExponent f num den - quotient num den| =
          |(roundSignificand f num den : ℚ) * 2 ^ roundExponent f num den - quotient num den| →
        k ≠ roundSignificand f num den → Even (roundSignificand f num den)) := by
  have hp : (0 : ℚ) < 2 ^ roundExponent f num den := by positivity
  have hscale (a : ℚ) : |a * 2 ^ roundExponent f num den - quotient num den| =
      |a - quotient num den / 2 ^ roundExponent f num den| * 2 ^ roundExponent f num den := by
    rw [← abs_of_pos hp, ← abs_mul, abs_of_pos hp, sub_mul, div_mul_cancel₀ _ hp.ne']
  obtain ⟨hhalf, heven⟩ := abs_roundQuotient_sub_le (scaled num den (-roundExponent f num den)).1
    (scaled_den_pos num hd (-roundExponent f num den))
  rw [quotient_roundExponent] at hhalf heven
  obtain ⟨hle, htie⟩ := abs_sub_le_of_half hhalf k
  rw [hscale, hscale]
  refine ⟨mul_le_mul_of_nonneg_right hle hp.le, fun hequal hne => ?_⟩
  exact heven (htie (mul_right_cancel₀ hp.ne' hequal) hne)

/-! Every number of the format is on the grid or below its least full significand. -/

lemma toRat_pack {m : ℕ} {e : ℤ} (h : (pack (f := f) false m e).isFinite = true) :
    (pack (f := f) false m e).toRat = m * 2 ^ e ∧ ((pack (f := f) false m e).HasEvenSignificand ↔ Even m) := by
  unfold pack at h ⊢
  split_ifs at h ⊢
  · cases h
  · exact ⟨by simp [toRat], Iff.rfl⟩

lemma toRat_round (hn : num ≠ 0) (hp : 2 ≤ f.precision) (h : (round (f := f) false num den).isFinite = true) :
    (round (f := f) false num den).toRat = roundSignificand f num den * 2 ^ roundExponent f num den ∧
      (Even (roundSignificand f num den) → (round (f := f) false num den).HasEvenSignificand) := by
  rw [round_eq hn] at h ⊢
  split_ifs at h ⊢ with hcarry
  · obtain ⟨hvalue, heven⟩ := toRat_pack h
    refine ⟨?_, fun _ => heven.mpr ((Nat.even_pow' (by omega)).mpr even_two)⟩
    have hpow : (2 : ℚ) ^ f.precision = 2 ^ (f.precision - 1) * 2 := by
      rw [← pow_succ, Nat.sub_add_cancel (by omega)]
    rw [hvalue, hcarry, zpow_add_one₀ two_ne_zero]
    push_cast
    rw [hpow]
    ring
  · obtain ⟨hvalue, heven⟩ := toRat_pack h
    exact ⟨hvalue, heven.mpr⟩

lemma full_le_quotient (hn : 0 < num) (hd : 0 < den) (h : f.minExponent < roundExponent f num den) :
    (2 : ℚ) ^ ((f.precision : ℤ) - 1) * 2 ^ roundExponent f num den ≤ quotient num den := by
  have he : roundExponent f num den = binaryExponent num den - (f.precision - 1) := by
    unfold roundExponent at h ⊢
    omega
  rw [← zpow_add₀ two_ne_zero, he, add_sub_cancel]
  exact (binaryExponent_spec hn hd).1

lemma grid_or_lt (num den : ℕ) (hy : y.isFinite = true) (hc : Canonical y) :
    (∃ k : ℤ, y.toRat = k * 2 ^ roundExponent f num den) ∨
      f.minExponent < roundExponent f num den ∧
        y.toRat < (2 : ℚ) ^ ((f.precision : ℤ) - 1) * 2 ^ roundExponent f num den := by
  cases y with
  | finite s m e =>
    obtain ⟨hm, hmin, -, -⟩ := hc
    rcases le_or_gt (roundExponent f num den) e with hle | hlt
    · exact .inl ⟨aligned s m e (roundExponent f num den), (aligned_toRat s m hle).symm⟩
    · refine .inr ⟨by omega, ?_⟩
      have hmq : (m : ℚ) < 2 ^ (f.precision : ℤ) := by exact_mod_cast hm
      calc toRat (.finite (f := f) s m e) ≤ m * 2 ^ e := by
            have hnonneg : (0 : ℚ) ≤ m * 2 ^ e := by positivity
            cases s with
            | true =>
              simp only [toRat, if_true]
              linarith
            | false => simp [toRat]
        _ < 2 ^ (f.precision : ℤ) * 2 ^ e := by gcongr
        _ ≤ 2 ^ (f.precision : ℤ) * 2 ^ (roundExponent f num den - 1) := by
            gcongr
            · norm_num
            · omega
        _ = 2 ^ ((f.precision : ℤ) - 1) * 2 ^ roundExponent f num den := by
            rw [← zpow_add₀ two_ne_zero, ← zpow_add₀ two_ne_zero]
            congr 1
            ring
  | infinite s => cases hy
  | nan => cases hy

lemma round_nearer (hn : 0 < num) (hd : 0 < den) (hp : 2 ≤ f.precision)
    (h : (round (f := f) false num den).isFinite = true) (hy : y.isFinite = true) (hc : Canonical y) :
    |(round (f := f) false num den).toRat - quotient num den| ≤ |y.toRat - quotient num den| ∧
      (|y.toRat - quotient num den| = |(round (f := f) false num den).toRat - quotient num den| →
        y.toRat ≠ (round (f := f) false num den).toRat → (round (f := f) false num den).HasEvenSignificand) := by
  obtain ⟨hvalue, heven⟩ := toRat_round hn.ne' hp h
  rw [hvalue]
  rcases grid_or_lt num den hy hc with ⟨k, hk⟩ | ⟨hfull, hlt⟩
  · obtain ⟨hle, htie⟩ := abs_roundSignificand_sub_le f num hd k
    rw [hk]
    refine ⟨hle, fun hequal hne => heven (htie hequal fun hsame => hne ?_)⟩
    rw [hsame, Int.cast_natCast]
  -- A number between grid points is below the least one with a full significand, which is not above the quotient.
  · have hleast := full_le_quotient hn hd hfull
    have hfirst := (abs_roundSignificand_sub_le f num hd (2 ^ (f.precision - 1))).1
    have hcast : ((2 ^ (f.precision - 1) : ℤ) : ℚ) = 2 ^ ((f.precision : ℤ) - 1) := by
      push_cast
      rw [← zpow_natCast]
      congr 1
      omega
    rw [hcast, abs_of_nonpos (sub_nonpos.mpr hleast)] at hfirst
    rw [abs_of_nonpos (show y.toRat - quotient num den ≤ 0 by linarith)]
    exact ⟨by linarith, fun hequal _ => by linarith⟩

lemma round_nearest (num : ℕ) (hd : 0 < den) (hp : 2 ≤ f.precision) (he : f.minExponent ≤ f.maxExponent)
    (h : (round (f := f) false num den).isFinite = true) :
    (round (f := f) false num den).IsNearest (quotient num den) := by
  have hc : Canonical (round (f := f) false num den) := round_canonical hd (by omega) he
  rcases Nat.eq_zero_or_pos num with rfl | hn
  · refine ⟨h, hc, fun y _ _ => ?_, fun y _ _ _ _ => ?_⟩
    · simp [round, zero, toRat, quotient]
    · simp [round, zero, HasEvenSignificand]
  · exact ⟨h, hc, fun y hy hc => (round_nearer hn hd hp h hy hc).1, fun y hy hc => (round_nearer hn hd hp h hy hc).2⟩

lemma toFloating_nearest (d : Decimal) (hp : 2 ≤ f.precision) (he : f.minExponent ≤ f.maxExponent)
    (h : (d.toFloating false : Floating f).isFinite = true) : (d.toFloating false : Floating f).IsNearest d.toRat := by
  rw [Decimal.toRat_quotient]
  exact round_nearest _ (by positivity) hp he h

/-! Whole numbers. -/

lemma exists_toRat_of_isInteger (h : x.isInteger = true) : ∃ k : ℤ, x.toRat = k := by
  cases x with
  | finite s m e =>
    have hquotient := quotient_of_isInteger (isInteger_iff.mp h)
    refine ⟨if s then -(m * 2 ^ e.toNat / 2 ^ (-e).toNat : ℕ) else (m * 2 ^ e.toNat / 2 ^ (-e).toNat : ℕ), ?_⟩
    cases s with
    | true => simp only [toRat, if_true, Int.cast_neg, Int.cast_natCast, hquotient, neg_mul]
    | false => simp only [toRat, Bool.false_eq_true, if_false, Int.cast_natCast, hquotient]
  | infinite s => cases h
  | nan => cases h

lemma ofInt_natural (n : ℕ) : (ofInt n : Floating f) = round false n 1 := by
  rw [ofInt, decide_eq_false (by omega), Int.natAbs_natCast]

lemma toFloating_natural (n : ℕ) : (Decimal.toFloating false ⟨n, 0⟩ : Floating f) = ofInt n := by
  rw [Decimal.toFloating, ofInt_natural]
  simp

lemma round_natural_nearest (n : ℕ) (hp : 2 ≤ f.precision) (he : f.minExponent ≤ f.maxExponent)
    (h : (ofInt n : Floating f).isFinite = true) : (ofInt n : Floating f).IsNearest n := by
  rw [ofInt_natural] at h ⊢
  have hnearest := round_nearest n Nat.one_pos hp he h
  rwa [quotient, Nat.cast_one, div_one] at hnearest

lemma ofInt_nearest {n : ℕ} (h : (ofInt n : Double).isFinite = true) :
    (ofInt n : Double).IsNearest n ∧ ∃ k : ℕ, (ofInt n : Double).toRat = k := by
  have hnearest := round_natural_nearest n (by decide) (by decide) h
  refine ⟨hnearest, ?_⟩
  rw [ofInt_natural] at h
  obtain ⟨k, hk⟩ := exists_toRat_of_isInteger (round_isInteger false n (by decide) h)
  rw [← ofInt_natural] at hk
  have hvalue : (zero false : Double).toRat = 0 := by simp [zero, toRat]
  have hzero := hnearest.le_toRat (y := zero false) rfl (by decide) (by rw [hvalue]; exact n.cast_nonneg)
  rw [hvalue, hk] at hzero
  obtain ⟨k, rfl⟩ := Int.eq_ofNat_of_zero_le (Int.cast_nonneg_iff.mp hzero)
  exact ⟨k, by rw [hk, Int.cast_natCast]⟩

lemma toRat_ofInt_of_le {n k : ℕ} (hk : (ofInt n : Double).toRat = k) (hn : n ≤ 2 ^ 53) : k = n := by
  have hexact := toRat_ofInt (show ExactInt n by unfold ExactInt; omega)
  rw [hk] at hexact
  exact_mod_cast hexact

lemma IsNearest.le_of_lt {n k : ℕ} {x : Double} (h : x.IsNearest n) (hk : x.toRat = k) (hn : n < 2 ^ 63) :
    k ≤ 2 ^ 63 := by
  have hpower : (Floating.finite (f := .binary64) false (2 ^ 52) 11).toRat = 2 ^ 63 := by norm_num [toRat]
  have hle := h.toRat_le (y := .finite false (2 ^ 52) 11) rfl (by decide) (by rw [hpower]; exact_mod_cast hn.le)
  rw [hk, hpower] at hle
  exact_mod_cast hle

/-! Numbers far below the greatest are rounded to finite ones. -/

lemma round_isFinite {negative : Bool} (hd : 0 < den) (hmin : f.minExponent < f.maxExponent)
    (h : quotient num den < 2 ^ (f.maxExponent + f.precision - 1)) :
    (round (f := f) negative num den).isFinite = true := by
  rcases Nat.eq_zero_or_pos num with rfl | hn
  · rfl
  have hlow := (binaryExponent_spec hn hd).1.trans_lt h
  rw [zpow_lt_zpow_iff_right₀ one_lt_two] at hlow
  have hexponent : roundExponent f num den < f.maxExponent := by
    unfold roundExponent
    omega
  rw [round_eq hn.ne']
  unfold pack
  split_ifs with hcarry hmax hmax
  · omega
  · rfl
  · omega
  · rfl

end Keel.Floating
