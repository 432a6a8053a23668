import Keel.Proofs.Floating.Rounding

namespace Keel.Floating

variable {f : Format}

def toRat : Floating f → ℚ
  | .finite negative m e => (if negative then -(m : ℚ) else m) * 2 ^ e
  | .infinite _ | .nan => 0

lemma aligned_toRat (negative : Bool) (m : ℕ) {e base : ℤ} (h : base ≤ e) :
    (aligned negative m e base : ℚ) * 2 ^ base = toRat (.finite (f := f) negative m e) := by
  obtain ⟨k, rfl⟩ := Int.le.dest h
  cases negative <;> simp [aligned, toRat, zpow_add₀] <;> ring

lemma order_eq {x y : Floating f} (hx : x.isFinite) (hy : y.isFinite) :
    order? x y = some (compare x.toRat y.toRat) := by
  cases x with
  | finite s m e =>
    cases y with
    | finite t n d =>
      have hp : (0 : ℚ) < 2 ^ min e d := by positivity
      simp only [order?, Option.some.injEq]
      rw [← aligned_toRat s m (min_le_left e d), ← aligned_toRat t n (min_le_right e d)]
      rcases lt_trichotomy (aligned s m e (min e d)) (aligned t n d (min e d)) with h | h | h
      · rw [compare_lt_iff_lt.mpr h, eq_comm, compare_lt_iff_lt]
        gcongr
      · simp [h]
      · rw [compare_gt_iff_gt.mpr h, eq_comm, compare_gt_iff_gt]
        gcongr
    | infinite t => simp [isFinite] at hy
    | nan => simp [isFinite] at hy
  | infinite s => simp [isFinite] at hx
  | nan => simp [isFinite] at hx

lemma lt_iff {x y : Floating f} (hx : x.isFinite) (hy : y.isFinite) : x.lt y = true ↔ x.toRat < y.toRat := by
  simp [lt, order_eq hx hy, compare_lt_iff_lt]

lemma eq_iff {x y : Floating f} (hx : x.isFinite) (hy : y.isFinite) : x.eq y = true ↔ x.toRat = y.toRat := by
  simp [eq, order_eq hx hy]

lemma le_iff {x y : Floating f} (hx : x.isFinite) (hy : y.isFinite) : x.le y = true ↔ x.toRat ≤ y.toRat := by
  simp [le, order_eq hx hy, compare_lt_iff_lt, le_iff_lt_or_eq]

lemma ofScaled_congr {negative : Bool} {m num den : ℕ} {e : ℤ} (hd : 0 < den)
    (h : (m : ℚ) * 2 ^ e = quotient num den) : ofScaled (f := f) negative m e = round negative num den := by
  apply round_congr (scaled_den_pos _ Nat.one_pos e) hd
  rw [quotient_scaled_one, h]

/-! Integers up to the range of the significand of a double. -/

def ExactInt (n : ℤ) : Prop := n.natAbs ≤ 2 ^ 53

lemma canonical_of_lt {n : ℕ} (hn : 0 < n) (h : n < 2 ^ 53) :
    ∃ m e, m ≠ 0 ∧ (∀ negative, Canonical (f := .binary64) (.finite negative m e)) ∧ (m : ℚ) * 2 ^ e = n := by
  have hlog : n.log2 < 53 := (Nat.log2_lt hn.ne').mpr h
  refine ⟨n * 2 ^ (52 - n.log2), (n.log2 : ℤ) - 52, by positivity, fun _ => ⟨?_, ?_, ?_, Or.inl ?_⟩, ?_⟩
  · calc n * 2 ^ (52 - n.log2) < 2 ^ (n.log2 + 1) * 2 ^ (52 - n.log2) := by
          gcongr
          exact Nat.lt_log2_self
      _ = 2 ^ 53 := by
          rw [← pow_add]
          congr 1
          omega
  · simp only [Format.binary64]
    omega
  · simp only [Format.binary64]
    omega
  · calc 2 ^ 52 = 2 ^ n.log2 * 2 ^ (52 - n.log2) := by
          rw [← pow_add]
          congr 1
          omega
      _ ≤ n * 2 ^ (52 - n.log2) := by
          gcongr
          exact Nat.log2_self_le hn.ne'
  · push_cast
    rw [← zpow_natCast, mul_assoc, ← zpow_add₀ two_ne_zero]
    have : ((52 - n.log2 : ℕ) : ℤ) + ((n.log2 : ℤ) - 52) = 0 := by omega
    simp [this]

lemma canonical_of_le {n : ℕ} (hn : 0 < n) (h : n ≤ 2 ^ 53) :
    ∃ m e, m ≠ 0 ∧ (∀ negative, Canonical (f := .binary64) (.finite negative m e)) ∧ (m : ℚ) * 2 ^ e = n := by
  rcases Nat.lt_or_eq_of_le h with hlt | rfl
  · exact canonical_of_lt hn hlt
  · refine ⟨2 ^ 52, 1, by norm_num, fun _ => ?_, by norm_num⟩
    simp [Canonical, Format.binary64]

lemma ofInt_exact {n : ℤ} (h : ExactInt n) :
    ∃ m e, (ofInt n : Double) = .finite (n < 0) m e ∧
      Canonical (f := .binary64) (.finite (n < 0) m e) ∧ (m : ℚ) * 2 ^ e = n.natAbs := by
  rcases Nat.eq_zero_or_pos n.natAbs with hz | hp
  · obtain rfl := Int.natAbs_eq_zero.mp hz
    exact ⟨0, -1074, rfl, by decide, by simp⟩
  · obtain ⟨m, e, hm, hc, hv⟩ := canonical_of_le hp h
    exact ⟨m, e, round_exact Nat.one_pos hm (hc _) (by simpa [quotient] using hv.symm), hc _, hv⟩

lemma ofInt_finite {n : ℤ} (h : ExactInt n) : (ofInt n : Double).isFinite := by
  obtain ⟨m, e, hx, -, -⟩ := ofInt_exact h
  rw [hx]
  rfl

lemma toRat_ofInt {n : ℤ} (h : ExactInt n) : (ofInt n : Double).toRat = n := by
  obtain ⟨m, e, hx, -, hv⟩ := ofInt_exact h
  rw [hx, toRat]
  rcases lt_or_ge n 0 with hn | hn
  · simp only [hn, decide_true, if_true, neg_mul, hv]
    rw [Nat.cast_natAbs, abs_of_neg hn]
    simp
  · simp only [not_lt.mpr hn, decide_false, Bool.false_eq_true, if_false, hv]
    rw [Nat.cast_natAbs, abs_of_nonneg hn]

lemma truncate?_of_toRat {x : Floating f} {n : ℤ} (hx : x.isFinite) (h : x.toRat = n) : x.truncate? = some n := by
  cases x with
  | finite s m e =>
    have hscaled : (m * 2 ^ e.toNat : ℤ) = (if s then -n else n) * 2 ^ (-e).toNat := by
      have hvalue : (m : ℚ) * 2 ^ e = if s then -(n : ℚ) else n := by
        rw [← h, toRat]
        cases s <;> simp
      rw [two_zpow_toNat e, ← mul_div_assoc, div_eq_iff (by positivity)] at hvalue
      cases s <;> exact_mod_cast hvalue
    have hquotient : ((m * 2 ^ e.toNat / 2 ^ (-e).toNat : ℕ) : ℤ) = if s then -n else n := by
      push_cast
      rw [hscaled, Int.mul_ediv_cancel _ (by positivity)]
    simp only [truncate?, hquotient]
    cases s <;> simp
  | infinite s => cases hx
  | nan => cases hx

lemma truncate?_ofInt {n : ℤ} (h : ExactInt n) : (ofInt n : Double).truncate? = some n :=
  truncate?_of_toRat (ofInt_finite h) (toRat_ofInt h)

lemma ofInt_lt {a b : ℤ} (ha : ExactInt a) (hb : ExactInt b) :
    (ofInt a : Double).lt (ofInt b) = decide (a < b) := by
  rw [Bool.eq_iff_iff, lt_iff (ofInt_finite ha) (ofInt_finite hb), toRat_ofInt ha, toRat_ofInt hb]
  simp

lemma ofInt_le {a b : ℤ} (ha : ExactInt a) (hb : ExactInt b) :
    (ofInt a : Double).le (ofInt b) = decide (a ≤ b) := by
  rw [Bool.eq_iff_iff, le_iff (ofInt_finite ha) (ofInt_finite hb), toRat_ofInt ha, toRat_ofInt hb]
  simp

lemma ofInt_zero : (ofInt 0 : Double) = zero false := rfl

lemma ofInt_add_one {n : ℤ} (hn : 0 ≤ n) (h : n < 2 ^ 53) :
    add (ofInt n : Double) (ofInt 1) = ofInt (n + 1) := by
  obtain ⟨m, e, hx, -, hv⟩ := ofInt_exact (show ExactInt n by unfold ExactInt; omega)
  obtain ⟨k, d, hy, -, hw⟩ := ofInt_exact (show ExactInt 1 by unfold ExactInt; omega)
  have hneg : decide (n < 0) = false := decide_eq_false (by omega)
  have hone : decide ((1 : ℤ) < 0) = false := rfl
  have hax := aligned_toRat (f := .binary64) false m (min_le_left e d)
  have hay := aligned_toRat (f := .binary64) false k (min_le_right e d)
  simp only [toRat, Bool.false_eq_true, if_false, hv, hw] at hax hay
  set sum := aligned false m e (min e d) + aligned false k d (min e d) with hsum
  have hvalue : (sum : ℚ) * 2 ^ min e d = n + 1 := by
    rw [hsum, Int.cast_add, add_mul, hax, hay, Nat.cast_natAbs, abs_of_nonneg hn]
    simp
  have hpos : 0 < sum := by
    have hp : (0 : ℚ) < 2 ^ min e d := by positivity
    have hn' : (0 : ℚ) < n + 1 := by
      have : (0 : ℚ) ≤ n := by exact_mod_cast hn
      linarith
    have := pos_of_mul_pos_left (hvalue ▸ hn') hp.le
    exact_mod_cast this
  rw [hx, hy, hneg, hone]
  simp only [add, ← hsum, hpos.ne', if_false, ofInt]
  rw [decide_eq_false (not_lt.mpr hpos.le), decide_eq_false (show ¬ n + 1 < 0 by omega)]
  apply ofScaled_congr Nat.one_pos
  have hs : ((sum.natAbs : ℕ) : ℚ) = sum := by
    rw [Nat.cast_natAbs, abs_of_pos hpos]
  rw [hs, hvalue, quotient, Nat.cast_natAbs, abs_of_nonneg (by omega)]
  simp

end Keel.Floating
