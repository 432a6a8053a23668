import Keel.Proofs.Floating.Intervals

namespace Keel

namespace Decimal

open Floating (Canonical quotient)

variable {f : Format} {m num den : ℕ} {e g : ℤ} {d d' : Decimal} {x : Floating f}

/-- The decimal reads back as the number. Others that do have no fewer digits, or as many and are no nearer. -/
structure IsShortest (d : Decimal) (x : Floating f) : Prop where
  reads : d.toFloating false = x
  fewest : ∀ d' : Decimal, d'.toFloating false = x → length d.digits ≤ length d'.digits
  nearest : ∀ d' : Decimal, d'.toFloating false = x → length d'.digits = length d.digits →
    |d.toRat - x.toRat| ≤ |d'.toRat - x.toRat|

/-! How many digits. -/

lemma length_le_iff {n k : ℕ} : length n ≤ k ↔ n < 10 ^ k := by
  unfold length
  split_ifs with hn
  · simp [hn]
  · rcases Nat.eq_zero_or_pos k with rfl | hk
    · simp [hn, Nat.toDigits_ne_nil]
    · exact Nat.length_toDigits_le_iff (by decide) hk

lemma lt_length_iff {n k : ℕ} : k < length n ↔ 10 ^ k ≤ n := by
  rw [← not_le, length_le_iff, not_lt]

lemma length_pos {n : ℕ} (hn : 0 < n) : 0 < length n := lt_length_iff.mpr (by rwa [pow_zero])

lemma exists_length_eq {n : ℕ} (hn : 0 < n) : ∃ k, length n = k + 1 ∧ 10 ^ k ≤ n ∧ n < 10 ^ (k + 1) := by
  have hpos := length_pos hn
  obtain ⟨k, hk⟩ : ∃ k, length n = k + 1 := ⟨length n - 1, by omega⟩
  exact ⟨k, hk, lt_length_iff.mp (by omega), length_le_iff.mp hk.le⟩

lemma pointPosition_spec (hn : 0 < num) (hd : 0 < den) :
    (10 : ℚ) ^ (pointPosition num den - 1) ≤ quotient num den ∧ quotient num den < 10 ^ pointPosition num den := by
  have hdq : (0 : ℚ) < den := by exact_mod_cast hd
  unfold pointPosition
  split_ifs with hwhole
  · obtain ⟨k, hk, hlow, hhigh⟩ := exists_length_eq (Nat.div_pos hwhole hd)
    rw [Nat.le_div_iff_mul_le hd] at hlow
    rw [Nat.div_lt_iff_lt_mul hd] at hhigh
    rw [hk, Nat.cast_add, Nat.cast_one, add_sub_cancel_right, quotient, le_div_iff₀ hdq, div_lt_iff₀ hdq]
    exact_mod_cast And.intro hlow hhigh
  -- Below one the inverse has as many digits, except where it is a power of ten: so have the whole numbers below it.
  · obtain ⟨k, hk, hlow, hhigh⟩ := exists_length_eq (show 0 < (den - 1) / num from Nat.div_pos (by omega) hn)
    rw [Nat.le_div_iff_mul_le hn] at hlow
    rw [Nat.div_lt_iff_lt_mul hn] at hhigh
    have hlow' : num * 10 ^ k < 1 * den := by
      rw [Nat.mul_comm]
      omega
    have hhigh' : 1 * den ≤ num * 10 ^ (k + 1) := by
      rw [Nat.mul_comm num]
      omega
    have hexponent : (1 : ℤ) - ((k + 1 : ℕ) : ℤ) = -(k : ℤ) := by
      push_cast
      ring
    have hexponent' : -(k : ℤ) - 1 = -((k + 1 : ℕ) : ℤ) := by
      push_cast
      ring
    rw [hk, hexponent, hexponent', quotient, zpow_neg, zpow_neg, zpow_natCast, zpow_natCast, ← one_div, ← one_div,
      div_le_div_iff₀ (by positivity) hdq, div_lt_div_iff₀ hdq (by positivity)]
    exact_mod_cast And.intro hhigh' hlow'

/-! Grids. -/

lemma toRat_mk (n : ℕ) (g : ℤ) : (⟨n, g⟩ : Decimal).toRat = n * 10 ^ g := rfl

lemma toRat_one (g : ℤ) : (⟨1, g⟩ : Decimal).toRat = 10 ^ g := by simp [toRat_mk]

lemma toRat_power (k : ℕ) (g : ℤ) : (⟨10 ^ k, g⟩ : Decimal).toRat = 10 ^ ((k : ℤ) + g) := by
  rw [toRat_mk, zpow_add₀ (by norm_num), zpow_natCast]
  push_cast
  rfl

lemma toRat_mono {j k : ℕ} (h : j ≤ k) : (⟨j, g⟩ : Decimal).toRat ≤ (⟨k, g⟩ : Decimal).toRat := by
  rw [toRat_mk, toRat_mk]
  gcongr

lemma toRat_lt_iff {k : ℕ} : d.toRat < 10 ^ ((k : ℤ) + d.exponent) ↔ d.digits < 10 ^ k := by
  rw [← toRat_power, toRat_mk, toRat, mul_lt_mul_iff_left₀ (by positivity), Nat.cast_lt]

lemma exists_on_grid (d : Decimal) (h : g ≤ d.exponent) : ∃ j : ℕ, (⟨j, g⟩ : Decimal).toRat = d.toRat := by
  obtain ⟨k, hk⟩ := Int.le.dest h
  refine ⟨d.digits * 10 ^ k, ?_⟩
  rw [toRat_mk, toRat, ← hk, zpow_add₀ (by norm_num), zpow_natCast]
  push_cast
  ring

lemma abs_toRat_sub (j : ℕ) (g : ℤ) (q : ℚ) : |(⟨j, g⟩ : Decimal).toRat - q * 10 ^ g| = |j - q| * 10 ^ g := by
  rw [toRat_mk, ← sub_mul, abs_mul, abs_of_pos (by positivity : (0 : ℚ) < 10 ^ g)]

lemma floor_distances (num : ℕ) (hd : 0 < den) :
    |((num / den : ℕ) : ℚ) - quotient num den| = ((num % den : ℕ) : ℚ) / den ∧
      |((num / den + 1 : ℕ) : ℚ) - quotient num den| = 1 - ((num % den : ℕ) : ℚ) / den ∧
        ((num % den : ℕ) : ℚ) / den < 1 := by
  have hrest : 0 ≤ ((num % den : ℕ) : ℚ) / den := by positivity
  have hone : ((num % den : ℕ) : ℚ) / den < 1 := by
    rw [div_lt_one (by positivity)]
    exact_mod_cast Nat.mod_lt num hd
  rw [Floating.quotient_eq_add hd, sub_add_cancel_left, abs_neg, abs_of_nonneg hrest, Nat.cast_add, Nat.cast_one,
    add_sub_add_left_eq_sub, abs_of_nonneg (sub_nonneg.mpr hone.le)]
  exact ⟨rfl, rfl, hone⟩

structure Beside (q : ℚ) (g : ℤ) (low : ℕ) (near far : Decimal) : Prop where
  low_le : (⟨low, g⟩ : Decimal).toRat ≤ q
  lt_high : q < (⟨low + 1, g⟩ : Decimal).toRat
  points : near = ⟨low, g⟩ ∧ far = ⟨low + 1, g⟩ ∨ near = ⟨low + 1, g⟩ ∧ far = ⟨low, g⟩
  nearer : |near.toRat - q| ≤ |far.toRat - q|

lemma neighbours_beside (num : ℕ) (hd : 0 < den) (g : ℤ) :
    ∃ low, Beside (quotient num den) g low (neighbours num den g).1 (neighbours num den g).2 := by
  have hunfold : neighbours num den g =
      let n := num * 10 ^ (-g).toNat
      let b := den * 10 ^ g.toNat
      if 2 * (n % b) < b ∨ (2 * (n % b) = b ∧ n / b % 2 = 0) then (⟨n / b, g⟩, ⟨n / b + 1, g⟩)
      else (⟨n / b + 1, g⟩, ⟨n / b, g⟩) := rfl
  have hb : 0 < den * 10 ^ g.toNat := by positivity
  have hsteps : quotient num den = quotient (num * 10 ^ (-g).toNat) (den * 10 ^ g.toNat) * 10 ^ g := by
    rw [quotient, quotient, ten_zpow_toNat]
    push_cast
    field_simp
  rw [hunfold, hsteps]
  set n := num * 10 ^ (-g).toNat
  set b := den * 10 ^ g.toNat
  obtain ⟨hlow, hhigh, hone⟩ := floor_distances n hb
  have hg : (0 : ℚ) < 10 ^ g := by positivity
  refine ⟨n / b, ?_, ?_, ?_, ?_⟩
  · rw [toRat_mk, Floating.quotient_eq_add hb]
    gcongr
    exact le_add_of_nonneg_right (by positivity)
  · rw [toRat_mk, Floating.quotient_eq_add hb]
    push_cast
    gcongr
  · dsimp only
    split_ifs
    · exact .inl ⟨rfl, rfl⟩
    · exact .inr ⟨rfl, rfl⟩
  · dsimp only
    split_ifs with hnear
    · have hhalf := (Floating.div_le_half_iff hb).mpr (show 2 * (n % b) ≤ b by omega)
      rw [abs_toRat_sub, abs_toRat_sub, hlow, hhigh]
      gcongr
      linarith
    · have hhalf := (Floating.half_le_div_iff hb).mpr (show b ≤ 2 * (n % b) by omega)
      rw [abs_toRat_sub, abs_toRat_sub, hlow, hhigh]
      gcongr
      linarith

/-! The search. -/

def taken (x : Floating f) (num den : ℕ) (g : ℤ) : Decimal :=
  if (neighbours num den g).1.toFloating false = x then (neighbours num den g).1 else (neighbours num den g).2

lemma exists_taken (x : Floating f) (num : ℕ) (hd : 0 < den) (g : ℤ) : ∃ j : ℕ, taken x num den g = ⟨j, g⟩ ∧
    ∀ k : ℕ, quotient num den < (⟨k, g⟩ : Decimal).toRat → j ≤ k := by
  obtain ⟨low, hlow, -, hpoints, -⟩ := neighbours_beside num hd g
  have hlt (k : ℕ) (hk : quotient num den < (⟨k, g⟩ : Decimal).toRat) : low < k := by
    by_contra hge
    exact absurd (hlow.trans_lt hk) (not_lt.mpr (toRat_mono (not_lt.mp hge)))
  unfold taken
  rcases hpoints with ⟨hnear, hfar⟩ | ⟨hnear, hfar⟩ <;> rw [hnear, hfar] <;> split_ifs
  · exact ⟨low, rfl, fun k hk => (hlt k hk).le⟩
  · exact ⟨low + 1, rfl, hlt⟩
  · exact ⟨low + 1, rfl, hlt⟩
  · exact ⟨low, rfl, fun k hk => (hlt k hk).le⟩

structure Stops (x : Floating f) (num den : ℕ) (first g : ℤ) : Prop where
  le_first : g ≤ first
  reads : (taken x num den g).toFloating false = x
  none_before : ∀ g', g < g' → g' ≤ first → (taken x num den g').toFloating false ≠ x

lemma stops_at_once {first : ℤ} (h : (taken x num den first).toFloating false = x) : Stops x num den first first :=
  ⟨le_rfl, h, fun _ hlt hle => absurd hle (not_le.mpr hlt)⟩

lemma search_stops (fuel : ℕ) (first : ℤ) (hlast : (neighbours num den (first - fuel)).1.toFloating false = x) :
    ∃ g, Stops x num den first g ∧ (search x num den fuel first = (taken x num den g).carried ∨
      search x num den fuel first = taken x num den g ∧ taken x num den g = (neighbours num den (first - fuel)).1) := by
  induction fuel generalizing first with
  | zero =>
    rw [Nat.cast_zero, sub_zero] at hlast ⊢
    have htaken : taken x num den first = (neighbours num den first).1 := if_pos hlast
    exact ⟨first, stops_at_once (htaken ▸ hlast), .inr ⟨htaken.symm, htaken⟩⟩
  | succ fuel ih =>
    by_cases hnear : (neighbours num den first).1.toFloating false = x
    · have htaken : taken x num den first = (neighbours num den first).1 := if_pos hnear
      refine ⟨first, stops_at_once (htaken ▸ hnear), .inl ?_⟩
      simp only [search, hnear, if_true, htaken]
    · have htaken : taken x num den first = (neighbours num den first).2 := if_neg hnear
      by_cases hfar : (neighbours num den first).2.toFloating false = x
      · refine ⟨first, stops_at_once (htaken ▸ hfar), .inl ?_⟩
        simp only [search, hnear, hfar, if_false, if_true, htaken]
      · have hfuel : first - 1 - fuel = first - (fuel + 1 : ℕ) := by
          push_cast
          ring
        obtain ⟨g, hstops, hsearch⟩ := ih (first - 1) (hfuel ▸ hlast)
        refine ⟨g, ⟨by have := hstops.le_first; omega, hstops.reads, fun g' hlt hle => ?_⟩, ?_⟩
        · rcases hle.lt_or_eq with hbelow | rfl
          · exact hstops.none_before g' hlt (by omega)
          · rwa [htaken]
        · simpa only [search, hnear, hfar, if_false, ← hfuel] using hsearch

lemma length_carried_le {k : ℕ} (hd : d.digits < 10 ^ (k + 1) ∨ d.digits = 10) :
    length d.carried.digits ≤ k + 1 := by
  unfold carried
  split_ifs with hten
  · exact length_le_iff.mpr (Nat.one_lt_pow (Nat.succ_ne_zero k) (by norm_num))
  · exact length_le_iff.mpr (hd.resolve_right hten)

/-! What reads back as a positive number. -/

structure Positive (f : Format) (m : ℕ) (e : ℤ) (num den : ℕ) : Prop where
  precision : 2 ≤ f.precision
  exponents : f.minExponent ≤ f.maxExponent
  ne_zero : m ≠ 0
  canonical : Canonical (.finite (f := f) false m e)
  den_pos : 0 < den
  quotient_eq : quotient num den = m * 2 ^ e

namespace Positive

variable (h : Positive f m e num den)

include h

lemma digits_pos (hread : d.toFloating false = Floating.finite (f := f) false m e) : 0 < d.digits := by
  rw [Nat.pos_iff_ne_zero]
  intro hz
  rw [toFloating, hz, Nat.zero_mul, Floating.round, if_pos rfl, Floating.zero, Floating.finite.injEq] at hread
  exact h.ne_zero hread.2.1.symm

lemma between (hread : d'.toFloating false = Floating.finite (f := f) false m e)
    (hbetween : (quotient num den ≤ d.toRat ∧ d.toRat ≤ d'.toRat) ∨ (d'.toRat ≤ d.toRat ∧ d.toRat ≤ quotient num den)) :
    d.toFloating false = Floating.finite (f := f) false m e := by
  rw [h.quotient_eq] at hbetween
  exact toFloating_between h.precision h.exponents h.ne_zero h.canonical hread hbetween

lemma exists_neighbour (hread : d.toFloating false = Floating.finite (f := f) false m e) (hg : g ≤ d.exponent) :
    ∃ c : Decimal, (c = (neighbours num den g).1 ∨ c = (neighbours num den g).2) ∧
      c.toFloating false = Floating.finite (f := f) false m e ∧
        |c.toRat - quotient num den| ≤ |d.toRat - quotient num den| := by
  obtain ⟨low, hlow, hhigh, hpoints, -⟩ := neighbours_beside num h.den_pos g
  obtain ⟨j, hj⟩ := exists_on_grid d hg
  rcases Nat.lt_or_ge low j with hlt | hle
  · have hbeyond : (⟨low + 1, g⟩ : Decimal).toRat ≤ d.toRat := hj ▸ toRat_mono hlt
    refine ⟨⟨low + 1, g⟩, ?_, h.between hread (.inl ⟨hhigh.le, hbeyond⟩), ?_⟩
    · rcases hpoints with ⟨-, hfar⟩ | ⟨hnear, -⟩
      · exact .inr hfar.symm
      · exact .inl hnear.symm
    · rw [abs_of_nonneg (by linarith), abs_of_nonneg (by linarith)]
      linarith
  · have hbeyond : d.toRat ≤ (⟨low, g⟩ : Decimal).toRat := hj ▸ toRat_mono hle
    refine ⟨⟨low, g⟩, ?_, h.between hread (.inr ⟨hbeyond, hlow⟩), ?_⟩
    · rcases hpoints with ⟨hnear, -⟩ | ⟨-, hfar⟩
      · exact .inl hnear.symm
      · exact .inr hfar.symm
    · rw [abs_of_nonpos (by linarith), abs_of_nonpos (by linarith)]
      linarith

lemma taken_best (hread : d.toFloating false = Floating.finite (f := f) false m e) (hg : g ≤ d.exponent) :
    (taken (.finite (f := f) false m e) num den g).toFloating false = Floating.finite (f := f) false m e ∧
      |(taken (.finite (f := f) false m e) num den g).toRat - quotient num den| ≤ |d.toRat - quotient num den| := by
  obtain ⟨c, hneighbour, hreads, hdistance⟩ := h.exists_neighbour hread hg
  obtain ⟨_, -, -, -, hnearer⟩ := neighbours_beside num h.den_pos g
  unfold taken
  split_ifs with hnear
  · refine ⟨hnear, ?_⟩
    rcases hneighbour with rfl | rfl
    · exact hdistance
    · exact hnearer.trans hdistance
  · rcases hneighbour with rfl | rfl
    · exact absurd hreads hnear
    · exact ⟨hreads, hdistance⟩

variable {first : ℤ} (hlow : (10 : ℚ) ^ first ≤ quotient num den)

include hlow

lemma power_reads (hread : d.toFloating false = Floating.finite (f := f) false m e) (hsmall : d.toRat < 10 ^ first) :
    (⟨1, first⟩ : Decimal).toFloating false = Floating.finite (f := f) false m e :=
  h.between hread (.inr (by rw [toRat_one]; exact ⟨hsmall.le, hlow⟩))

lemma coarse (hstops : Stops (.finite (f := f) false m e) num den first g) (hlt : g < first)
    (hread : d.toFloating false = Floating.finite (f := f) false m e) :
    d.exponent ≤ g ∧ (10 : ℚ) ^ first ≤ d.toRat := by
  -- behind the first grid the search goes on only if what reads back needs more digits
  constructor
  · by_contra hcoarse
    exact hstops.none_before _ (lt_min (not_le.mp hcoarse) hlt) (min_le_right _ _)
      (h.taken_best hread (min_le_left d.exponent first)).1
  · by_contra hsmall
    have hpower := h.power_reads hlow hread (not_le.mp hsmall)
    exact hstops.none_before _ hlt le_rfl (h.taken_best hpower le_rfl).1

lemma lt_length (hstops : Stops (.finite (f := f) false m e) num den first g)
    (hread : d.toFloating false = Floating.finite (f := f) false m e) : first - g < length d.digits := by
  rcases hstops.le_first.lt_or_eq with hlt | rfl
  · obtain ⟨hexponent, hleast⟩ := h.coarse hlow hstops hlt hread
    have hbound := hleast.trans_lt (toRat_lt_iff.mpr (length_le_iff.mp le_rfl))
    rw [zpow_lt_zpow_iff_right₀ (by norm_num)] at hbound
    omega
  · have := length_pos (h.digits_pos hread)
    omega

lemma taken_nearest (hstops : Stops (.finite (f := f) false m e) num den first g)
    (hread : d.toFloating false = Floating.finite (f := f) false m e) (hlength : length d.digits ≤ first - g + 1) :
    |(taken (.finite (f := f) false m e) num den g).toRat - quotient num den| ≤ |d.toRat - quotient num den| := by
  rcases le_or_gt g d.exponent with hle | hfiner
  · exact (h.taken_best hread hle).2
  · have hsmall : d.toRat < 10 ^ first :=
      (toRat_lt_iff.mpr (length_le_iff.mp le_rfl)).trans_le (zpow_le_zpow_right₀ (by norm_num) (by omega))
    obtain rfl : g = first := by
      by_contra hne
      exact absurd (h.coarse hlow hstops (lt_of_le_of_ne hstops.le_first hne) hread).2 (not_le.mpr hsmall)
    refine (h.taken_best (h.power_reads hlow hread hsmall) le_rfl).2.trans ?_
    rw [toRat_one, abs_of_nonpos (by linarith), abs_of_nonpos (by linarith)]
    linarith

lemma taken_digits (hhigh : quotient num den < 10 ^ (first + 1))
    (hstops : Stops (.finite (f := f) false m e) num den first g) {k : ℕ} (hk : first - g = k) :
    (taken (.finite (f := f) false m e) num den g).digits < 10 ^ (k + 1) ∨
      (taken (.finite (f := f) false m e) num den g).digits = 10 := by
  -- the power of ten above the number stands on the first grid, so that the search takes it there or never
  obtain ⟨j, hj, hleast⟩ := exists_taken (.finite (f := f) false m e) num h.den_pos g
  have hreads := hstops.reads
  have htop : (⟨10 ^ (k + 1), g⟩ : Decimal).toRat = 10 ^ (first + 1) := by
    rw [toRat_power]
    congr 1
    push_cast
    omega
  rw [hj] at hreads ⊢
  rcases (hleast _ (htop ▸ hhigh)).lt_or_eq with hlt | rfl
  · exact .inl hlt
  · right
    rcases Nat.eq_zero_or_pos k with rfl | hpos
    · rfl
    · have hread : (⟨1, first + 1⟩ : Decimal).toFloating false = Floating.finite (f := f) false m e := by
        rw [← hreads]
        exact toFloating_congr (by rw [htop, toRat_one]) false
      have hcoarse : first + 1 ≤ g := (h.coarse hlow hstops (by omega) hread).1
      omega

lemma search_isShortest (hhigh : quotient num den < 10 ^ (first + 1)) {fuel : ℕ}
    (hlast : (neighbours num den (first - fuel)).1.toRat = quotient num den) :
    IsShortest (search (.finite (f := f) false m e) num den fuel first) (.finite (f := f) false m e) := by
  -- on the last grid the search takes the number itself, if not one that reads back as it before
  have hexact := toFloating_exact h.ne_zero h.canonical (hlast.trans h.quotient_eq)
  obtain ⟨g, hstops, hsearch⟩ := search_stops fuel first hexact
  obtain ⟨k, hk⟩ := Int.eq_ofNat_of_zero_le (sub_nonneg.mpr hstops.le_first)
  have hreading := search_toFloating fuel first hexact
  have hvalue : (Floating.finite (f := f) false m e).toRat = quotient num den := by
    rw [h.quotient_eq]
    simp [Floating.toRat]
  set r := search (.finite (f := f) false m e) num den fuel first
  have hr : r.toRat = (taken (.finite (f := f) false m e) num den g).toRat := by
    rcases hsearch with hr | ⟨hr, -⟩
    · rw [hr, toRat_carried]
    · rw [hr]
  have hlength : length r.digits ≤ k + 1 := by
    rcases hsearch with hr | ⟨hr, hself⟩
    · rw [hr]
      exact length_carried_le (h.taken_digits hlow hhigh hstops hk)
    -- The number itself is below the next power of ten.
    · obtain ⟨j, hj, -⟩ := exists_taken (.finite (f := f) false m e) num h.den_pos g
      have hbelow : (⟨j, g⟩ : Decimal).toRat < 10 ^ (((k + 1 : ℕ) : ℤ) + g) := by
        rw [← hj, hself, hlast, show ((k + 1 : ℕ) : ℤ) + g = first + 1 by push_cast; omega]
        exact hhigh
      rw [hr, hj]
      exact length_le_iff.mpr (toRat_lt_iff.mp hbelow)
  refine ⟨hreading, fun d hread => ?_, fun d hread hsame => ?_⟩
  · have := h.lt_length hlow hstops hread
    omega
  · rw [hvalue, hr]
    exact h.taken_nearest hlow hstops hread (by omega)

end Positive

/-! The decimal that a number is printed as. -/

lemma positive_scaled (hp : 2 ≤ f.precision) (he : f.minExponent ≤ f.maxExponent) (hm : m ≠ 0)
    (hc : Canonical (.finite (f := f) false m e)) :
    Positive f m e (Floating.scaled m 1 e).1 (Floating.scaled m 1 e).2 :=
  ⟨hp, he, hm, hc, Floating.scaled_den_pos m Nat.one_pos e, Floating.quotient_scaled_one m e⟩

theorem shortest_isShortest (hp : 2 ≤ f.precision) (he : f.minExponent ≤ f.maxExponent)
    (hc : Canonical (.finite (f := f) false m e)) :
    IsShortest (shortest f m e) (Floating.finite (f := f) false m e) := by
  by_cases hm : m = 0
  · refine ⟨shortest_toFloating hc, fun d _ => ?_, fun d _ _ => ?_⟩
    · simp [shortest, hm, length]
    · simp [shortest, hm, toRat_mk, Floating.toRat]
  · have h := positive_scaled hp he hm hc
    have hnum : 0 < (Floating.scaled m 1 e).1 := by
      simp only [Floating.scaled]
      positivity
    obtain ⟨hlow, hhigh⟩ := pointPosition_spec hnum h.den_pos
    rw [← sub_add_cancel (pointPosition _ _) 1] at hhigh
    simp only [shortest, if_neg hm]
    apply h.search_isShortest hlow hhigh
    rw [h.quotient_eq]
    exact neighbours_toRat m (by omega)

end Decimal

end Keel
