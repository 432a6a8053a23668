import Keel.Proofs.Floating.Integers
import Keel.Syntax.Precedence

namespace Keel

namespace Floating

variable {f : Format} {x y : Floating f}

def NotNegative (x : Floating f) : Prop := x.lt (zero false) = false

lemma notNegative_iff (hx : x.isFinite) : x.NotNegative ↔ 0 ≤ x.toRat := by
  have hzero : toRat (zero (f := f) false) = 0 := by simp [zero, toRat]
  rw [NotNegative, Bool.eq_false_iff, Ne, lt_iff hx rfl, hzero, not_lt]

lemma ne_nan_of_finite (hx : x.isFinite) : x ≠ .nan := by
  rintro rfl
  cases hx

lemma round_ne_nan (negative : Bool) (num den : ℕ) : round (f := f) negative num den ≠ .nan := by
  simp only [round, pack, zero]
  split_ifs <;> simp

lemma add_ne_nan (hx : x.isFinite) (hy : y.isFinite) : x.add y ≠ .nan := by
  cases x with
  | finite s m e =>
    cases y with
    | finite t n d =>
      simp only [Floating.add]
      split_ifs
      · simp [zero]
      · exact round_ne_nan _ _ _
    | _ => cases hy
  | _ => cases hx

lemma not_le_zero (h : x.isPositive = true) : x.le (zero false) = false := by
  cases x with
  | nan => rfl
  | infinite s =>
    cases s with
    | false => rfl
    | true => cases h
  | finite s m e =>
    rw [isPositive, lt_iff rfl rfl] at h
    rw [Bool.eq_false_iff, Ne, le_iff rfl rfl]
    exact not_le.mpr h

lemma isPositive_or_nan (h : x.le (zero false) = false) : x.isPositive = true ∨ x = .nan := by
  cases x with
  | nan => exact .inr rfl
  | infinite s =>
    cases s with
    | false => exact .inl rfl
    | true => cases h
  | finite s m e =>
    rw [Bool.eq_false_iff, Ne, le_iff rfl rfl, not_le] at h
    exact .inl ((lt_iff rfl rfl).mpr h)

lemma notNegative_nan : (nan : Floating f).NotNegative := rfl

lemma notNegative_infinite {negative : Bool} : (infinite (f := f) negative).NotNegative ↔ negative = false := by
  cases negative <;> simp [NotNegative, lt, order?, zero]

lemma notNegative_zero (negative : Bool) : (zero (f := f) negative).NotNegative :=
  (notNegative_iff rfl).mpr (by simp [zero, toRat])

lemma notNegative_finite (m : ℕ) (e : ℤ) : (finite (f := f) false m e).NotNegative :=
  (notNegative_iff rfl).mpr (by simp only [toRat, Bool.false_eq_true, if_false]; positivity)

lemma notNegative_pack (m : ℕ) (e : ℤ) : (pack (f := f) false m e).NotNegative := by
  unfold pack
  split_ifs
  · exact notNegative_infinite.mpr rfl
  · exact notNegative_finite m e

lemma notNegative_round (num den : ℕ) : (round (f := f) false num den).NotNegative := by
  simp only [round]
  split_ifs
  · exact notNegative_zero _
  · exact notNegative_pack _ _
  · exact notNegative_pack _ _

lemma NotNegative.add (hx : x.NotNegative) (hy : y.NotNegative) : (x.add y).NotNegative := by
  cases x with
  | nan => exact notNegative_nan
  | infinite s =>
    obtain rfl := notNegative_infinite.mp hx
    cases y with
    | nan => exact notNegative_nan
    | infinite t =>
      obtain rfl := notNegative_infinite.mp hy
      exact hx
    | finite => exact hx
  | finite s m e =>
    cases y with
    | nan => exact notNegative_nan
    | infinite t => exact hy
    | finite t n d =>
      have hp : (0 : ℚ) < 2 ^ min e d := by positivity
      rw [notNegative_iff rfl, ← aligned_toRat _ _ (min_le_left e d), mul_nonneg_iff_of_pos_right hp] at hx
      rw [notNegative_iff rfl, ← aligned_toRat _ _ (min_le_right e d), mul_nonneg_iff_of_pos_right hp] at hy
      have hsum : 0 ≤ aligned s m e (min e d) + aligned t n d (min e d) := by exact_mod_cast add_nonneg hx hy
      simp only [Floating.add]
      split_ifs
      · exact notNegative_zero _
      · rw [decide_eq_false (not_lt.mpr hsum)]
        exact notNegative_round _ _

lemma not_lt_infinite (x : Floating f) : x.lt (.infinite true) = false := by
  cases x with
  | infinite s => cases s <;> rfl
  | _ => rfl

lemma NotNegative.of_lt (hx : x.NotNegative) (h : x.lt y = true) : y.NotNegative := by
  cases y with
  | nan => exact notNegative_nan
  | infinite t =>
    cases t with
    | false => exact notNegative_infinite.mpr rfl
    | true =>
      rw [not_lt_infinite x] at h
      cases h
  | finite t n d =>
    cases x with
    | nan => cases h
    | infinite s =>
      obtain rfl := notNegative_infinite.mp hx
      cases h
    | finite s m e =>
      rw [lt_iff rfl rfl] at h
      exact (notNegative_iff rfl).mpr (((notNegative_iff rfl).mp hx).trans h.le)

lemma NotNegative.not_lt_minusOne {x : Double} (hx : x.NotNegative) : x.lt (.ofInt (-1)) = false := by
  by_contra h
  have hone : (ofInt (-1) : Double).lt (zero false) = true := by decide +kernel
  have hone' : (ofInt (-1) : Double).lt (zero false) = false := hx.of_lt (Bool.not_eq_false _ ▸ h)
  rw [hone] at hone'
  cases hone'

lemma NotNegative.minusOne_lt {x : Double} (hx : x.NotNegative) (hnan : x ≠ nan) :
    (ofInt (-1) : Double).lt x = true := by
  cases x with
  | nan => exact absurd rfl hnan
  | infinite s =>
    obtain rfl := notNegative_infinite.mp hx
    rfl
  | finite s m e =>
    have hexact : ExactInt (-1) := by simp [ExactInt]
    rw [notNegative_iff rfl] at hx
    rw [lt_iff (ofInt_finite hexact) rfl, toRat_ofInt hexact]
    exact lt_of_lt_of_le (by norm_num) hx

end Floating

namespace Precedences

open Floating

variable {table : Precedences} {lexeme : String} {least own : Double}

lemma power_of_binding? {power : Double} (h : table.binding? lexeme = some power) : table.power lexeme = power := by
  rw [Precedences.power, h, Option.getD_some]

lemma power_of_none (h : table.binding? lexeme = none) : table.power lexeme = .ofInt (-1) := by
  rw [Precedences.power, h, Option.getD_none]

lemma notNegative_binding? (h : table.binding? lexeme = some own) : own.NotNegative := by
  have hle : own.le (.zero false) = false := by simpa using (Option.filter_eq_some_iff.mp h).2
  exact (Bool.or_eq_false_iff.mp hle).1

lemma notNegative_above (h : own.NotNegative) : (above own).NotNegative := h.add (notNegative_round _ _)

lemma notNegative_greater {x y : Double} (hx : x.NotNegative) : (greater x y).NotNegative := by
  unfold greater
  split_ifs with h
  · obtain rfl | hlt := h
    · exact notNegative_nan
    · exact hx.of_lt hlt
  · exact hx

lemma notNegative_ceiling : table.ceiling.NotNegative :=
  List.foldlRecOn _ _ (notNegative_zero false) fun _ hx _ _ => notNegative_greater hx

lemma power_lt_of_none (h : table.binding? lexeme = none) (hleast : least.NotNegative) (hnan : least ≠ .nan) :
    (table.power lexeme).lt least = true :=
  power_of_none h ▸ hleast.minusOne_lt hnan

lemma binding?_of_lt_power (hown : own.NotNegative) (h : own.lt (table.power lexeme) = true) :
    ∃ other, table.binding? lexeme = some other ∧ own.lt other = true := by
  cases hother : table.binding? lexeme with
  | none =>
    rw [power_of_none hother, hown.not_lt_minusOne] at h
    cases h
  | some other => exact ⟨other, rfl, power_of_binding? hother ▸ h⟩

end Precedences

end Keel
