import Keel.Proofs.Floating.Nearest
import Keel.Proofs.Semantics.Integers
import Keel.Proofs.Token.Numerals

namespace Keel

namespace Floating

variable {f : Format} {n k : ℕ}

lemma le_ofInt_double (hf : (ofInt n : Double).isFinite = true) (hk : (ofInt n : Double).toRat = k)
    (hn : 2 ^ 31 ≤ n) : 2 ^ 31 ≤ k := by
  have hpower : (Floating.finite (f := .binary64) false (2 ^ 52) (-21)).toRat = 2 ^ 31 := by norm_num [toRat]
  have hle := (ofInt_nearest hf).1.le_toRat (y := .finite false (2 ^ 52) (-21)) rfl (by decide)
    (by rw [hpower]; exact_mod_cast hn)
  rw [hpower, hk] at hle
  exact_mod_cast hle

lemma convert_ofInt (hf : (ofInt n : Double).isFinite = true) (hk : (ofInt n : Double).toRat = k) :
    (ofInt n : Double).convert = (ofInt k : Floating f) := by
  cases hx : (ofInt n : Double) with
  | finite s m e =>
    have hsign := ofInt_natural n ▸ hx
    obtain rfl := round_sign hsign
    rw [hx] at hk
    rw [convert, ofInt_natural, ofScaled_congr Nat.one_pos]
    simpa [toRat, quotient] using hk
  | infinite s =>
    rw [hx] at hf
    cases hf
  | nan =>
    rw [hx] at hf
    cases hf

lemma single_isFinite {i : ℤ} (h : i.natAbs < 2 ^ 32) : (ofInt i : Single).isFinite = true := by
  refine round_isFinite Nat.one_pos (by decide) ?_
  rw [quotient, Nat.cast_one, div_one]
  calc ((i.natAbs : ℕ) : ℚ) < 2 ^ 32 := by exact_mod_cast h
    _ ≤ 2 ^ (Format.binary32.maxExponent + Format.binary32.precision - 1) := by norm_num [Format.binary32]

lemma ofInt_nonpos {i : ℤ} (h : i < 0) : (ofInt i : Floating f).toRat ≤ 0 := by
  cases hx : (ofInt i : Floating f) with
  | finite s m e =>
    rw [ofInt, decide_eq_true h] at hx
    obtain rfl := round_sign hx
    have hnonneg : (0 : ℚ) ≤ m * 2 ^ e := by positivity
    simp only [toRat, if_true]
    linarith
  | infinite s => exact le_rfl
  | nan => exact le_rfl

lemma two_pow_le_of_bmod (hk : 2 ^ 31 ≤ k) (h : 0 ≤ (k : ℤ).bmod (2 ^ 32)) : 2 ^ 32 ≤ k := by
  by_contra hsmall
  have hmod : (k : ℤ) % (2 ^ 32 : ℕ) = k := Int.emod_eq_of_lt (by omega) (by omega)
  have hdef := Int.bmod_def (k : ℤ) (2 ^ 32)
  rw [hmod] at hdef
  split_ifs at hdef <;> omega

lemma single_lt (hk : 2 ^ 31 ≤ k) (hf : (ofInt k : Single).isFinite = true) :
    (ofInt ((k : ℤ).bmod (2 ^ 32)) : Single).toRat < (ofInt k : Single).toRat := by
  -- powers of two are numbers of the format, so that rounding does not pass them
  have hlow : (Floating.finite (f := .binary32) false (2 ^ 23) 8).toRat = 2 ^ 31 := by norm_num [toRat]
  have hhigh : (Floating.finite (f := .binary32) false (2 ^ 23) 9).toRat = 2 ^ 32 := by norm_num [toRat]
  have hnearest := round_natural_nearest (f := .binary32) k (by decide) (by decide) hf
  rcases lt_or_ge ((k : ℤ).bmod (2 ^ 32)) 0 with hneg | hpos
  · have hvalue := hnearest.le_toRat (y := .finite false (2 ^ 23) 8) rfl (by decide)
      (by rw [hlow]; exact_mod_cast hk)
    rw [hlow] at hvalue
    have hrest : (ofInt ((k : ℤ).bmod (2 ^ 32)) : Single).toRat ≤ 0 := ofInt_nonpos hneg
    linarith
  · have hvalue := hnearest.le_toRat (y := .finite false (2 ^ 23) 9) rfl (by decide)
      (by rw [hhigh]; exact_mod_cast two_pow_le_of_bmod hk hpos)
    have hlt := Int.bmod_lt (x := k) (m := 2 ^ 32) (by decide)
    obtain ⟨r, hr⟩ := Int.eq_ofNat_of_zero_le hpos
    rw [hr]
    have hrest := (round_natural_nearest (f := .binary32) r (by decide) (by decide)
      (single_isFinite (by omega))).toRat_le (y := .finite false (2 ^ 23) 8) rfl (by decide)
      (by rw [hlow]; exact_mod_cast (by omega : r ≤ 2 ^ 31))
    rw [hlow] at hrest
    rw [hhigh] at hvalue
    linarith

end Floating

open Floating

lemma ValueType.wrap_word (n : ℤ) : ValueType.i32.wrap n = n.bmod (2 ^ 32) := by
  simp only [wrap, bits, reduceCtorEq, if_false]

lemma ValueType.wrap_long (n : ℤ) : ValueType.i64.wrap n = n.bmod (2 ^ 64) := by
  simp only [wrap, bits, reduceCtorEq, if_false]

lemma ValueType.wrap_bmod {t : ValueType} (ht : t = .i8 ∨ t = .i16 ∨ t = .i32) (n : ℤ) :
    t.wrap (n.bmod (2 ^ 32)) = t.wrap n := by
  rcases ht with rfl | rfl | rfl
  · exact Int.bmod_bmod_of_dvd (Nat.pow_dvd_pow 2 (by decide : 8 ≤ 32))
  · exact Int.bmod_bmod_of_dvd (Nat.pow_dvd_pow 2 (by decide : 16 ≤ 32))
  · exact Int.bmod_bmod

namespace Semantics.Value

variable {n k : ℕ} {t : ValueType}

lemma literal_natural (hf : (ofInt n : Double).isFinite = true) (hk : (ofInt n : Double).toRat = k)
    (ht : t.isInteger = true) (hbool : t = .bool → k ≤ 1) : literal (ofInt n) t = ofInteger t (t.wrap k) := by
  have htruncate : (ofInt n : Double).truncate?.getD 0 = k := by
    rw [truncate?_of_toRat hf (by rw [hk, Int.cast_natCast]), Option.getD_some]
  rw [literal_ofInteger ht fun h => ?_, htruncate]
  have hle := hbool h
  subst h
  rw [htruncate, ValueType.Contains, if_pos rfl]
  omega

lemma convert_word (hf : (ofInt n : Double).isFinite = true) (hk : (ofInt n : Double).toRat = k)
    (ht : t.isInteger = true) :
    (literal (ofInt n) .i32).convert t = .ok (ofInteger t (t.wrap (ValueType.i32.wrap k))) := by
  rw [literal_natural (t := .i32) hf hk rfl nofun]
  exact convert_ofInteger rfl ht (ValueType.contains_wrap rfl _)

lemma convert_word_small (hf : (ofInt n : Double).isFinite = true) (ht : t = .i8 ∨ t = .i16 ∨ t = .i32) :
    (literal (ofInt n) .i32).convert t = .ok (literal (ofInt n) t) := by
  obtain ⟨-, k, hk⟩ := ofInt_nearest hf
  have hinteger : t.isInteger = true := by rcases ht with rfl | rfl | rfl <;> rfl
  rw [convert_word hf hk hinteger, literal_natural hf hk hinteger (by rcases ht with rfl | rfl | rfl <;> nofun)]
  rw [ValueType.wrap_word, ValueType.wrap_bmod ht]

lemma convert_word_real (hf : (ofInt n : Double).isFinite = true) (hk : (ofInt n : Double).toRat = k) :
    (literal (ofInt n) .i32).convert .float = .ok (.float (ofInt ((k : ℤ).bmod (2 ^ 32)))) ∧
      (literal (ofInt n) .i32).convert .double = .ok (.double (ofInt ((k : ℤ).bmod (2 ^ 32)))) := by
  rw [literal_natural (t := .i32) hf hk rfl nofun]
  have hword : (BitVec.ofInt 32 (ValueType.i32.wrap k)).toInt = (k : ℤ).bmod (2 ^ 32) := by
    rw [BitVec.toInt_ofInt, ValueType.wrap_word, Int.bmod_bmod]
  constructor
  · exact congrArg (fun i : ℤ => Except.ok (Value.float (ofInt i))) hword
  · exact congrArg (fun i : ℤ => Except.ok (Value.double (ofInt i))) hword

lemma convert_word_of_lt (hn : n < 2 ^ 31) (hbool : t = .bool → n ≤ 1) (ht : t ≠ .void) :
    (literal (ofInt n) .i32).convert t = .ok (literal (ofInt n) t) := by
  have hexact : ExactInt n := by
    unfold ExactInt
    omega
  have hf : (ofInt n : Double).isFinite = true := ofInt_finite hexact
  have hk : (ofInt n : Double).toRat = n := toRat_ofInt hexact
  have hword : (n : ℤ).bmod (2 ^ 32) = n := Int.bmod_eq_of_le (by omega) (by omega)
  cases t with
  | void => exact absurd rfl ht
  | float =>
    rw [(convert_word_real hf hk).1, hword, literal, convert_ofInt hf hk]
  | double => rw [(convert_word_real hf hk).2, hword, literal]
  | i32 => exact convert_word_small hf (.inr (.inr rfl))
  | _ =>
    have hwrap : ValueType.i32.wrap n = n := by rw [ValueType.wrap_word, hword]
    rw [convert_word hf hk rfl, literal_natural hf hk rfl hbool, hwrap]

lemma convert_word_long_iff (hf : (ofInt n : Double).isFinite = true) (hk : (ofInt n : Double).toRat = k) :
    (literal (ofInt n) .i32).convert .i64 = .ok (literal (ofInt n) .i64) ↔
      (k : ℤ).bmod (2 ^ 64) = (k : ℤ).bmod (2 ^ 32) := by
  have hle := Int.le_bmod (x := k) (m := 2 ^ 32) (by decide)
  have hlt := Int.bmod_lt (x := k) (m := 2 ^ 32) (by decide)
  have hshort : ((k : ℤ).bmod (2 ^ 32)).bmod (2 ^ 64) = (k : ℤ).bmod (2 ^ 32) :=
    Int.bmod_eq_of_le (by omega) (by omega)
  rw [convert_word hf hk rfl, literal_natural (t := .i64) hf hk rfl nofun, ValueType.wrap_word]
  have hbits : (Except.ok (ofInteger .i64 (ValueType.i64.wrap ((k : ℤ).bmod (2 ^ 32)))) : Except Wasm.Stop Value) =
      .ok (ofInteger .i64 (ValueType.i64.wrap k)) ↔
        BitVec.ofInt 64 (ValueType.i64.wrap ((k : ℤ).bmod (2 ^ 32))) =
          BitVec.ofInt 64 (ValueType.i64.wrap k) := by
    simp [ofInteger]
  rw [hbits, ValueType.wrap_long, ValueType.wrap_long, ofInt_eq_iff Int.bmod_bmod Int.bmod_bmod, hshort, eq_comm]

lemma convert_word_ne (hf : (ofInt n : Double).isFinite = true) (hn : 2 ^ 31 ≤ n)
    (ht : t = .i64 ∧ n < 2 ^ 63 ∨ t = .float ∨ t = .double) :
    (literal (ofInt n) .i32).convert t ≠ .ok (literal (ofInt n) t) := by
  obtain ⟨hnearest, k, hk⟩ := ofInt_nearest hf
  have hlow := le_ofInt_double hf hk hn
  have hle := Int.le_bmod (x := k) (m := 2 ^ 32) (by decide)
  have hlt := Int.bmod_lt (x := k) (m := 2 ^ 32) (by decide)
  rcases ht with ⟨rfl, hlong⟩ | rfl | rfl
  · have hhigh := hnearest.le_of_lt hk hlong
    rw [ne_eq, convert_word_long_iff hf hk]
    intro h
    have hdef := Int.bmod_def (k : ℤ) (2 ^ 64)
    rw [Int.emod_eq_of_lt (by omega) (by omega)] at hdef
    split_ifs at hdef <;> omega
  · rw [(convert_word_real hf hk).1, literal, convert_ofInt hf hk]
    intro h
    have hsame : (ofInt ((k : ℤ).bmod (2 ^ 32)) : Single) = ofInt k := by simpa using h
    have hfinite : (ofInt ((k : ℤ).bmod (2 ^ 32)) : Single).isFinite = true := single_isFinite (by omega)
    have hless := single_lt hlow (hsame ▸ hfinite)
    rw [hsame] at hless
    exact lt_irrefl _ hless
  · rw [(convert_word_real hf hk).2, literal]
    intro h
    have hsame : (ofInt ((k : ℤ).bmod (2 ^ 32)) : Double) = ofInt n := by simpa using h
    have hvalue : (ofInt ((k : ℤ).bmod (2 ^ 32)) : Double).toRat = (k : ℤ).bmod (2 ^ 32) :=
      toRat_ofInt (by unfold ExactInt; omega)
    rw [hsame, hk] at hvalue
    have hwhole : (k : ℤ) = (k : ℤ).bmod (2 ^ 32) := by exact_mod_cast hvalue
    omega

end Semantics.Value

end Keel
