import Keel.Position
import Mathlib.Data.List.Induction
import Mathlib.Tactic.Lemma
import Mathlib.Tactic.SplitIfs

namespace Keel

namespace Text

def unitsOf (c : Char) : List ℕ :=
  if c.toNat < 0x10000 then [c.toNat] else [firstUnit c, 0xDC00 + (c.toNat - 0x10000) % 0x400]

def units (cs : List Char) : List ℕ := cs.flatMap unitsOf

def newline : ℕ := '\n'.toNat

lemma length_unitsOf (c : Char) : (unitsOf c).length = width c := by
  unfold unitsOf width
  split_ifs <;> rfl

@[simp] lemma units_nil : units [] = [] := rfl

@[simp] lemma units_append (as bs : List Char) : units (as ++ bs) = units as ++ units bs := List.flatMap_append

lemma length_units_le (as bs : List Char) : (units as).length ≤ (units (as ++ bs)).length := by
  rw [units_append, List.length_append]
  exact Nat.le_add_right _ _

lemma units_singleton (c : Char) : units [c] = unitsOf c := List.flatMap_singleton unitsOf c

lemma newline_mem_unitsOf {c : Char} : newline ∈ unitsOf c ↔ c = '\n' := by
  have heq : c = '\n' ↔ c.toNat = 10 := Char.toNat_inj.symm
  have hnewline : newline = 10 := rfl
  rw [heq, hnewline, unitsOf, firstUnit]
  split_ifs with hc
  · simp [eq_comm]
  -- Neither half of a pair is a newline.
  · simp only [List.mem_cons, List.not_mem_nil, or_false]
    omega

lemma newline_mem_units {cs : List Char} : newline ∈ units cs ↔ '\n' ∈ cs := by
  simp [units, List.mem_flatMap, newline_mem_unitsOf]

end Text

namespace Position

open Text

/-- The place of a unit of a text: its line is one more than the newlines in front of it, its column one
more than the units behind the last of them. -/
structure In (us : List ℕ) (p : Position) : Prop where
  offset_le : p.offset ≤ us.length
  line_eq : p.line = 1 + (us.take p.offset).count newline
  column_eq : p.column = 1 + ((us.take p.offset).reverse.takeWhile (· ≠ newline)).length

def behind (cs : List Char) : Position := start.advanceAll cs

lemma behind_concat (cs : List Char) (c : Char) : behind (cs ++ [c]) = (behind cs).advance c := by
  rw [behind, advanceAll, List.foldl_append]
  rfl

lemma behind_append (as bs : List Char) : behind (as ++ bs) = (behind as).advanceAll bs := List.foldl_append

@[simp] lemma offset_behind (cs : List Char) : (behind cs).offset = (units cs).length := by
  induction cs using List.reverseRecOn with
  | nil => rfl
  | append_singleton cs c ih =>
    rw [behind_concat, units_append, units_singleton, List.length_append, length_unitsOf, ← ih, advance]
    split_ifs with hc
    · subst hc
      rfl
    · rfl

lemma line_behind (cs : List Char) : (behind cs).line = 1 + (units cs).count newline := by
  induction cs using List.reverseRecOn with
  | nil => rfl
  | append_singleton cs c ih =>
    rw [behind_concat, units_append, units_singleton, List.count_append, advance]
    split_ifs with hc
    · subst hc
      rw [ih, Nat.add_assoc]
      rfl
    · rw [List.count_eq_zero_of_not_mem (fun hmem => hc (newline_mem_unitsOf.mp hmem)), ih]
      rfl

lemma column_behind (cs : List Char) :
    (behind cs).column = 1 + ((units cs).reverse.takeWhile (· ≠ newline)).length := by
  induction cs using List.reverseRecOn with
  | nil => rfl
  | append_singleton cs c ih =>
    rw [behind_concat, units_append, units_singleton, List.reverse_append, advance]
    split_ifs with hc
    · subst hc
      rfl
    · have hunits : ∀ u ∈ (unitsOf c).reverse, decide (u ≠ newline) = true := by
        intro u hu
        rw [List.mem_reverse] at hu
        exact decide_eq_true fun heq => hc (newline_mem_unitsOf.mp (heq ▸ hu))
      rw [List.takeWhile_append_of_pos hunits, List.length_append, List.length_reverse, length_unitsOf]
      show (behind cs).column + width c = _
      rw [ih]
      omega

lemma behind_in (before after : List Char) : (behind before).In (units (before ++ after)) := by
  have htake : (units (before ++ after)).take (behind before).offset = units before := by
    rw [offset_behind, units_append, List.take_left]
  constructor
  · rw [offset_behind]
    exact length_units_le before after
  · rw [htake, line_behind]
  · rw [htake, column_behind]

end Position

end Keel
