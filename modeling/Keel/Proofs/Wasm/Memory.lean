import Keel.Wasm.Execution
import Mathlib.Algebra.Ring.Nat
import Mathlib.Data.List.Pairwise
import Mathlib.Order.Bounds.Basic
import Mathlib.Tactic.Common

namespace Keel.Wasm

def Contiguous : ℕ → List Segment → ℕ → Prop
  | start, [], finish => start = finish
  | start, s :: ss, finish => s.offset = start ∧ Contiguous (start + s.data.length) ss finish

def Segment.Before (s t : Segment) : Prop := s.offset + s.data.length ≤ t.offset

variable {start finish i : ℕ} {s : Segment} {ss : List Segment}

lemma Contiguous.finish_eq (h : Contiguous start ss finish) : finish = start + (ss.map (·.data.length)).sum := by
  induction ss generalizing start with
  | nil => exact h.symm
  | cons s ss ih =>
    rw [ih h.2, List.map_cons, List.sum_cons, Nat.add_assoc]

lemma Contiguous.bounds (h : Contiguous start ss finish) :
    ∀ s ∈ ss, start ≤ s.offset ∧ s.offset + s.data.length ≤ finish := by
  induction ss generalizing start with
  | nil => exact fun _ hs => nomatch hs
  | cons s ss ih =>
    have hfinish := Contiguous.finish_eq h
    obtain ⟨rfl, h⟩ := h
    rw [List.map_cons, List.sum_cons] at hfinish
    refine List.forall_mem_cons.mpr ⟨⟨le_rfl, by omega⟩, fun t ht => ?_⟩
    obtain ⟨hlow, hhigh⟩ := ih h t ht
    exact ⟨by omega, hhigh⟩

lemma Contiguous.pairwise (h : Contiguous start ss finish) : ss.Pairwise Segment.Before := by
  induction ss generalizing start with
  | nil => exact .nil
  | cons s ss ih =>
    obtain ⟨rfl, h⟩ := h
    exact .cons (fun t ht => (h.bounds t ht).1) (ih h)

lemma Contiguous.append {middle : ℕ} {ts : List Segment} (h : Contiguous start ss middle)
    (h' : Contiguous middle ts finish) : Contiguous start (ss ++ ts) finish := by
  induction ss generalizing start with
  | nil =>
    obtain rfl : start = middle := h
    exact h'
  | cons s ss ih => exact ⟨h.1, ih h.2⟩

lemma Contiguous.finish_le (h : Contiguous start ss finish) {bound : ℕ} (hstart : start ≤ bound)
    (hss : ∀ s ∈ ss, s.offset + s.data.length ≤ bound) : finish ≤ bound := by
  induction ss generalizing start with
  | nil =>
    obtain rfl : start = finish := h
    exact hstart
  | cons s ss ih =>
    obtain ⟨rfl, h⟩ := h
    obtain ⟨hs, hss⟩ := List.forall_mem_cons.mp hss
    exact ih h hs hss

lemma eq_of_overlap (h : ss.Pairwise Segment.Before) {t : Segment} (hs : s ∈ ss) (ht : t ∈ ss) {a : ℕ}
    (has : s.offset ≤ a ∧ a < s.offset + s.data.length)
    (hat : t.offset ≤ a ∧ a < t.offset + t.data.length) : s = t := by
  have hsymm : Std.Symm fun s t : Segment => s.Before t ∨ t.Before s := ⟨fun _ _ => Or.symm⟩
  have happart : ss.Pairwise fun s t => s.Before t ∨ t.Before s := h.imp Or.inl
  by_contra hne
  obtain hbefore | hbefore := happart.forall hs ht hne
  · unfold Segment.Before at hbefore
    omega
  · unfold Segment.Before at hbefore
    omega

namespace Module

variable {m : Module}

def textAt (m : Module) (address : ℕ) : List UInt8 :=
  ((List.range' address (m.pages * pageSize - address)).map m.byteAt).takeWhile (· ≠ 0)

lemma byteAt_of_mem (h : m.segments.Pairwise Segment.Before) (hs : s ∈ m.segments) (hi : i < s.data.length) :
    m.byteAt (s.offset + i) = s.data[i] := by
  have hdata : s.data[s.offset + i - s.offset]? = some s.data[i] := by
    rw [Nat.add_sub_cancel_left, List.getElem?_eq_getElem hi]
  unfold byteAt
  split
  · rename_i b hfound
    obtain ⟨t, ht, hb⟩ := List.exists_of_findSome?_eq_some hfound
    split_ifs at hb with hle
    have hlt := (List.getElem?_eq_some_iff.mp hb).1
    obtain rfl := eq_of_overlap h hs ht (a := s.offset + i) ⟨by omega, by omega⟩ ⟨hle, by omega⟩
    exact Option.some.inj (hb.symm.trans hdata)
  · rename_i hnone
    have hfree := List.findSome?_eq_none_iff.mp hnone s hs
    rw [if_pos (Nat.le_add_right _ _), hdata] at hfree
    cases hfree

lemma byteAt_of_outside {a : ℕ} (h : ∀ s ∈ m.segments, a < s.offset ∨ s.offset + s.data.length ≤ a) :
    m.byteAt a = 0 := by
  have hnone : (m.segments.findSome? fun s => if s.offset ≤ a then s.data[a - s.offset]? else none) = none := by
    apply List.findSome?_eq_none_iff.mpr
    intro s hs
    split_ifs with hle
    · apply List.getElem?_eq_none
      have hout := h s hs
      omega
    · rfl
  unfold byteAt
  rw [hnone]

lemma map_byteAt (h : m.segments.Pairwise Segment.Before) (hs : s ∈ m.segments) :
    (List.range' s.offset s.data.length).map m.byteAt = s.data := by
  apply List.ext_getElem
  · simp
  · intro i _ hi
    simp [byteAt_of_mem h hs hi]

lemma textAt_of_mem {text : List UInt8} (h : m.segments.Pairwise Segment.Before)
    (hs : ⟨start, text ++ [0]⟩ ∈ m.segments) (hfit : start + (text ++ [0]).length ≤ m.pages * pageSize)
    (htext : 0 ∉ text) : m.textAt start = text := by
  obtain ⟨k, hk⟩ := Nat.le.dest hfit
  have hsize : m.pages * pageSize - start = (text ++ [0]).length + k := by omega
  have hmap : (List.range' start (text ++ [0]).length).map m.byteAt = text ++ [0] := map_byteAt h hs
  have hall : ∀ b ∈ text, decide (b ≠ 0) = true := by
    intro b hb
    exact decide_eq_true fun hz => htext (hz ▸ hb)
  unfold textAt
  rw [hsize, ← List.range'_append, List.map_append, hmap, List.append_assoc,
    List.takeWhile_append_of_pos hall]
  simp

end Module

end Keel.Wasm
