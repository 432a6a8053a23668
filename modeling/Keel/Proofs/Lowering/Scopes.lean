import Keel.Lowering.Scope
import Mathlib.Data.List.Nodup
import Mathlib.Data.List.Range
import Mathlib.Tactic.Common

namespace Keel.Lowering

open Wasm (ResultType)

def numbered (start : Nat) (ds : List (String × ValueType)) : List (String × Local) :=
  ((ds.zipIdx start).map fun (d, i) => (d.1, ⟨i, d.2⟩)).reverse

section Numbered

variable {start : Nat} {ds : List (String × ValueType)}

lemma numbered_cons {d : String × ValueType} :
    numbered start (d :: ds) = numbered (start + 1) ds ++ [(d.1, ⟨start, d.2⟩)] := by
  simp [numbered, List.zipIdx_cons]

lemma numbered_indices : (numbered start ds).map (fun b => b.2.index) = (List.range' start ds.length).reverse := by
  rw [← List.zipIdx_map_snd start ds]
  simp [numbered, Function.comp_def]

lemma numbered_bindings : (numbered start ds).map (fun b => (b.1, b.2.type)) = ds.reverse := by
  simp [numbered, Function.comp_def]

lemma mem_numbered {b : String × Local} (h : b ∈ numbered start ds) :
    start ≤ b.2.index ∧ ds[b.2.index - start]? = some (b.1, b.2.type) := by
  simp only [numbered, List.mem_reverse, List.mem_map, Prod.exists] at h
  obtain ⟨name, type, i, hi, rfl⟩ := h
  rw [List.mem_zipIdx_iff_le_and_getElem?_sub] at hi
  exact hi

end Numbered

namespace Scope

lemma parameterLocals_eq (ps : List Parameter) :
    ∀ start, parameterLocals start ps = numbered start (ps.map fun p => (p.name, p.type)) := by
  induction ps with
  | nil =>
    intro start
    rfl
  | cons p ps ih =>
    intro start
    rw [parameterLocals, List.map_cons, numbered_cons, ih]

def declareAll (s : Scope) (ds : List (String × ValueType)) : Scope :=
  ds.foldl (fun s d => (s.declare d.1 d.2).2) s

variable {s t u : Scope} {ds es : List (String × ValueType)}

lemma declareAll_append : s.declareAll (ds ++ es) = (s.declareAll ds).declareAll es := by
  simp [declareAll]

lemma declareAll_vars : (s.declareAll ds).vars = s.vars ++ ds.map fun d => d.2.numType? := by
  induction ds generalizing s with
  | nil => simp [declareAll]
  | cons d ds ih =>
    change ((s.declare d.1 d.2).2.declareAll ds).vars = _
    rw [ih]
    simp [declare, addSlot]

lemma declareAll_locals :
    (s.declareAll ds).locals = numbered (s.paramCount + s.vars.length) ds ++ s.locals := by
  induction ds generalizing s with
  | nil => rfl
  | cons d ds ih =>
    change ((s.declare d.1 d.2).2.declareAll ds).locals = _
    rw [ih, numbered_cons]
    simp [declare, addSlot, Nat.add_assoc]

lemma declareAll_signature : (s.declareAll ds).paramCount = s.paramCount ∧
    (s.declareAll ds).result = s.result ∧ (s.declareAll ds).returnSlot = s.returnSlot := by
  induction ds generalizing s with
  | nil => exact ⟨rfl, rfl, rfl⟩
  | cons d ds ih => exact ih (s := (s.declare d.1 d.2).2)

structure Within (s t : Scope) : Prop where
  locals : s.locals <:+ t.locals
  vars : s.vars <+: t.vars
  paramCount : s.paramCount = t.paramCount
  result : s.result = t.result
  returnSlot : s.returnSlot = t.returnSlot

lemma Within.refl (s : Scope) : s.Within s := ⟨List.suffix_refl _, List.prefix_refl _, rfl, rfl, rfl⟩

lemma Within.trans (h : s.Within t) (h' : t.Within u) : s.Within u :=
  ⟨h.locals.trans h'.locals, h.vars.trans h'.vars, h.paramCount.trans h'.paramCount,
    h.result.trans h'.result, h.returnSlot.trans h'.returnSlot⟩

lemma within_declareAll (s : Scope) (ds : List (String × ValueType)) : s.Within (s.declareAll ds) where
  locals := by
    rw [declareAll_locals]
    exact List.suffix_append _ _
  vars := by
    rw [declareAll_vars]
    exact List.prefix_append _ _
  paramCount := declareAll_signature.1.symm
  result := declareAll_signature.2.1.symm
  returnSlot := declareAll_signature.2.2.symm

lemma within_declare (s : Scope) (name : String) (type : ValueType) : s.Within (s.declare name type).2 :=
  within_declareAll s [(name, type)]

lemma Within.lookup {name : String} {v : Local} (h : s.Within t) (hv : s.locals.lookup name = some v) :
    (name, v) ∈ t.locals := by
  refine h.locals.subset ?_
  obtain ⟨l₁, l₂, hl, -⟩ := List.lookup_eq_some_iff.mp hv
  simp [hl]

lemma Within.declared {name : String} {type : ValueType} (h : (s.declare name type).2.Within t) :
    (name, ⟨(s.declare name type).1, type⟩) ∈ t.locals :=
  h.locals.subset (List.mem_cons_self ..)

structure Typed (s : Scope) (params : List ResultType) : Prop where
  count : s.paramCount = params.length
  named : ∀ b ∈ s.locals, (params ++ s.vars)[b.2.index]? = some b.2.type.numType?
  slot : ∀ i, s.returnSlot = some i → (params ++ s.vars)[i]? = some s.result.numType?

lemma Typed.declareAll {params : List ResultType} (h : s.Typed params) : (s.declareAll ds).Typed params where
  count := by rw [declareAll_signature.1, h.count]
  named := by
    intro b hb
    rw [declareAll_locals, List.mem_append] at hb
    rw [declareAll_vars, ← List.append_assoc]
    cases hb with
    | inl hb =>
      obtain ⟨hle, hd⟩ := mem_numbered hb
      rw [h.count, ← List.length_append] at hle hd
      rw [List.getElem?_append_right hle, List.getElem?_map, hd]
      rfl
    | inr hb =>
      have hi := h.named b hb
      rw [List.getElem?_append_left (List.getElem?_eq_some_iff.mp hi).1, hi]
  slot := by
    intro i hi
    rw [declareAll_signature.2.2] at hi
    rw [declareAll_signature.2.1, declareAll_vars, ← List.append_assoc]
    have hs := h.slot i hi
    rw [List.getElem?_append_left (List.getElem?_eq_some_iff.mp hs).1, hs]

variable (ps : List Parameter) (result : ValueType)

lemma ofSignature_locals : (ofSignature ps result).locals = numbered 0 (ps.map fun p => (p.name, p.type)) := by
  unfold ofSignature
  rw [parameterLocals_eq]
  split_ifs <;> rfl

lemma ofSignature_vars :
    (ofSignature ps result).vars = if result = .void then [] else [result.numType?] := by
  unfold ofSignature
  split_ifs <;> rfl

lemma ofSignature_slot :
    (ofSignature ps result).returnSlot = if result = .void then none else some ps.length := by
  unfold ofSignature
  split_ifs <;> rfl

lemma ofSignature_count : (ofSignature ps result).paramCount = ps.length := by
  unfold ofSignature
  split_ifs <;> rfl

lemma ofSignature_result : (ofSignature ps result).result = result := by
  unfold ofSignature
  split_ifs <;> rfl

lemma typed_ofSignature : (ofSignature ps result).Typed (ps.map fun p => p.type.numType?) where
  count := by rw [ofSignature_count, List.length_map]
  named := by
    intro b hb
    rw [ofSignature_locals] at hb
    obtain ⟨-, hd⟩ := mem_numbered hb
    rw [Nat.sub_zero, List.getElem?_map, Option.map_eq_some_iff] at hd
    obtain ⟨p, hp, hb⟩ := hd
    have hlt : b.2.index < (ps.map fun p => p.type.numType?).length := by
      rw [List.length_map]
      exact (List.getElem?_eq_some_iff.mp hp).1
    have ht : p.type = b.2.type := congrArg Prod.snd hb
    rw [List.getElem?_append_left hlt, List.getElem?_map, hp, ← ht]
    rfl
  slot := by
    intro i hi
    rw [ofSignature_slot] at hi
    split_ifs at hi with hr
    cases hi
    rw [ofSignature_vars, ofSignature_result, if_neg hr, List.getElem?_append_right (by simp)]
    simp

lemma indices_nodup :
    (((ofSignature ps result).declareAll ds).locals.map (fun b => b.2.index) ++
      ((ofSignature ps result).declareAll ds).returnSlot.toList).Nodup := by
  rw [declareAll_locals, declareAll_signature.2.2, ofSignature_locals, ofSignature_slot, ofSignature_count,
    ofSignature_vars, List.map_append, numbered_indices, numbered_indices, List.length_map]
  by_cases hr : result = .void
  · simp only [if_pos hr, List.length_nil, Option.toList_none, List.append_nil, List.nodup_append,
      List.nodup_reverse]
    refine ⟨List.nodup_range', List.nodup_range', ?_⟩
    simp only [List.mem_reverse, List.mem_range'_1]
    omega
  · simp only [if_neg hr, Option.toList_some, List.nodup_append, List.nodup_reverse, List.mem_append,
      List.mem_reverse, List.mem_range'_1, List.mem_singleton, List.length_singleton]
    refine ⟨⟨List.nodup_range', List.nodup_range', ?_⟩, List.nodup_singleton _, ?_⟩ <;> omega

end Scope

end Keel.Lowering
