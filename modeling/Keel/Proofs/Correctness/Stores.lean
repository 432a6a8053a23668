import Keel.Proofs.Correctness.Agreement
import Keel.Proofs.Correctness.Programs
import Keel.Proofs.Semantics.Frames

namespace Keel.Lowering

open Semantics

variable {κ : Type} [BEq κ] {last : Scope} {Owns : κ → String × Local → Prop} {stores : List (κ × Value)}
  {locals : List (Option Wasm.Value)} {v : Value} {b : String × Local} {k : κ}

def Kept (last : Scope) (Owns : κ → String × Local → Prop) (stores : List (κ × Value))
    (locals : List (Option Wasm.Value)) : Prop :=
  ∀ k, ∀ b ∈ last.locals, Owns k b → (lastStored stores k b.2.type).type = b.2.type ∧
    locals[b.2.index]? = some (lastStored stores k b.2.type).held

structure Keyed (last : Scope) (Owns : κ → String × Local → Prop) : Prop where
  left : ∀ k, ∀ b ∈ last.locals, ∀ b' ∈ last.locals, Owns k b → Owns k b' → b = b'
  right : ∀ k k', ∀ b ∈ last.locals, Owns k b → Owns k' b → k = k'

lemma Scope.Complete.index_ne (h : last.Complete) (hb : b ∈ last.locals) {b' : String × Local} (hb' : b' ∈ last.locals)
    (hne : b ≠ b') : b.2.index ≠ b'.2.index :=
  fun heq => hne (List.inj_on_of_nodup_map (List.Nodup.of_append_left h.distinct) hb hb' heq)

lemma Kept.store [LawfulBEq κ] (h : Kept last Owns stores locals) (hlast : last.Complete) (hkeyed : Keyed last Owns)
    (hb : b ∈ last.locals) (hk : Owns k b) (hv : v.type = b.2.type) :
    Kept last Owns ((k, v) :: stores) (locals.set b.2.index v.held) := by
  intro k' b' hb' hk'
  obtain ⟨htype, hread⟩ := h k' b' hb' hk'
  unfold lastStored at htype hread ⊢
  rw [List.lookup_cons]
  by_cases hkey : k' = k
  · subst hkey
    obtain rfl := hkeyed.left k' b hb b' hb' hk hk'
    have hlt := (List.getElem?_eq_some_iff.mp hread).1
    simp [hv, hlt]
  · have hbeq : (k' == k) = false := beq_false_of_ne hkey
    have hne : b ≠ b' := by
      rintro rfl
      exact hkey (hkeyed.right k' k b hb hk' hk)
    rw [hbeq, List.getElem?_set_ne (hlast.index_ne hb hb' hne)]
    exact ⟨htype, hread⟩

lemma lookup_zip {α : Type} [DecidableEq α] {keys : List α} {vs : List Value} (hnodup : keys.Nodup)
    (hlength : keys.length = vs.length) {i : Nat} {key : α} (h : keys[i]? = some key) :
    (keys.zip vs).lookup key = vs[i]? := by
  have hlt : i < vs.length := hlength ▸ (List.getElem?_eq_some_iff.mp h).1
  rw [List.getElem?_eq_getElem hlt, lookup_eq_some_iff_mem]
  · refine List.mem_of_getElem? (i := i) ?_
    rw [List.getElem?_zip_eq_some]
    exact ⟨h, List.getElem?_eq_getElem hlt⟩
  · rw [List.map_fst_zip (Nat.le_of_eq hlength)]
    exact hnodup

lemma lookup_zip_none {α : Type} [DecidableEq α] {keys : List α} {vs : List Value} {key : α} (h : key ∉ keys) :
    (keys.zip vs).lookup key = none := by
  rw [List.lookup_eq_none_iff]
  rintro ⟨other, v⟩ hmem
  have hne : key ≠ other := by
    rintro rfl
    exact h (List.of_mem_zip hmem).1
  simpa using hne

variable {ps : List Parameter} {result : ValueType} {ds : List (String × ValueType)} {vs : List Value}

lemma Kept.enter (htypes : vs.map Value.type = ps.map Parameter.type)
    (h : ∀ k, ∀ b ∈ (bodyScope ps result ds).locals, Owns k b → stores.lookup k = vs[b.2.index]?) :
    Kept (bodyScope ps result ds) Owns stores (firstLocals vs (bodyScope ps result ds)) := by
  intro k b hb hk
  have hlength := congrArg List.length htypes
  rw [List.length_map, List.length_map] at hlength
  rw [lastStored, h k b hb hk]
  rw [bodyScope_locals, List.mem_append] at hb
  obtain hb | hb := hb
  · obtain ⟨hle, hd⟩ := mem_numbered hb
    have hge : vs.length ≤ b.2.index := by omega
    rw [List.getElem?_eq_none hge, firstLocals, List.getElem?_append_right (by simpa using hge)]
    refine ⟨Value.type_zero, ?_⟩
    have hvars : (bodyScope ps result ds).vars[b.2.index - vs.length]? = some b.2.type.numType? := by
      rw [bodyScope_vars]
      split_ifs at hle hd ⊢ with hvoid
      · rw [List.nil_append, List.getElem?_map, hlength]
        simpa using congrArg (Option.map fun d => d.2.numType?) hd
      · rw [List.getElem?_append_right (by simp; omega), List.getElem?_map]
        have hindex : b.2.index - vs.length - 1 = b.2.index - (ps.length + 1) := by omega
        simpa [hindex] using congrArg (Option.map fun d => d.2.numType?) hd
    rw [List.length_map, List.getElem?_map, hvars]
    exact congrArg some (held_zero b.2.type).symm
  · obtain ⟨-, hd⟩ := mem_numbered hb
    rw [Nat.sub_zero, List.getElem?_map, Option.map_eq_some_iff] at hd
    obtain ⟨q, hq, hbq⟩ := hd
    have htype : q.type = b.2.type := congrArg Prod.snd hbq
    have hlt : b.2.index < vs.length := hlength ▸ (List.getElem?_eq_some_iff.mp hq).1
    have hvalue : (vs.map Value.type)[b.2.index]? = some b.2.type := by
      rw [htypes, List.getElem?_map, hq, ← htype]
      rfl
    obtain ⟨v, hv, hvt⟩ := Option.map_eq_some_iff.mp (List.getElem?_map .. ▸ hvalue)
    rw [hv, firstLocals, List.getElem?_append_left (by simpa using hlt), List.getElem?_map, hv]
    exact ⟨hvt, rfl⟩

end Keel.Lowering
