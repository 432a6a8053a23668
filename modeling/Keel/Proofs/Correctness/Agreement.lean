import Keel.Proofs.Correctness.Simulation
import Keel.Proofs.Lowering.Programs
import Keel.Proofs.Semantics.Sessions

namespace Keel.Lowering

open Wasm (Instr Run Stop Caller)
open Semantics

structure Scope.Complete (last : Scope) : Prop where
  distinct : (last.locals.map (fun b => b.2.index) ++ last.returnSlot.toList).Nodup
  slot : last.returnSlot = none ↔ last.result = .void

lemma bodyScope_complete (ps : List Parameter) (result : ValueType) (ds : List (String × ValueType)) :
    (bodyScope ps result ds).Complete := by
  refine ⟨Scope.indices_nodup ps result, ?_⟩
  rw [bodyScope_slot, bodyScope_result]
  split_ifs with h <;> simp [h]

lemma Scope.Complete.slot_ne {last : Scope} (h : last.Complete) {b : String × Local} (hb : b ∈ last.locals) {i : Nat}
    (hi : last.returnSlot = some i) : b.2.index ≠ i := by
  have hdisjoint := List.disjoint_of_nodup_append h.distinct
  intro heq
  exact hdisjoint (List.mem_map.mpr ⟨b, hb, heq⟩) (by simp [hi])

structure Representation (V : Variables) (globals : GlobalTable) (last : Scope) where
  Agrees : Scope → V.Frame → List (Option Wasm.Value) → Prop
  Owns : V.Slot → String × Local → Prop
  find_local : ∀ {sc frame locals name v}, Agrees sc frame locals → sc.Within last →
    sc.locals.lookup name = some v → ∃ slot, V.find? frame name = some (slot, v.type) ∧ Owns slot (name, v)
  find_global : ∀ {sc frame locals name type}, Agrees sc frame locals → sc.Within last →
    sc.locals.lookup name = none → globals.lookup name = some type → V.find? frame name = none
  read : ∀ {sc frame locals slot b}, Agrees sc frame locals → sc.Within last → b ∈ sc.locals → Owns slot b →
    (V.read frame slot).type = b.2.type ∧ locals[b.2.index]? = some (V.read frame slot).held
  write : ∀ {sc frame locals slot b v}, Agrees sc frame locals → sc.Within last → b ∈ sc.locals → Owns slot b →
    v.type = b.2.type → Agrees sc (V.write frame slot v) (locals.set b.2.index v.held)
  declare : ∀ {sc frame locals name v}, Agrees sc frame locals → (sc.declare name v.type).2.Within last →
    (sc.declare name v.type).1 < locals.length →
    Agrees (sc.declare name v.type).2 (V.declare frame name v.type v) (locals.set (sc.declare name v.type).1 v.held)
  skip : ∀ {sc frame locals ds}, Agrees sc frame locals → (sc.declareAll ds).Within last →
    Agrees (sc.declareAll ds) (V.skip frame ds) locals
  publish : ∀ {sc frame locals name}, Agrees sc frame locals → sc.Within last →
    Agrees sc (V.publish frame name) locals

section Worlds

variable {globals : GlobalTable} {hosts : List Prototype} {w : World} {s : Wasm.Store} {name : String}
  {type : ValueType} {v : Value} {n : Wasm.Value}

lemma global_store_same : (World.mk ((name, v) :: w.stores) w.answers w.log).global name type = v := by
  simp [World.global]

lemma global_store_other {other : String} (h : other ≠ name) :
    (World.mk ((name, v) :: w.stores) w.answers w.log).global other type = w.global other type := by
  have hbeq : (other == name) = false := beq_false_of_ne h
  simp [World.global, List.lookup_cons, hbeq]

def Holds (w : World) (g : String × ValueType) (e : String × Wasm.Value) : Prop :=
  e.1 = g.1 ∧ (w.global g.1 g.2).type = g.2 ∧ (w.global g.1 g.2).held = some e.2

structure Shares (globals : GlobalTable) (hosts : List Prototype) (w : World) (s : Wasm.Store) : Prop where
  globals : List.Forall₂ (Holds w) globals s.globals
  answers : s.answers = w.answers
  log : s.log = w.log
  answered : Answered hosts w.answers

lemma holds_lookup {entries : List (String × Wasm.Value)} (h : List.Forall₂ (Holds w) globals entries)
    (hname : globals.lookup name = some type) :
    ∃ n, entries.lookup name = some n ∧ Holds w (name, type) (name, n) := by
  induction h with
  | nil => cases hname
  | @cons g e globals entries hg _ ih =>
    obtain ⟨n, t⟩ := g
    obtain ⟨n', k⟩ := e
    obtain ⟨rfl, hg⟩ := hg
    rw [List.lookup_cons] at hname ⊢
    cases hbeq : name == n' with
    | true =>
      simp only [hbeq] at hname ⊢
      obtain rfl := eq_of_beq hbeq
      cases hname
      exact ⟨k, rfl, rfl, hg⟩
    | false =>
      simp only [hbeq] at hname ⊢
      exact ih hname

lemma holds_store_of_not_mem {entries : List (String × Wasm.Value)} (h : List.Forall₂ (Holds w) globals entries)
    (hname : name ∉ globals.map Prod.fst) :
    List.Forall₂ (Holds ⟨(name, v) :: w.stores, w.answers, w.log⟩) globals entries := by
  induction h with
  | nil => exact .nil
  | cons hg _ ih =>
    rw [List.map_cons, List.mem_cons, not_or] at hname
    refine .cons ?_ (ih hname.2)
    unfold Holds
    rw [global_store_other (Ne.symm hname.1)]
    exact hg

lemma holds_store {entries : List (String × Wasm.Value)} (h : List.Forall₂ (Holds w) globals entries)
    (hnodup : (globals.map Prod.fst).Nodup) (hname : globals.lookup name = some v.type) (hv : v.held = some n) :
    List.Forall₂ (Holds ⟨(name, v) :: w.stores, w.answers, w.log⟩) globals (Wasm.assign name n entries) := by
  induction h with
  | nil => exact .nil
  | @cons g e globals entries hg hrest ih =>
    obtain ⟨n, t⟩ := g
    obtain ⟨n', k⟩ := e
    obtain ⟨rfl, hg⟩ := hg
    rw [List.map_cons, List.nodup_cons] at hnodup
    rw [List.lookup_cons] at hname
    simp only [Wasm.assign]
    cases hbeq : name == n' with
    | true =>
      simp only [hbeq] at hname
      obtain rfl := eq_of_beq hbeq
      cases hname
      rw [if_pos rfl]
      refine .cons ⟨rfl, ?_, ?_⟩ (holds_store_of_not_mem hrest hnodup.1)
      · rw [global_store_same]
      · rw [global_store_same, hv]
    | false =>
      simp only [hbeq] at hname
      have hne : n' ≠ name := (ne_of_beq_false hbeq).symm
      rw [if_neg hne]
      refine .cons ?_ (ih hnodup.2 hname)
      unfold Holds
      rw [global_store_other hne]
      exact ⟨rfl, hg⟩

lemma Shares.store (h : Shares globals hosts w s) (hnodup : (globals.map Prod.fst).Nodup)
    (hname : globals.lookup name = some v.type) (hv : v.held = some n) :
    Shares globals hosts ⟨(name, v) :: w.stores, w.answers, w.log⟩
      { s with globals := Wasm.assign name n s.globals } :=
  ⟨holds_store h.globals hnodup hname hv, h.answers, h.log, h.answered⟩

end Worlds

def Leaves {Frame : Type} (globals : GlobalTable) (hosts : List Prototype) (last : Scope) :
    Stop → Exit → Activation Frame → Wasm.State → Prop
  | c, .stop e, a, s => c = e ∧ IsFinal e ∧ Shares globals hosts a.world s.store
  | c, .returned v, a, s => c = .branch endLabel ∧ v.type = last.result ∧
    (∀ i, last.returnSlot = some i → s.locals[i]? = some v.held) ∧ Shares globals hosts a.world s.store

section Relations

variable {V : Variables} {globals : GlobalTable} {last : Scope} (R : Representation V globals last)
  (hosts : List Prototype)

structure Agree (sc : Scope) (a : Activation V.Frame) (s : Wasm.State) : Prop where
  frame : R.Agrees sc a.frame s.locals
  length : s.locals.length = last.paramCount + last.vars.length
  slot : ∀ i, last.returnSlot = some i → s.locals[i]? = some (Value.zero last.result).held
  world : Shares globals hosts a.world s.store

def Yields (type : ValueType) (sc : Scope) (n : Option Wasm.Value) (v : Value) (a : Activation V.Frame)
    (s : Wasm.State) : Prop :=
  n = v.held ∧ v.type = type ∧ Agree R hosts sc a s

variable {R} {hosts} {sc : Scope} {a : Activation V.Frame} {s : Wasm.State} {slot : V.Slot} {b : String × Local}
  {name : String} {v : Value}

lemma Agree.write (h : Agree R hosts sc a s) (hlast : last.Complete) (hsc : sc.Within last) (hb : b ∈ sc.locals)
    (hslot : R.Owns slot b) (hv : v.type = b.2.type) :
    Agree R hosts sc { a with frame := V.write a.frame slot v } { s with locals := s.locals.set b.2.index v.held } where
  frame := R.write h.frame hsc hb hslot hv
  length := by rw [List.length_set, h.length]
  slot := by
    intro i hi
    rw [List.getElem?_set_ne (hlast.slot_ne (hsc.locals.subset hb) hi), h.slot i hi]
  world := h.world

lemma declared_lt (h : Agree R hosts sc a s) {type : ValueType} (hsc : (sc.declare name type).2.Within last) :
    (sc.declare name type).1 < s.locals.length := by
  have hvars := hsc.vars.length_le
  have hcount := hsc.paramCount
  simp only [Scope.declare, Scope.addSlot, List.length_append, List.length_singleton] at hvars hcount ⊢
  rw [h.length]
  omega

lemma Agree.declare (h : Agree R hosts sc a s) (hlast : last.Complete) (hsc : (sc.declare name v.type).2.Within last) :
    Agree R hosts (sc.declare name v.type).2 { a with frame := V.declare a.frame name v.type v }
      { s with locals := s.locals.set (sc.declare name v.type).1 v.held } where
  frame := R.declare h.frame hsc (declared_lt h hsc)
  length := by rw [List.length_set, h.length]
  slot := by
    intro i hi
    rw [List.getElem?_set_ne (hlast.slot_ne hsc.declared hi), h.slot i hi]
  world := h.world

lemma Agree.skip (h : Agree R hosts sc a s) {ds : List (String × ValueType)} (hsc : (sc.declareAll ds).Within last) :
    Agree R hosts (sc.declareAll ds) { a with frame := V.skip a.frame ds } s :=
  ⟨R.skip h.frame hsc, h.length, h.slot, h.world⟩

lemma Agree.storeGlobal (h : Agree R hosts sc a s) (hnodup : (globals.map Prod.fst).Nodup)
    (hname : globals.lookup name = some v.type) {n : Wasm.Value} (hv : v.held = some n) :
    Agree R hosts sc { a with world := ⟨(name, v) :: a.world.stores, a.world.answers, a.world.log⟩ }
      { s with store := { s.store with globals := Wasm.assign name n s.store.globals } } :=
  ⟨h.frame, h.length, h.slot, h.world.store hnodup hname hv⟩

lemma Agree.inWorld (h : Agree R hosts sc a s) {w : World} {t : Wasm.State} (hlocals : t.locals = s.locals)
    (hw : Shares globals hosts w t.store) : Agree R hosts sc { a with world := w } t :=
  ⟨hlocals ▸ h.frame, hlocals ▸ h.length, hlocals ▸ h.slot, hw⟩

end Relations

end Keel.Lowering
