import Keel.Proofs.Correctness.Expressions
import Keel.Proofs.Syntax.Definitions

namespace Keel.Lowering

open Wasm (Instr Run Stop Caller)
open Semantics

section Hosts

variable {globals : GlobalTable} {hosts : List Prototype} {w : World} {s : Wasm.State} {q : Prototype}
  {answers : List (String × List Wasm.Value)}

lemma answer_kept {P : Prototype → Wasm.Value → Prop}
    (h : ∀ f ∈ hosts, f.result ≠ .void → ∀ n ∈ (answers.lookup f.name).getD [], P f n) (hq : q ∈ hosts)
    (hzero : ∀ t, q.result.numType? = some t → P q t.zero) : ∃ n rest,
    (∀ entries log, Wasm.Store.answer ⟨entries, answers, log⟩ (hostOf q) = (n, ⟨entries, rest, log⟩)) ∧
      ((n = none ∧ q.result.numType? = none) ∨ ∃ v, n = some v ∧ P q v) ∧
      ∀ f ∈ hosts, f.result ≠ .void → ∀ n ∈ (rest.lookup f.name).getD [], P f n := by
  cases hr : q.result.numType? with
  | none => exact ⟨none, answers, by simp [Wasm.Store.answer, hostOf, hr], .inl ⟨rfl, rfl⟩, h⟩
  | some t =>
    have hzero := hzero t hr
    have hvoid : q.result ≠ .void := by
      intro h
      rw [h] at hr
      cases hr
    cases hl : answers.lookup q.name with
    | none => exact ⟨some t.zero, answers, by simp [Wasm.Store.answer, hostOf, hr, hl], .inr ⟨_, rfl, hzero⟩, h⟩
    | some ns =>
      have hall : ∀ n ∈ ns, P q n := fun n hn => h q hq hvoid n (by simpa [hl] using hn)
      cases ns with
      | nil => exact ⟨some t.zero, answers, by simp [Wasm.Store.answer, hostOf, hr, hl], .inr ⟨_, rfl, hzero⟩, h⟩
      | cons n ns =>
        have hn := hall n (List.mem_cons_self ..)
        cases ns with
        | nil => exact ⟨some n, answers, by simp [Wasm.Store.answer, hostOf, hr, hl], .inr ⟨n, rfl, hn⟩, h⟩
        | cons m ns =>
          refine ⟨some n, answers.map fun e => (e.1, if e.1 = q.name then m :: ns else e.2),
            by simp [Wasm.Store.answer, hostOf, hr, hl], .inr ⟨n, rfl, hn⟩, ?_⟩
          intro q' hq' hvoid' k hk
          refine h q' hq' hvoid' k ?_
          rw [lookup_map_key answers fun name ks => if name = q.name then m :: ns else ks] at hk
          by_cases hname : q'.name = q.name
          · rw [hname, hl] at hk ⊢
            simp only [Option.map_some, if_true, Option.getD_some] at hk ⊢
            exact List.mem_cons_of_mem _ hk
          · cases hl' : answers.lookup q'.name with
            | none => simp [hl'] at hk
            | some ks => simpa [hl', hname] using hk

lemma answer_spec (h : Answered hosts answers) (hq : q ∈ hosts) : ∃ n rest,
    (∀ entries log, Wasm.Store.answer ⟨entries, answers, log⟩ (hostOf q) = (n, ⟨entries, rest, log⟩)) ∧
      n.map Wasm.Value.type = q.result.numType? ∧ Answered hosts rest := by
  have hzero : ∀ t, q.result.numType? = some t → some t.zero.type = q.result.numType? := by
    intro t ht
    rw [ht]
    cases t <;> rfl
  obtain ⟨n, rest, hanswer, ⟨rfl, hnone⟩ | ⟨v, rfl, hv⟩, hrest⟩ := answer_kept h hq hzero
  · exact ⟨none, rest, hanswer, hnone.symm, hrest⟩
  · exact ⟨some v, rest, hanswer, hv, hrest⟩

lemma filterMap_held {vs : List Value} {ns : List Wasm.Value} (h : vs.map Value.held = ns.map some) :
    vs.filterMap Value.held = ns := by
  have hmap : (vs.map Value.held).filterMap id = (ns.map some).filterMap id := by rw [h]
  simpa [List.filterMap_map] using hmap

lemma callHost_concludes (hq : q ∈ hosts) {vs : List Value} {ns : List Wasm.Value}
    (hheld : vs.map Value.held = ns.map some) (hs : Shares globals hosts w s.store) :
    Concludes globals hosts q.result s.locals (Run.callHost (hostOf q) ns s) (callHost q vs w) := by
  obtain ⟨n, rest, hanswer, htype, hrest⟩ := answer_spec hs.answered hq
  obtain ⟨v, hv⟩ := ofHeld?_typed htype
  obtain ⟨hvt, hvh⟩ := Value.type_ofHeld? hv
  have hcode : Run.callHost (hostOf q) ns s =
      .ok n { s with store := ⟨s.store.globals, rest, s.store.log ++ [⟨q.name, ns⟩]⟩ } := by
    have hstore := hanswer s.store.globals (s.store.log ++ [⟨q.name, ns⟩])
    rw [← hs.answers] at hstore
    simp only [Run.callHost]
    rw [show (hostOf q).name = q.name from rfl, hstore]
  have heval : callHost q vs w = .ok v ⟨w.stores, rest, w.log ++ [⟨q.name, ns⟩]⟩ := by
    have hstore := hanswer [] (w.log ++ [⟨q.name, ns⟩])
    unfold hostOf at hstore
    simp only [callHost, filterMap_held hheld, hstore, hv]
  rw [hcode, heval]
  exact ⟨hvh.symm, hvt, rfl, hs.globals, rfl, by rw [hs.log], hrest⟩

end Hosts

section Bodies

variable {V : Variables} {tables : Tables} {hosts : List Prototype} {last sc sc' : Scope}
  {R : Representation V tables.globals last} {a : Activation V.Frame} {s : Wasm.State} {x : Run (Option Wasm.Value)}
  {e : Eval V.Frame Unit}

def Ended (globals : GlobalTable) (hosts : List Prototype) (last : Scope) :
    EStateM.Result Stop Wasm.State (Option Wasm.Value) → EStateM.Result Stop World Value → Prop
  | .ok n s, .ok v w => n = none ∧ v.type = last.result ∧
    (∀ i, last.returnSlot = some i → s.locals[i]? = some v.held) ∧ Shares globals hosts w s.store
  | .error c s, .error e w => c = e ∧ IsFinal e ∧ Shares globals hosts w s.store
  | _, _ => False

lemma Simulates.ended (h : Simulates (Leaves tables.globals hosts last) (Agree R hosts sc) x e (Done R hosts sc'))
    (ha : Agree R hosts sc a s) :
    Ended tables.globals hosts last (Run.catchBranch (some endLabel) x s) (inFrame last.result a.frame e a.world) := by
  have hm := h a s ha
  unfold inFrame Run.catchBranch
  have ha' : (⟨a.frame, a.world⟩ : Activation V.Frame) = a := rfl
  rw [ha']
  cases hx : x s <;> cases he : e a <;> rw [hx, he] at hm
  case ok.ok n t v b =>
    obtain ⟨rfl, hb⟩ := hm
    exact ⟨rfl, Value.type_zero, hb.slot, hb.world⟩
  case error.error c t e b =>
    cases e with
    | stop e =>
      obtain ⟨rfl, hfinal, hb⟩ := hm
      cases c with
      | branch => exact hfinal.elim
      | _ => exact ⟨rfl, hfinal, hb⟩
    | returned v =>
      obtain ⟨rfl, htype, hslot, hb⟩ := hm
      exact ⟨rfl, htype, hslot, hb⟩
  all_goals exact hm.elim

variable {layout : StringTable} {g : Setting} {call : Caller} {calls : Calls} {table : Precedences}

lemma functionOf_run (q : Prototype) (codes : List Instr) (scope : Scope) :
    (functionOf q codes scope).body.run call =
      Run.catchBranch (some endLabel) (Wasm.runSequence call codes) >>= fun n =>
        match scope.returnSlot with
        | none => pure n
        | some i => Run.getLocal i := by
  simp only [functionOf, Instr.run, catchBranch_none]
  cases scope.returnSlot with
  | none => simp [runSequence_cons, Instr.run]
  | some i =>
    simp only [Option.map_some, Option.toList_some, runSequence_pair, Instr.run]

def firstLocals (vs : List Value) (last : Scope) : List (Option Wasm.Value) :=
  vs.map Value.held ++ last.vars.map Wasm.zeroOf

variable {ps : List Parameter} {result : ValueType} {ds : List (String × ValueType)} {vs : List Value} {w : World}

lemma firstLocals_length (htypes : vs.map Value.type = ps.map Parameter.type) :
    (firstLocals vs (bodyScope ps result ds)).length =
      (bodyScope ps result ds).paramCount + (bodyScope ps result ds).vars.length := by
  have hlength := congrArg List.length htypes
  rw [List.length_map, List.length_map] at hlength
  simp [firstLocals, bodyScope_count, hlength]

lemma firstLocals_slot (htypes : vs.map Value.type = ps.map Parameter.type) {i : Nat}
    (hi : (bodyScope ps result ds).returnSlot = some i) :
    (firstLocals vs (bodyScope ps result ds))[i]? = some (Value.zero result).held := by
  have hlength := congrArg List.length htypes
  rw [List.length_map, List.length_map] at hlength
  rw [bodyScope_slot] at hi
  split_ifs at hi with hvoid
  cases hi
  rw [firstLocals, List.getElem?_append_right (by simp [hlength]), bodyScope_vars, if_neg hvoid, held_zero]
  simp [hlength]

lemma first_agree {R : Representation V tables.globals (bodyScope ps result ds)} {frame : V.Frame}
    (hframe : R.Agrees (.ofSignature ps result) frame (firstLocals vs (bodyScope ps result ds)))
    (htypes : vs.map Value.type = ps.map Parameter.type) {store : Wasm.Store}
    (hs : Shares tables.globals hosts w store) :
    Agree R hosts (.ofSignature ps result) ⟨frame, w⟩ ⟨store, firstLocals vs (bodyScope ps result ds)⟩ where
  frame := hframe
  length := firstLocals_length htypes
  slot := by
    intro i hi
    rw [bodyScope_result]
    exact firstLocals_slot htypes hi
  world := hs

lemma Lowers.concludes {d : Definition} {f : Wasm.Function} (h : Lowers tables layout d f)
    (hlink : Linked tables layout hosts g call calls) (hshape : d.Shaped table)
    (R : Representation V tables.globals (scopeOf d)) {frame : V.Frame} {ns : List Wasm.Value}
    (hframe : R.Agrees (.ofSignature d.parameters d.signature.result) frame (firstLocals vs (scopeOf d)))
    (htypes : vs.map Value.type = d.signature.parameterTypes) (hheld : vs.map Value.held = ns.map some)
    (hs : Shares tables.globals hosts w s.store) :
    Concludes tables.globals hosts d.signature.result s.locals
      (Run.withLocals (ns.map some ++ f.vars.map Wasm.zeroOf) (f.body.run call) s)
      (inFrame d.signature.result frame (executeAll V g calls d.signature.result d.body) w) := by
  obtain ⟨u, codes, t, hb, hu, ht, hstrings, rfl⟩ := h
  rw [hu] at ht
  have hend : t.scope = scopeOf d := ht
  have hsim := block_simulates (R := R) hlink (bodyScope_complete ..) d.body hshape.2 hb (hend ▸ .refl _) hstrings
  rw [hu] at hsim
  have hresult : (scopeOf d).result = d.signature.result := bodyScope_result ..
  have hended : Ended tables.globals hosts (scopeOf d)
      (Run.catchBranch (some endLabel) (Wasm.runSequence call codes) ⟨s.store, firstLocals vs (scopeOf d)⟩)
      (inFrame d.signature.result frame (executeAll V g calls d.signature.result d.body) w) := by
    have h := hsim.ended (first_agree hframe (htypes.trans hshape.1.parameterTypes.symm) hs)
    rw [hresult] at h
    exact h
  have hlocals : ns.map some ++ (functionOf d.own codes t.scope).vars.map Wasm.zeroOf =
      firstLocals vs (scopeOf d) := by
    rw [firstLocals, hheld, ← hend]
    rfl
  simp only [Run.withLocals, hlocals, functionOf_run]
  cases hrun : Run.catchBranch (some endLabel) (Wasm.runSequence call codes)
      ⟨s.store, firstLocals vs (scopeOf d)⟩ <;>
    cases heval : inFrame d.signature.result frame (executeAll V g calls d.signature.result d.body) w <;>
    rw [hrun, heval] at hended
  case ok.ok n u v w' =>
    obtain ⟨rfl, htype, hslot, hw⟩ := hended
    rw [bind_of_ok hrun]
    cases hreturn : t.scope.returnSlot with
    | none =>
      have hvoid : d.signature.result = .void := by
        rw [← hresult]
        rw [hend] at hreturn
        exact (bodyScope_complete ..).slot.mp hreturn
      rw [Value.eq_void (htype.trans (hresult.trans hvoid))]
      exact ⟨rfl, hvoid.symm, rfl, hw⟩
    | some i =>
      simp only [getLocal_run (hslot i (hend ▸ hreturn))]
      exact ⟨rfl, htype.trans hresult, rfl, hw⟩
  case error.error c u e w' =>
    rw [bind_of_error hrun]
    exact hended
  all_goals exact hended.elim

end Bodies

end Keel.Lowering
