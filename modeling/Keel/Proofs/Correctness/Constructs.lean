import Keel.Proofs.Correctness.Agreement

namespace Keel.Lowering

open Wasm (Instr Run Stop Caller)
open Semantics

def Concludes (globals : GlobalTable) (hosts : List Prototype) (type : ValueType) (locals : List (Option Wasm.Value)) :
    EStateM.Result Stop Wasm.State (Option Wasm.Value) → EStateM.Result Stop World Value → Prop
  | .ok n s, .ok v w => n = v.held ∧ v.type = type ∧ s.locals = locals ∧ Shares globals hosts w s.store
  | .error c s, .error e w => c = e ∧ IsFinal e ∧ Shares globals hosts w s.store
  | _, _ => False

def Answers (g : Setting) (hosts : List Prototype) (call : Caller) (calls : Calls) : Prop :=
  ∀ callee q, g.signature? callee = some q → ∀ (vs : List Value) (ns : List Wasm.Value) (w : World)
    (s : Wasm.State), vs.map Value.type = q.parameterTypes → vs.map Value.held = ns.map some →
    Shares g.globals hosts w s.store →
    Concludes g.globals hosts q.result s.locals (call callee ns s) (calls callee vs w)

structure Linked (tables : Tables) (layout : StringTable) (hosts : List Prototype) (g : Setting) (call : Caller)
    (calls : Calls) : Prop where
  globals : g.globals = tables.globals
  distinct : (tables.globals.map Prod.fst).Nodup
  nonvoid : ∀ v ∈ tables.globals, v.2 ≠ .void
  signature : ∀ callee f, tables.functions.lookup callee = some f →
    ∃ q, g.signature? callee = some q ∧ f = ⟨q.parameterTypes, q.result⟩
  address : ∀ value address, layout.entries.lookup value = some address → g.address value = address
  answers : Answers g hosts call calls

lemma catchBranch_none (x : Run (Option Wasm.Value)) : Run.catchBranch none x = x := by
  funext s
  unfold Run.catchBranch
  cases x s with
  | ok n t => rfl
  | error e t => cases e <;> rfl

lemma bind_of_ok {ε σ α β : Type} {x : EStateM ε σ α} {f : α → EStateM ε σ β} {a : α} {s t : σ}
    (h : x s = .ok a t) : (x >>= f) s = f a t := by
  simp only [bind, EStateM.bind, h]

lemma map_of_ok {ε σ α β : Type} {x : EStateM ε σ α} {f : α → β} {a : α} {s t : σ} (h : x s = .ok a t) :
    (f <$> x) s = .ok (f a) t := by
  simp only [Functor.map, EStateM.map, h]

lemma bind_of_error {ε σ α β : Type} {x : EStateM ε σ α} {f : α → EStateM ε σ β} {c : ε} {s t : σ}
    (h : x s = .error c t) : (x >>= f) s = .error c t := by
  simp only [bind, EStateM.bind, h]

section Constructs

variable {V : Variables} {tables : Tables} {last : Scope} {R : Representation V tables.globals last}
  {layout : StringTable} {hosts : List Prototype} {g : Setting} {call : Caller} {calls : Calls} {result : ValueType}
  {place : Position} {name : String} {type : ValueType} {x y z : Lowered} {s t : State} {sc : Scope}
  {pre : Activation V.Frame → Wasm.State → Prop} {e : Eval V.Frame Value}

lemma Simulates.coerce (h : Simulates (Leaves tables.globals hosts last) pre (y.code.run call) e
    (Yields R hosts y.type sc))
    (hz : Lowering.coerce y type place = .ok z) :
    Simulates (Leaves tables.globals hosts last) pre (z.code.run call) (e >>= fun v => attempt (v.convert type))
      (Yields R hosts type sc) := by
  obtain ⟨-, f, hf, hv⟩ := extends_coerce hz
  rw [hf call]
  refine h.bind ?_
  rintro n v a s ⟨rfl, hv', hagree⟩
  rw [hv v hv']
  cases hc : v.convert type with
  | ok w => exact ⟨rfl, Value.type_convert hc, hagree⟩
  | error c => exact ⟨rfl, ends_convert v type c hc, hagree.world⟩

lemma get_bind {ε σ β : Type} (f : σ → EStateM ε σ β) (s : σ) : (get >>= f) s = f s s := rfl

lemma getLocal_run {i : Nat} {n : Option Wasm.Value} {s : Wasm.State} (h : s.locals[i]? = some n) :
    Run.getLocal i s = .ok n s := by
  simp only [Run.getLocal, get_bind, h]
  rfl

lemma setLocal_run {i : Nat} {n : Option Wasm.Value} {s : Wasm.State} (h : i < s.locals.length) :
    Run.setLocal i n s = .ok () { s with locals := s.locals.set i n } := by
  simp only [Run.setLocal, get_bind, if_pos h]
  rfl

lemma getGlobal_run {n : Wasm.Value} {s : Wasm.State} (h : s.store.globals.lookup name = some n) :
    Run.getGlobal name s = .ok n s := by
  simp only [Run.getGlobal, get_bind, h]
  rfl

lemma setGlobal_run (name : String) (c : Wasm.Value) (s : Wasm.State) : Run.setGlobal name c s =
    .ok () { s with store := { s.store with globals := Wasm.assign name c s.store.globals } } := rfl

lemma reference_simulates (hlink : Linked tables layout hosts g call calls)
    (h : reference tables place name s = .ok (x, t)) (hw : t.scope.Within last) :
    Simulates (Leaves tables.globals hosts last) (Agree R hosts s.scope) (x.code.run call) (load V g name)
      (Yields R hosts x.type t.scope) := by
  intro a st hagree
  obtain ⟨rfl, ⟨v, hv, rfl⟩ | ⟨hnone, type, htype, rfl⟩⟩ := reference_ok h
  · obtain ⟨slot, hfind, hslot⟩ := R.find_local hagree.frame hw hv
    have hmem : (name, v) ∈ s.scope.locals := mem_of_lookup hv
    obtain ⟨htype, hread⟩ := R.read hagree.frame hw hmem hslot
    have hload : load V g name a = .ok (V.read a.frame slot) a := by
      simp only [load, get_bind, hfind]
      rfl
    rw [hload, Instr.run, getLocal_run hread]
    exact ⟨rfl, htype, hagree⟩
  · have hfind := R.find_global hagree.frame hw hnone htype
    obtain ⟨n, hn, -, hglobal, hheld⟩ := holds_lookup hagree.world.globals htype
    have hload : load V g name a = .ok (a.world.global name type) a := by
      simp only [load, get_bind, hfind, hlink.globals, htype]
      rfl
    rw [hload, Instr.run]
    simp only [Functor.map, EStateM.map, getGlobal_run hn]
    exact ⟨hheld.symm, hglobal, hagree⟩

lemma runSequence_pair (x y : Instr) :
    Wasm.runSequence call [x, y] = x.run call >>= fun _ => y.run call := by
  simp [Wasm.runSequence]

lemma assignment_simulates (hlink : Linked tables layout hosts g call calls) (hlast : last.Complete)
    {value : Lower Lowered} (h : assignment tables place name value s = .ok (x, t)) (hst : s.scope.Within t.scope)
    (hw : t.scope.Within last)
    (hvalue : ∀ y, value s = .ok (y, t) → Simulates (Leaves tables.globals hosts last) (Agree R hosts s.scope)
      (y.code.run call) e (Yields R hosts y.type t.scope)) :
    Simulates (Leaves tables.globals hosts last) (Agree R hosts s.scope) (x.code.run call) (assign V g name e)
      (Yields R hosts x.type t.scope) := by
  intro a st hagree
  obtain ⟨y, z, hy, ⟨v, hv, hz, rfl⟩ | ⟨hnone, type, htype, hz, rfl⟩⟩ := assignment_ok h
  · obtain ⟨slot, hfind, hslot⟩ := R.find_local hagree.frame (hst.trans hw) hv
    have hmem : (name, v) ∈ t.scope.locals := hst.lookup hv
    have hassign : assign V g name e a =
        ((e >>= fun w => attempt (w.convert v.type)) >>= fun w => do
          onFrame (V.write · slot w)
          return w) a := by
      rw [bind_assoc]
      simp only [assign, get_bind, hfind]
    rw [hassign, Instr.run]
    refine ((hvalue y hy).coerce hz).bind ?_ a st hagree
    rintro n w b u ⟨rfl, hw', hb⟩
    obtain ⟨-, hread⟩ := R.read hb.frame hw hmem hslot
    simp only [bind, EStateM.bind, setLocal_run (List.getElem?_eq_some_iff.mp hread).1]
    exact ⟨rfl, hw', hb.write hlast hw hmem hslot hw'⟩
  · have hfind := R.find_global hagree.frame (hst.trans hw) hnone htype
    have hassign : assign V g name e a =
        ((e >>= fun w => attempt (w.convert type)) >>= fun w => do
          storeGlobal name w
          return w) a := by
      rw [bind_assoc]
      simp only [assign, get_bind, hfind, hlink.globals, htype]
    have hrun : (Instr.block none type.numType? [.globalSet name z.code, .globalGet name]).run call =
        z.code.run call >>= fun n => Run.operand n >>= fun c =>
          Run.setGlobal name c >>= fun _ => some <$> Run.getGlobal name := by
      simp only [Instr.run, catchBranch_none, runSequence_pair, bind_assoc, pure_bind]
    rw [hassign, hrun]
    refine ((hvalue y hy).coerce hz).bind ?_ a st hagree
    rintro n w b u ⟨rfl, rfl, hb⟩
    obtain ⟨c, hc⟩ := exists_held (hlink.nonvoid _ (mem_of_lookup htype))
    have hstored := hb.storeGlobal hlink.distinct htype hc
    obtain ⟨d, hd, -, -, hheld⟩ := holds_lookup hstored.world.globals htype
    rw [global_store_same, hc] at hheld
    cases hheld
    rw [hc, Run.operand, pure_bind, bind_of_ok (setGlobal_run ..), map_of_ok (getGlobal_run hd)]
    exact ⟨hc.symm, rfl, hstored⟩

variable {γ : Type} {f : Eval V.Frame Value} {sc' : Scope} {code : Instr}

lemma Simulates.combine {k : Value → Value → Except Stop γ} {o : γ → Value} {P : γ → Prop}
    (hcode : Combines x y code fun v w => (k v w).map o)
    (hx : Simulates (Leaves tables.globals hosts last) pre (x.code.run call) e (Yields R hosts x.type sc))
    (hy : Simulates (Leaves tables.globals hosts last) (Agree R hosts sc) (y.code.run call) f
      (Yields R hosts y.type sc'))
    (hk : ∀ v w c, v.type = x.type → w.type = y.type → k v w = .ok c → P c) (hends : ∀ v w, Ends (k v w)) :
    Simulates (Leaves tables.globals hosts last) pre (code.run call)
      (e >>= fun v => f >>= fun w => attempt (k v w))
      (fun n c a s => n = (o c).held ∧ P c ∧ Agree R hosts sc' a s) := by
  obtain ⟨p, q, hrun, hcode⟩ := hcode
  rw [hrun call]
  refine hx.bind ?_
  rintro n v a s ⟨rfl, hv, hagree⟩
  obtain ⟨c, hp, hq⟩ := hcode v hv
  rw [hp, pure_bind]
  refine hy.bind ?_ a s hagree
  rintro m w b u ⟨rfl, hw, hb⟩
  rw [hq w hw]
  simp only
  cases hr : k v w with
  | ok d => exact ⟨rfl, hk v w d hv hw hr, hb⟩
  | error d => exact ⟨rfl, hends v w d hr, hb.world⟩

def Done (R : Representation V tables.globals last) (hosts : List Prototype) (sc : Scope) {α : Type}
    (n : Option Wasm.Value) (_ : α) (a : Activation V.Frame) (s : Wasm.State) : Prop :=
  n = none ∧ Agree R hosts sc a s

lemma Simulates.dropped
    (h : Simulates (Leaves tables.globals hosts last) pre (x.code.run call) e (Yields R hosts x.type sc)) :
    Simulates (Leaves tables.globals hosts last) pre ((Lowering.dropped x).run call) (e >>= fun _ => pure ())
      (Done R hosts sc) := by
  unfold Lowering.dropped
  split_ifs with hvoid
  · rw [← bind_pure (x.code.run call)]
    refine h.bind ?_
    rintro n v a s ⟨rfl, hv, hagree⟩
    rw [Value.eq_void (hv.trans hvoid)]
    exact ⟨rfl, hagree⟩
  · rw [Instr.run]
    refine h.bind ?_
    rintro n v a s ⟨-, -, hagree⟩
    exact ⟨rfl, hagree⟩

def Passes (R : Representation V tables.globals last) (hosts : List Prototype) (types : List ValueType) (sc : Scope)
    (ns : List Wasm.Value) (vs : List Value) (a : Activation V.Frame) (s : Wasm.State) : Prop :=
  vs.map Value.type = types ∧ vs.map Value.held = ns.map some ∧ Agree R hosts sc a s

lemma call_simulates (hlink : Linked tables layout hosts g call calls) {callee : String} {given : Nat}
    {args : List ValueType → Lower (List Instr)} {values : List ValueType → Eval V.Frame (List Value)}
    (h : Lowering.call tables place callee given args s = .ok (x, t))
    (hargs : ∀ types codes, types.length = given → args types s = .ok (codes, t) →
      Simulates (Leaves tables.globals hosts last) pre (Wasm.runArguments call codes) (values types)
        (Passes R hosts types t.scope)) :
    Simulates (Leaves tables.globals hosts last) pre (x.code.run call) (callFunction V g calls callee values)
      (Yields R hosts x.type t.scope) := by
  obtain ⟨signature, codes, hs, hn, hc, rfl⟩ := call_ok h
  obtain ⟨q, hq, rfl⟩ := hlink.signature callee signature hs
  simp only [callFunction, hq, Instr.run]
  refine (hargs q.parameterTypes codes hn hc).bind ?_
  rintro ns vs a u ⟨htypes, hheld, hagree⟩
  have hanswer := hlink.answers callee q hq vs ns a.world u htypes hheld (hlink.globals ▸ hagree.world)
  rw [hlink.globals] at hanswer
  unfold onWorld
  cases hrun : call callee ns u <;> cases heval : calls callee vs a.world <;> rw [hrun, heval] at hanswer
  case ok.ok n u' v w' =>
    obtain ⟨rfl, hv, hlocals, hshares⟩ := hanswer
    exact ⟨rfl, hv, hagree.inWorld hlocals hshares⟩
  case error.error => exact hanswer
  all_goals exact hanswer.elim

def Tells (R : Representation V tables.globals last) (hosts : List Prototype) (sc : Scope) (n : Option Wasm.Value)
    (b : Bool) (a : Activation V.Frame) (s : Wasm.State) : Prop :=
  n = (Value.ofBool b).held ∧ Agree R hosts sc a s

lemma isTrue_ofBool (b : Bool) : ∃ n, (Value.ofBool b).held = some n ∧ n.isTrue = b := by
  cases b <;> exact ⟨_, rfl, rfl⟩

lemma Simulates.ifElse {c yes no : Instr} {f : Eval V.Frame Bool} {k : Bool → Eval V.Frame γ}
    {post : Option Wasm.Value → γ → Activation V.Frame → Wasm.State → Prop}
    (h : Simulates (Leaves tables.globals hosts last) pre (c.run call) f (Tells R hosts sc))
    (hyes : Simulates (Leaves tables.globals hosts last) (Agree R hosts sc) (yes.run call) (k true) post)
    (hno : Simulates (Leaves tables.globals hosts last) (Agree R hosts sc) (no.run call) (k false) post) :
    Simulates (Leaves tables.globals hosts last) pre ((Instr.ifElse c yes no).run call) (f >>= k) post := by
  rw [Instr.run]
  refine h.bind ?_
  rintro n b a s ⟨rfl, hagree⟩
  obtain ⟨m, hm, htrue⟩ := isTrue_ofBool b
  rw [hm, Run.operand, pure_bind, htrue]
  cases b with
  | true => exact hyes a s hagree
  | false => exact hno a s hagree

lemma Simulates.ifThen {c yes : Instr} {f : Eval V.Frame Bool} {k : Bool → Eval V.Frame γ}
    {post : Option Wasm.Value → γ → Activation V.Frame → Wasm.State → Prop}
    (h : Simulates (Leaves tables.globals hosts last) pre (c.run call) f (Tells R hosts sc))
    (hyes : Simulates (Leaves tables.globals hosts last) (Agree R hosts sc) (yes.run call >>= fun _ => pure none)
      (k true) post)
    (hno : Simulates (Leaves tables.globals hosts last) (Agree R hosts sc) (pure none) (k false) post) :
    Simulates (Leaves tables.globals hosts last) pre ((Instr.ifThen c yes).run call) (f >>= k) post := by
  rw [Instr.run]
  refine h.bind ?_
  rintro n b a s ⟨rfl, hagree⟩
  obtain ⟨m, hm, htrue⟩ := isTrue_ofBool b
  rw [hm, Run.operand, pure_bind, htrue]
  cases b with
  | true => exact hyes a s hagree
  | false => exact hno a s hagree

lemma returning_simulates (hlast : last.Complete) (h : returning place x s = .ok (code, t))
    (hw : s.scope.Within last)
    (hx : Simulates (Leaves tables.globals hosts last) pre (x.code.run call) e (Yields R hosts x.type s.scope)) :
    Simulates (Leaves tables.globals hosts last) pre (code.run call) (e >>= giveBack V last.result)
      (Done R hosts s.scope) := by
  obtain ⟨rfl, ⟨hslot, rfl⟩ | ⟨slot, z, hslot, hz, rfl⟩⟩ := returning_ok h
  · have hvoid : last.result = .void := hlast.slot.mp (hw.returnSlot ▸ hslot)
    have hgive : e >>= giveBack V last.result = (e >>= fun _ => pure ()) >>= fun _ => throw (.returned .void) := by
      simp only [bind_assoc, pure_bind]
      congr 1
      funext v
      rw [giveBack, if_pos hvoid]
    rw [Instr.run, catchBranch_none, runSequence_pair, hgive]
    refine hx.dropped.bind ?_
    rintro n v a u ⟨-, hagree⟩
    refine ⟨rfl, hvoid.symm, ?_, hagree.world⟩
    intro i hi
    rw [← hw.returnSlot, hslot] at hi
    cases hi
  · rw [hw.returnSlot] at hslot
    rw [hw.result] at hz
    have hresult : last.result ≠ .void := by
      intro hvoid
      rw [hlast.slot.mpr hvoid] at hslot
      cases hslot
    have hgive : e >>= giveBack V last.result =
        (e >>= fun v => attempt (v.convert last.result)) >>= fun w => throw (.returned w) := by
      rw [bind_assoc]
      congr 1
      funext v
      rw [giveBack, if_neg hresult]
    rw [Instr.run, catchBranch_none, runSequence_pair, hgive]
    simp only [Instr.run, bind_assoc (m := Run)]
    refine (hx.coerce hz).bind ?_
    rintro n v a u ⟨rfl, hv, hagree⟩
    have hlt := (List.getElem?_eq_some_iff.mp (hagree.slot slot hslot)).1
    rw [bind_of_ok (setLocal_run hlt)]
    refine ⟨rfl, hv, ?_, hagree.world⟩
    intro i hi
    rw [hslot] at hi
    cases hi
    simp [hlt]

lemma runSequence_cons (x : Instr) (xs : List Instr) : Wasm.runSequence call (x :: xs) = x.run call >>= fun v =>
    match xs with
    | [] => pure v
    | _ :: _ => Wasm.runSequence call xs := by
  cases xs <;> simp only [Wasm.runSequence]

lemma Simulates.sequence {c : Instr} {cs : List Instr} {f : Eval V.Frame Unit} {k : Eval V.Frame γ}
    (h : Simulates (Leaves tables.globals hosts last) pre (c.run call) f (Done R hosts sc))
    (hcs : Simulates (Leaves tables.globals hosts last) (Agree R hosts sc) (Wasm.runSequence call cs) k
      (Done R hosts sc')) :
    Simulates (Leaves tables.globals hosts last) pre (Wasm.runSequence call (c :: cs)) (f >>= fun _ => k)
      (Done R hosts sc') := by
  rw [runSequence_cons]
  refine h.bind ?_
  rintro n v a s ⟨rfl, hagree⟩
  cases cs with
  | nil => exact hcs a s hagree
  | cons => exact hcs a s hagree

lemma declaration_simulates (hlast : last.Complete) (hz : Lowering.coerce y type place = .ok z)
    (hw : (sc.declare name type).2.Within last)
    (hy : Simulates (Leaves tables.globals hosts last) pre (y.code.run call) e (Yields R hosts y.type sc)) :
    Simulates (Leaves tables.globals hosts last) pre ((Instr.localSet (sc.declare name type).1 z.code).run call)
      (e >>= fun v => attempt (v.convert type) >>= fun v => onFrame (V.declare · name type v))
      (Done R hosts (sc.declare name type).2) := by
  rw [Instr.run, ← bind_assoc e]
  refine (hy.coerce hz).bind ?_
  rintro n v a s ⟨rfl, rfl, hagree⟩
  rw [bind_of_ok (setLocal_run (declared_lt hagree hw))]
  exact ⟨rfl, hagree.declare hlast hw⟩

def Joint (separator : String) (first next : Instr) : Instr :=
  if separator = "&&" then .ifElse first next (i32Const 0) else .ifElse first (i32Const 1) next

lemma Simulates.joint {first next : Instr} {f k : Eval V.Frame Bool} {separator : String}
    {ds : List (String × ValueType)}
    (hfirst : Simulates (Leaves tables.globals hosts last) pre (first.run call) f (Tells R hosts sc))
    (hnext : Simulates (Leaves tables.globals hosts last) (Agree R hosts sc) (next.run call) k
      (Tells R hosts (sc.declareAll ds))) (hw : (sc.declareAll ds).Within last) :
    Simulates (Leaves tables.globals hosts last) pre ((Joint separator first next).run call)
      (f >>= fun b => if b = (separator == "&&") then k else onFrame (V.skip · ds) >>= fun _ => pure b)
      (Tells R hosts (sc.declareAll ds)) := by
  have hskip : ∀ b, Simulates (Leaves tables.globals hosts last) (Agree R hosts sc)
      ((i32Const (if b then 1 else 0)).run call) (onFrame (V.skip · ds) >>= fun _ => pure b)
      (Tells R hosts (sc.declareAll ds)) := by
    intro b a s hagree
    cases b <;> exact ⟨rfl, hagree.skip hw⟩
  unfold Joint
  by_cases hand : separator = "&&"
  · subst hand
    exact hfirst.ifElse hnext (hskip false)
  · have hbeq : (separator == "&&") = false := beq_false_of_ne hand
    rw [if_neg hand, hbeq]
    exact hfirst.ifElse (hskip true) hnext

end Constructs

end Keel.Lowering
