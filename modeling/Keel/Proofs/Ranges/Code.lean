import Keel.Proofs.Correctness.Calls
import Keel.Proofs.Ranges.Values

namespace Keel.Ranges

open Lowering
open Wasm (Instr Run Stop Caller Store BinaryOp Conversion)

def Knows (p : Program) (callee : String) (s : Signature) : Prop :=
  ∃ functions, functionTable p = .ok functions ∧ functions.lookup callee = some s

mutual

inductive HasRange (p : Program) (types : List ValueType) : Instr → ValueType → Prop
  | nop : HasRange p types .nop .void
  | const {v type} : InRange type (some v) → HasRange p types (.const v) type
  | localGet {i type} : types[i]? = some type → HasRange p types (.localGet i) type
  | localSet {i x type} : types[i]? = some type → HasRange p types x type → HasRange p types (.localSet i x) .void
  | localTee {i x type} : types[i]? = some type → HasRange p types x type → HasRange p types (.localTee i x) type
  | globalGet {name type} : p.globals.lookup name = some type → HasRange p types (.globalGet name) type
  | globalSet {name x type} : p.globals.lookup name = some type → HasRange p types x type →
      HasRange p types (.globalSet name x) .void
  | convert {op x a} : HasRange p types x a → HasRange p types (.convert op x) (full (Conversion.targetType op))
  | binary {op x y a b} : HasRange p types x a → HasRange p types y b →
      HasRange p types (.binary op x y) (full (BinaryOp.resultType op))
  | compare {t op x y a b} : HasRange p types x a → HasRange p types y b →
      HasRange p types (.binary (.compare t op) x y) .bool
  | shifted {bits x a type} : width? type = some bits → HasRange p types x a →
      HasRange p types (.binary .shiftRight x (i32Const (32 - bits))) type
  | call {callee s args} : Knows p callee s → ArgumentsHaveRanges p types args s.parameters →
      HasRange p types (.call callee args) s.result
  | drop {x a} : HasRange p types x a → HasRange p types (.drop x) .void
  | block {result body type} : SequenceHasRange p types body type → HasRange p types (.block none result body) type
  | labelled {label result body} : SequenceHasRange p types body .void →
      HasRange p types (.block (some label) result body) .void
  | ifThen {c x a} : IsCondition p types c → HasRange p types x a → HasRange p types (.ifThen c x) .void
  | br {label} : HasRange p types (.br label) .void
  | widen {x a b} : HasRange p types x a → Narrower a b → HasRange p types x b

inductive IsCondition (p : Program) (types : List ValueType) : Instr → Prop
  | single {x a} : HasRange p types x a → IsCondition p types x
  | choice {c x y} : IsCondition p types c → IsCondition p types x → IsCondition p types y →
      IsCondition p types (.ifElse c x y)

inductive SequenceHasRange (p : Program) (types : List ValueType) : List Instr → ValueType → Prop
  | nil : SequenceHasRange p types [] .void
  | last {x type} : HasRange p types x type → SequenceHasRange p types [x] type
  | cons {x y ys a type} : HasRange p types x a → SequenceHasRange p types (y :: ys) type →
      SequenceHasRange p types (x :: y :: ys) type

inductive ArgumentsHaveRanges (p : Program) (types : List ValueType) : List Instr → List ValueType → Prop
  | nil : ArgumentsHaveRanges p types [] []
  | cons {x xs a as} : HasRange p types x a → ArgumentsHaveRanges p types xs as →
      ArgumentsHaveRanges p types (x :: xs) (a :: as)

end

lemma SequenceHasRange.push {p : Program} {types : List ValueType} {x : Instr} {xs : List Instr}
    (hx : HasRange p types x .void) (hxs : SequenceHasRange p types xs .void) :
    SequenceHasRange p types (x :: xs) .void := by
  cases xs with
  | nil => exact .last hx
  | cons y ys => exact .cons hx hxs

structure StoreInRange (p : Program) (s : Store) : Prop where
  globals : List.Forall₂ (fun g e => g.1 = e.1 ∧ InRange g.2 (some e.2)) p.globals s.globals
  answers : ∀ f ∈ p.hosts, f.result ≠ .void → ∀ v ∈ (s.answers.lookup f.name).getD [], InRange f.result (some v)
  log : ∀ c ∈ s.log, ∃ f ∈ p.hosts, f.name = c.name ∧ AllInRange f.parameterTypes c.args

structure StateInRange (p : Program) (types : List ValueType) (s : Wasm.State) : Prop where
  store : StoreInRange p s.store
  locals : List.Forall₂ InRange types s.locals

section Keeps

variable {α β : Type} {inv : Wasm.State → Prop} {post : α → Prop} {post' : β → Prop} {x : Run α}

def Keeps (inv : Wasm.State → Prop) (x : Run α) (post : α → Prop) : Prop :=
  ∀ s, inv s → match x s with
    | .ok a t => post a ∧ inv t
    | .error _ t => inv t

lemma keeps_pure {a : α} (h : post a) : Keeps inv (pure a) post := fun _ hs => ⟨h, hs⟩

lemma keeps_throw (e : Stop) : Keeps inv (throw e) post := fun _ hs => hs

lemma Keeps.bind {f : α → Run β} (h : Keeps inv x post) (hf : ∀ a, post a → Keeps inv (f a) post') :
    Keeps inv (x >>= f) post' := by
  intro s hs
  have hx := h s hs
  simp only [Bind.bind, EStateM.bind]
  cases hr : x s with
  | ok a t =>
    rw [hr] at hx
    exact hf a hx.1 t hx.2
  | error e t =>
    rw [hr] at hx
    exact hx

lemma Keeps.map {f : α → β} (h : Keeps inv x post) (hf : ∀ a, post a → post' (f a)) : Keeps inv (f <$> x) post' := by
  rw [map_eq_pure_bind]
  exact h.bind fun a ha => keeps_pure (hf a ha)

lemma keeps_ofExcept {r : Except Stop α} (h : ∀ a, r = .ok a → post a) : Keeps inv (ofExcept r) post := by
  cases r with
  | ok a => exact keeps_pure (h a rfl)
  | error e => exact keeps_throw e

lemma Keeps.mono {post' : α → Prop} (h : Keeps inv x post) (hpost : ∀ a, post a → post' a) : Keeps inv x post' := by
  simpa using h.map (f := id) hpost

lemma Keeps.catchBranch {x : Run (Option Wasm.Value)} {post : Option Wasm.Value → Prop} {label : Option String}
    (h : Keeps inv x post) (hpost : post none) : Keeps inv (Run.catchBranch label x) post := by
  intro s hs
  have hx := h s hs
  unfold Run.catchBranch
  cases hr : x s with
  | ok v t =>
    rw [hr] at hx
    exact hx
  | error e t =>
    rw [hr] at hx
    cases e with
    | branch l =>
      simp only
      split_ifs
      · exact ⟨hpost, hx⟩
      · exact hx
    | _ => exact hx

end Keeps

section Steps

variable {p : Program} {types : List ValueType} {type : ValueType} {i : Nat} {name : String} {v : Option Wasm.Value}

lemma keeps_operand {inv : Wasm.State → Prop} (h : InRange type v) :
    Keeps inv (Run.operand v) fun w => InRange type (some w) := by
  cases v with
  | none => exact keeps_throw _
  | some w => exact keeps_pure h

lemma keeps_any {inv : Wasm.State → Prop} (v : Option Wasm.Value) : Keeps inv (Run.operand v) fun _ => True := by
  cases v with
  | none => exact keeps_throw _
  | some w => exact keeps_pure trivial

lemma keeps_result {inv : Wasm.State → Prop} {r : Except Stop Wasm.Value}
    (h : ∀ u, r = .ok u → InRange type (some u)) : Keeps inv (some <$> ofExcept r) (InRange type) :=
  (keeps_ofExcept h).map fun _ hu => hu

lemma operand_some (w : Wasm.Value) : Run.operand (some w) = pure w := rfl

lemma forall₂_getElem? {α β : Type} {R : α → β → Prop} {as : List α} {bs : List β} (h : List.Forall₂ R as bs) {a : α}
    {b : β} (ha : as[i]? = some a) (hb : bs[i]? = some b) : R a b := by
  obtain ⟨hi, rfl⟩ := List.getElem?_eq_some_iff.mp ha
  obtain ⟨hi', rfl⟩ := List.getElem?_eq_some_iff.mp hb
  exact h.get hi hi'

lemma forall₂_set {α β : Type} {R : α → β → Prop} {as : List α} {bs : List β} (h : List.Forall₂ R as bs) {a : α}
    {b : β} (ha : as[i]? = some a) (hb : R a b) : List.Forall₂ R as (bs.set i b) := by
  induction h generalizing i with
  | nil => cases ha
  | cons hd hrest ih =>
    cases i with
    | zero =>
      cases ha
      exact .cons hb hrest
    | succ i => exact .cons hd (ih ha)

lemma keeps_getLocal (h : types[i]? = some type) : Keeps (StateInRange p types) (Run.getLocal i) (InRange type) := by
  intro s hs
  simp only [Run.getLocal, get_bind]
  cases hv : s.locals[i]? with
  | none => exact hs
  | some v => exact ⟨forall₂_getElem? hs.locals h hv, hs⟩

lemma keeps_setLocal (h : types[i]? = some type) (hv : InRange type v) :
    Keeps (StateInRange p types) (Run.setLocal i v) fun _ => True := by
  intro s hs
  simp only [Run.setLocal, get_bind]
  split_ifs
  · exact ⟨trivial, hs.store, forall₂_set hs.locals h hv⟩
  · exact hs

lemma lookup_inRange {gs : List (String × ValueType)} {es : List (String × Wasm.Value)}
    (h : List.Forall₂ (fun g e => g.1 = e.1 ∧ InRange g.2 (some e.2)) gs es) (hg : gs.lookup name = some type)
    {v : Wasm.Value} (hv : es.lookup name = some v) : InRange type (some v) := by
  induction h with
  | nil => cases hg
  | @cons g e _ _ hd _ ih =>
    obtain ⟨hname, hrange⟩ := hd
    rw [List.lookup_cons] at hg hv
    rw [← hname] at hv
    cases hb : name == g.1 with
    | true =>
      rw [hb] at hg hv
      cases hg
      cases hv
      exact hrange
    | false =>
      rw [hb] at hg hv
      exact ih hg hv

lemma assign_inRange {gs : List (String × ValueType)} {es : List (String × Wasm.Value)}
    (h : List.Forall₂ (fun g e => g.1 = e.1 ∧ InRange g.2 (some e.2)) gs es) (hg : gs.lookup name = some type)
    {v : Wasm.Value} (hv : InRange type (some v)) :
    List.Forall₂ (fun g e => g.1 = e.1 ∧ InRange g.2 (some e.2)) gs (Wasm.assign name v es) := by
  induction h with
  | nil => exact .nil
  | @cons g e _ _ hd hrest ih =>
    rw [List.lookup_cons] at hg
    unfold Wasm.assign
    split_ifs with hname
    · have hbeq : (name == g.1) = true := by rw [hd.1, hname, beq_self_eq_true]
      rw [hbeq] at hg
      cases hg
      exact .cons ⟨hd.1, hv⟩ hrest
    · have hbeq : (name == g.1) = false := beq_false_of_ne fun h => hname (h.trans hd.1).symm
      rw [hbeq] at hg
      exact .cons hd (ih hg)

lemma keeps_getGlobal (h : p.globals.lookup name = some type) :
    Keeps (StateInRange p types) (Run.getGlobal name) fun v => InRange type (some v) := by
  intro s hs
  simp only [Run.getGlobal, get_bind]
  cases hv : s.store.globals.lookup name with
  | none => exact hs
  | some v => exact ⟨lookup_inRange hs.store.globals h hv, hs⟩

lemma keeps_setGlobal (h : p.globals.lookup name = some type) {v : Wasm.Value} (hv : InRange type (some v)) :
    Keeps (StateInRange p types) (Run.setGlobal name v) fun _ => True :=
  fun _ hs => ⟨trivial, ⟨assign_inRange hs.store.globals h hv, hs.store.answers, hs.store.log⟩, hs.locals⟩

end Steps

def CallsInRange (p : Program) (call : Caller) : Prop :=
  ∀ callee s, Knows p callee s → ∀ vs, AllInRange s.parameters vs → ∀ types,
    Keeps (StateInRange p types) (call callee vs) (InRange s.result)

section Runs

variable {p : Program} {types : List ValueType} {call : Caller}

mutual

lemma HasRange.keeps (hcall : CallsInRange p call) : ∀ {x : Instr} {type : ValueType}, HasRange p types x type →
    Keeps (StateInRange p types) (x.run call) (InRange type)
  | _, _, .nop => keeps_pure rfl
  | _, _, .const hv => keeps_pure hv
  | _, _, .localGet hi => keeps_getLocal hi
  | _, _, .localSet hi hx => by
    simp only [Instr.run]
    exact (hx.keeps hcall).bind fun v hv => (keeps_setLocal hi hv).bind fun _ _ => keeps_pure rfl
  | _, _, .localTee hi hx => by
    simp only [Instr.run]
    exact (hx.keeps hcall).bind fun v hv => (keeps_setLocal hi hv).bind fun _ _ => keeps_pure hv
  | _, _, .globalGet hname => by
    simp only [Instr.run]
    exact (keeps_getGlobal hname).map fun v hv => hv
  | _, _, .globalSet hname hx => by
    simp only [Instr.run]
    exact (hx.keeps hcall).bind fun v hv => (keeps_operand hv).bind fun w hw =>
      (keeps_setGlobal hname hw).bind fun _ _ => keeps_pure rfl
  | _, _, .convert hx => by
    simp only [Instr.run]
    refine (hx.keeps hcall).bind fun v hv => (keeps_operand hv).bind fun w hw => keeps_result fun u hu => ?_
    rw [← type_convert hu]
    exact inRange_full u
  | _, _, .binary hx hy => by
    simp only [Instr.run]
    refine (hx.keeps hcall).bind fun v hv => (keeps_operand hv).bind fun v _ => (hy.keeps hcall).bind fun w hw =>
      (keeps_operand hw).bind fun w _ => keeps_result fun u hu => ?_
    rw [← type_binary hu]
    exact inRange_full u
  | _, _, .compare hx hy => by
    simp only [Instr.run]
    refine (hx.keeps hcall).bind fun v hv => (keeps_operand hv).bind fun v _ => (hy.keeps hcall).bind fun w hw =>
      (keeps_operand hw).bind fun w _ => keeps_result fun u hu => ?_
    obtain ⟨b, rfl⟩ := compare_ok hu
    exact inRange_truth b
  | _, _, .shifted hbits hx => by
    simp only [Instr.run, i32Const, pure_bind]
    refine (hx.keeps hcall).bind fun v hv => (keeps_operand hv).bind fun v _ => ?_
    rw [operand_some, pure_bind]
    exact keeps_result fun u hu => inRange_shiftRight hbits hu
  | _, _, .call hs hargs => by
    simp only [Instr.run]
    exact (hargs.keeps hcall).bind fun vs hvs => hcall _ _ hs vs hvs types
  | _, _, .drop hx => by
    simp only [Instr.run]
    exact (hx.keeps hcall).bind fun _ _ => keeps_pure rfl
  | _, _, .block hbody => by
    simp only [Instr.run, catchBranch_none]
    exact hbody.keeps hcall
  | _, _, .labelled hbody => by
    simp only [Instr.run]
    exact (hbody.keeps hcall).catchBranch rfl
  | _, _, .ifThen hc hx => by
    simp only [Instr.run]
    refine (hc.keeps hcall).bind fun v _ => (keeps_any v).bind fun w _ => ?_
    split_ifs
    · exact (hx.keeps hcall).bind fun _ _ => keeps_pure rfl
    · exact keeps_pure rfl
  | _, _, .br => keeps_throw _
  | _, _, .widen hx hab => (hx.keeps hcall).mono fun _ hv => hv.widen hab

lemma IsCondition.keeps (hcall : CallsInRange p call) : ∀ {c : Instr}, IsCondition p types c →
    Keeps (StateInRange p types) (c.run call) fun _ => True
  | _, .single hx => (hx.keeps hcall).mono fun _ _ => trivial
  | _, .choice hc hx hy => by
    simp only [Instr.run]
    refine (hc.keeps hcall).bind fun v _ => (keeps_any v).bind fun w _ => ?_
    split_ifs
    · exact hx.keeps hcall
    · exact hy.keeps hcall

lemma SequenceHasRange.keeps (hcall : CallsInRange p call) : ∀ {xs : List Instr} {type : ValueType},
    SequenceHasRange p types xs type →
    Keeps (StateInRange p types) (Wasm.runSequence call xs) (InRange type)
  | _, _, .nil => keeps_pure rfl
  | _, _, .last hx => by
    rw [runSequence_cons]
    exact (hx.keeps hcall).bind fun _ hv => keeps_pure hv
  | _, _, .cons hx hrest => by
    rw [runSequence_cons]
    exact (hx.keeps hcall).bind fun _ _ => hrest.keeps hcall

lemma ArgumentsHaveRanges.keeps (hcall : CallsInRange p call) : ∀ {xs : List Instr} {as : List ValueType},
    ArgumentsHaveRanges p types xs as →
    Keeps (StateInRange p types) (Wasm.runArguments call xs) (AllInRange as)
  | _, _, .nil => keeps_pure .nil
  | _, _, .cons hx hrest => by
    simp only [Wasm.runArguments]
    exact (hx.keeps hcall).bind fun _ hv => (keeps_operand hv).bind fun _ hw => (hrest.keeps hcall).bind fun _ hws =>
      keeps_pure (.cons hw hws)

end

end Runs

end Keel.Ranges
