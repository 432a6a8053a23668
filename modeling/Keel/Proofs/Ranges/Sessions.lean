import Keel.Proofs.Ranges.Calls

/-! Numbers stay in range at all moments of a session. -/

namespace Keel

namespace Ranges

open Lowering
open Wasm (Instr Run Stop Caller Store Moment)

variable {p : Program} {m : Wasm.Module} {b : Outline} {moment : Moment}

def finalState {α : Type} : EStateM.Result Stop Wasm.State α → Wasm.State
  | .ok _ s | .error _ s => s

/-- Before and after an instruction of a function runs all numbers are in range. So is what it leaves if it is the
code of an expression or the body of the function. -/
structure MomentInRange (p : Program) (m : Wasm.Module) (b : Outline) (moment : Moment) : Prop where
  before : StateInRange p b.types moment.state
  after : StateInRange p b.types (finalState (m.outcome moment))
  expression : ∀ (tables : Tables), functionTable p = .ok tables.functions → globalTable p = .ok tables.globals →
    ∀ (e : Expr) (s t : State) (x : Lowered), (∀ l ∈ e.literals, IsTruth l) → expression tables e s = .ok (x, t) →
    t.scope.Within b.scope → moment.code = x.code → ∀ v u, m.outcome moment = .ok v u → InRange x.type v
  result : moment.code = moment.function.body → ∀ v u, m.outcome moment = .ok v u → InRange b.result v

lemma Keeps.finalState {α : Type} {inv : Wasm.State → Prop} {post : α → Prop} {x : Run α} (h : Keeps inv x post)
    {s : Wasm.State} (hs : inv s) : inv (Ranges.finalState (x s)) := by
  have hr := h s hs
  cases hx : x s with
  | ok a t =>
    rw [hx] at hr
    exact hr.2
  | error e t =>
    rw [hx] at hr
    exact hr

lemma reached_inRange (hm : ModuleInRange p m) {f : Wasm.Function} (hf : FunctionInRange p b f) {depth : Nat}
    {x : Instr} {t : Wasm.State} (h : Reached p b.types x t) : MomentInRange p m b ⟨f, depth, x, t⟩ := by
  obtain ⟨hx, ht⟩ := h
  have hcall := invoke_inRange hm depth
  refine ⟨ht, (hx.keeps hcall).finalState ht, ?_, ?_⟩
  · intro tables hfunctions hglobals e s u y htruth hy hw hcode v t' hv
    have hrange := expression_ranged (outline_places hfunctions hglobals b) e htruth hy hw
    have hcode : x = y.code := hcode
    subst hcode
    exact ((hrange.keeps hcall).of_ok ht hv).1
  · intro hcode v t' hv
    have hcode : x = f.body := hcode
    subst hcode
    exact ((hf.body.keeps hcall).of_ok ht hv).1

lemma HasRange.arguments {types : List ValueType} : ∀ {x : Instr} {type : ValueType}, HasRange p types x type →
    ∀ ⦃callee args⦄, x = .call callee args → ∃ s, Knows p callee s ∧ ArgumentsHaveRanges p types args s.parameters
  | _, _, .call hs hargs => by
    rintro callee args ⟨⟩
    exact ⟨_, hs, hargs⟩
  | _, _, .widen h _ => h.arguments
  | _, _, .nop | _, _, .const _ | _, _, .localGet _ | _, _, .localSet _ _ | _, _, .localTee _ _ | _, _, .globalGet _
  | _, _, .globalSet _ _ | _, _, .convert _ | _, _, .binary _ _ | _, _, .compare _ _ | _, _, .shifted _ _
  | _, _, .drop _ | _, _, .block _ | _, _, .labelled _ | _, _, .ifThen _ _ | _, _, .br => by
    rintro callee args ⟨⟩

section Visits

variable {depth : Nat} {name : String} {vs : List Wasm.Value} {store : Store} (hm : ModuleInRange p m)

include hm

lemma visits_inRange (hvs : ∀ b ∈ p.outlines, b.name = name → AllInRange b.parameterTypes vs)
    (hstore : StoreInRange p store) (h : m.Visits depth name vs store moment) :
    ∃ b ∈ p.outlines, b.name = moment.function.name ∧ MomentInRange p m b moment := by
  induction h with
  | own hf hr =>
    obtain ⟨b, hb, hname, hrange⟩ := exists_outline hm.functions hf
    have hreached := hrange.body.reaches (invoke_inRange hm _) (entry_inRange hrange (hvs b hb hname) hstore) hr
    exact ⟨b, hb, hrange.name.symm, reached_inRange hm hrange hreached⟩
  | inner hf hr hargs _ ih =>
    obtain ⟨b, hb, hname, hrange⟩ := exists_outline hm.functions hf
    obtain ⟨hcode, ht⟩ := hrange.body.reaches (invoke_inRange hm _) (entry_inRange hrange (hvs b hb hname) hstore) hr
    -- The call is reached in a store that is in range, and so are the arguments that it computes there.
    cases hcode with
    | single hcode =>
      obtain ⟨s, hs, hgiven⟩ := hcode.arguments rfl
      obtain ⟨hgiven, hu⟩ := (hgiven.keeps (invoke_inRange hm _)).of_ok ht hargs
      refine ih (fun b' hb' hname' => ?_) hu.store
      rw [(hs.coherent hm.coherent hb' hname').1]
      exact hgiven

omit hm in
lemma StoreInRange.forget (h : StoreInRange p store) : StoreInRange p { store with log := [] } :=
  ⟨h.globals, h.answers, fun _ hc => nomatch hc⟩

lemma outline_all (hb : b ∈ p.outlines) (hvs : AllInRange b.parameterTypes vs) :
    ∀ b' ∈ p.outlines, b'.name = b.name → AllInRange b'.parameterTypes vs := by
  intro b' hb' hname
  rwa [List.inj_on_of_nodup_map hm.distinct hb' hb hname]

lemma keeps_outline (hb : b ∈ p.outlines) (hvs : AllInRange b.parameterTypes vs) (depth : Nat)
    (types : List ValueType) : Keeps (StateInRange p types) (m.invoke depth b.name vs) (InRange b.result) := by
  cases depth with
  | zero => exact keeps_throw _
  | succ depth =>
    simp only [Wasm.Module.invoke]
    cases hf : m.function? b.name with
    | some f =>
      obtain ⟨b', hb', hname, hrange⟩ := exists_outline hm.functions hf
      obtain rfl := List.inj_on_of_nodup_map hm.distinct hb' hb hname
      exact keeps_body (invoke_inRange hm depth) hrange hvs
    | none =>
      obtain ⟨i, hi, rfl⟩ := List.getElem_of_mem hb
      have hi' : i < m.functions.length := hm.functions.length_eq ▸ hi
      have hname := (hm.functions.get hi hi').name
      exact absurd hname (by simpa using List.find?_eq_none.mp hf _ (List.getElem_mem hi'))

lemma step_inRange (hb : b ∈ p.outlines) (hvs : AllInRange b.parameterTypes vs) (hstore : StoreInRange p store) :
    StoreInRange p (m.step depth store b.name vs).2 := by
  have hr := (keeps_outline hm hb hvs depth []).finalState (s := ⟨{ store with log := [] }, []⟩)
    ⟨hstore.forget, .nil⟩
  unfold Wasm.Module.step
  cases hx : m.invoke depth b.name vs ⟨{ store with log := [] }, []⟩ with
  | ok v t =>
    rw [hx] at hr
    exact hr.store
  | error e t =>
    rw [hx] at hr
    exact hr.store

lemma visitsAll_inRange {calls : List (String × List Wasm.Value)} (hcalls : ∀ c ∈ calls, ∃ b ∈ p.outlines,
    b.name = c.1 ∧ AllInRange b.parameterTypes c.2) (hstore : StoreInRange p store)
    (h : m.VisitsAll depth store calls moment) :
    ∃ b ∈ p.outlines, b.name = moment.function.name ∧ MomentInRange p m b moment := by
  induction h with
  | first h =>
    obtain ⟨b, hb, rfl, hvs⟩ := hcalls _ (List.mem_cons_self ..)
    exact visits_inRange hm (outline_all hm hb hvs) hstore.forget h
  | later _ ih =>
    obtain ⟨b, hb, rfl, hvs⟩ := hcalls _ (List.mem_cons_self ..)
    exact ih (fun c hc => hcalls c (List.mem_cons_of_mem _ hc)) (step_inRange hm hb hvs hstore)

lemma begin_inRange (hstore : StoreInRange p store) : StoreInRange p (m.begin depth store).2 := by
  unfold Wasm.Module.begin
  cases hs : m.start with
  | none => exact hstore
  | some name =>
    obtain ⟨b, hb, rfl, hparameters⟩ := hm.start name hs
    exact step_inRange hm hb (hparameters ▸ .nil) hstore

lemma inSession_inRange {answers : List (String × List Wasm.Value)} {calls : List (String × List Wasm.Value)}
    (hstore : StoreInRange p (m.initialStore answers))
    (hcalls : ∀ c ∈ calls, ∃ b ∈ p.outlines, b.name = c.1 ∧ AllInRange b.parameterTypes c.2)
    (h : m.InSession depth answers calls moment) :
    ∃ b ∈ p.outlines, b.name = moment.function.name ∧ MomentInRange p m b moment := by
  cases h with
  | start hs h =>
    obtain ⟨b, hb, rfl, hparameters⟩ := hm.start _ hs
    exact visits_inRange hm (outline_all hm hb (hparameters ▸ .nil)) hstore h
  | call _ h => exact visitsAll_inRange hm hcalls (begin_inRange hm hstore) h

end Visits

section Modules

variable {tables : Tables} {exported : Bool} {code : List Instr} {s : State} (hm : Comprises p exported tables code s m)

include hm

lemma comprises_inRange (htruth : ∀ l ∈ p.literals, IsTruth l) (hnames : m.functionNames.Nodup)
    (hcoherent : p.Coherent) : ModuleInRange p m where
  functions := functions_inRange hm htruth
  imports := hm.imports
  start := by
    intro name hname
    rw [hm.start, Option.map_eq_some_iff] at hname
    obtain ⟨f, hf, rfl⟩ := hname
    rw [startFunction_name hf]
    refine ⟨p.startOutline, ?_, rfl, rfl⟩
    unfold startFunction at hf
    split_ifs at hf with hall
    unfold Program.outlines
    rw [if_neg hall]
    exact List.mem_append_right _ (List.mem_singleton_self _)
  distinct := by
    have hsame : p.outlines.map Outline.name = m.functions.map Wasm.Function.name := by
      have hfunctions := functions_inRange hm htruth
      generalize p.outlines = bs at hfunctions
      generalize m.functions = fs at hfunctions
      induction hfunctions with
      | nil => rfl
      | cons hd _ ih => rw [List.map_cons, List.map_cons, hd.name, ih]
    rw [hsame]
    exact List.Nodup.of_append_right hnames
  coherent := hcoherent

lemma initial_inRange {answers : List (String × List Wasm.Value)}
    (hanswers : ∀ f ∈ p.hosts, f.result ≠ .void → ∀ v ∈ (answers.lookup f.name).getD [], InRange f.result (some v)) :
    StoreInRange p (m.initialStore answers) where
  globals := by
    obtain ⟨hglobals, -, hvoid⟩ := globalTable_ok hm.globalTable
    rw [hglobals] at hvoid
    unfold Wasm.Module.initialStore
    rw [hm.globals, List.map_map, List.forall₂_map_right_iff, List.forall₂_same]
    rintro ⟨name, type⟩ hg
    refine ⟨rfl, ?_⟩
    have hzero := inRange_zero type
    cases type <;> first | exact hzero | exact absurd rfl (hvoid _ hg)
  answers := hanswers
  log := fun _ hc => nomatch hc

end Modules

end Ranges

open Lowering Ranges

variable {p : Program} {exported : Bool} {m : Wasm.Module}

/-- At all moments of a session all numbers are in the range of the types for which they stand, if what comes from
outside is, if literals of type `bool` stand for zero or one, and if each function of the module has the signature
with which it is called. -/
theorem session_inRange (h : compile p exported = .ok m) (hnames : m.functionNames.Nodup) (hcoherent : p.Coherent)
    (htruth : ∀ l ∈ p.literals, IsTruth l) (depth : Nat) {answers : List (String × List Wasm.Value)}
    (hanswers : ∀ f ∈ p.hosts, f.result ≠ .void → ∀ v ∈ (answers.lookup f.name).getD [], InRange f.result (some v))
    {calls : List (String × List Wasm.Value)}
    (hcalls : ∀ c ∈ calls, ∃ d ∈ p.definitions, d.signature.name = c.1 ∧
      AllInRange (d.parameters.map Parameter.type) c.2)
    {moment : Wasm.Moment} (hmoment : m.InSession depth answers calls moment) :
    ∃ b ∈ p.outlines, b.name = moment.function.name ∧ MomentInRange p m b moment := by
  obtain ⟨hlower, -⟩ := compile_ok h
  obtain ⟨tables, code, s, hm⟩ := lower_ok hlower
  refine inSession_inRange (comprises_inRange hm htruth hnames hcoherent) (initial_inRange hm hanswers) ?_ hmoment
  intro c hc
  obtain ⟨d, hd, hname, hvs⟩ := hcalls c hc
  exact ⟨d.outline, List.mem_append_left _ (List.mem_map.mpr ⟨d, hd, rfl⟩), hname, hvs⟩

def narrowSource : String :=
  "fn ask(i8 n)->i8;bool b=1;i16 t=300;fn f(i64 n,bool c)->i8\x7bi8 a=n;if(c==b)\x7ba=a*a;t=t*t;\x7d" ++
  "return ask(a)/(0-1);\x7dif(t>3)\x7bi8 k=t;t=f(k,t>0);\x7d"

def narrowCalls : List (String × List Wasm.Value) := [("f", [.i64 200, .i32 1])]

def narrowAnswers : List (String × List Wasm.Value) := [("ask", [.i32 (-128), .i32 127])]

theorem session_inRange_narrow : ∃ p m, parseText narrowSource .standard = .ok p ∧ compile p true = .ok m ∧
    (∀ moment, m.InSession 3 narrowAnswers narrowCalls moment →
      ∃ b ∈ p.outlines, b.name = moment.function.name ∧ MomentInRange p m b moment) ∧
    (m.session 3 narrowAnswers narrowCalls).steps.map (fun step => step.outcome) = [.ok (some (.i32 (-127)))] := by
  obtain ⟨p, m, hp, hm, hnames, hcoherent, htruth, hanswers, hcalls, hsteps⟩ := exists_compiled
    (P := fun p m => m.functionNames.Nodup ∧ p.Coherent ∧ (∀ l ∈ p.literals, IsTruth l) ∧
      (∀ f ∈ p.hosts, f.result ≠ .void →
        ∀ v ∈ (narrowAnswers.lookup f.name).getD [], InRange f.result (some v)) ∧
      (∀ c ∈ narrowCalls, ∃ d ∈ p.definitions, d.signature.name = c.1 ∧
        AllInRange (d.parameters.map Parameter.type) c.2) ∧
      (m.session 3 narrowAnswers narrowCalls).steps.map (fun step => step.outcome) = [.ok (some (.i32 (-127)))])
    (show checkCompiled narrowSource _ = true by decide +kernel)
  exact ⟨p, m, hp, hm, fun _ h => session_inRange hm hnames hcoherent htruth 3 hanswers hcalls h, hsteps⟩

def incoherentSource : String :=
  "fn main()->i8\x7bfn g(i32 n)->i8;return g(200);\x7dreturn if(1<2)\x7bfn g(i8 n)->i8\x7breturn n;\x7d\x7d;"

theorem session_outOfRange : ∃ p m, parseText incoherentSource .standard = .ok p ∧ compile p true = .ok m ∧
    m.functionNames.Nodup ∧ (∀ l ∈ p.literals, IsTruth l) ∧ p.hosts = [] ∧
    (∃ d ∈ p.definitions, d.signature.name = "main" ∧ d.parameters = [] ∧ d.signature.result = .i8) ∧
    (m.session 3 [] [("main", [])]).steps.map (fun step => step.outcome) = [.ok (some (.i32 200))] ∧
    ¬ InRange .i8 (some (.i32 200)) :=
  exists_compiled (by decide +kernel)

end Keel
