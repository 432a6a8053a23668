import Keel.Proofs.Ranges.Widening

/-! Truth values are zero or one at all moments of a session, whatever small integers come from outside. -/

namespace Keel

namespace Ranges

open Lowering
open Wasm (Instr Moment)

/-- What code may leave for a value of a type: a number of the kind that the type is held in, and zero or one for a
truth value. -/
def IsProper (type : ValueType) (v : Option Wasm.Value) : Prop :=
  v.map Wasm.Value.type = type.numType? ∧ (type = .bool → v = some (.i32 0) ∨ v = some (.i32 1))

instance (type : ValueType) (v : Option Wasm.Value) : Decidable (IsProper type v) :=
  inferInstanceAs (Decidable (_ ∧ (type = .bool → _ ∨ _)))

def AllProper (types : List ValueType) (vs : List Wasm.Value) : Prop :=
  List.Forall₂ (fun type v => IsProper type (some v)) types vs

instance (types : List ValueType) (vs : List Wasm.Value) : Decidable (AllProper types vs) :=
  inferInstanceAs (Decidable (List.Forall₂ _ types vs))

structure StateProper (p : Program) (types : List ValueType) (s : Wasm.State) : Prop where
  locals : List.Forall₂ IsProper types s.locals
  globals : List.Forall₂ (fun g e => g.1 = e.1 ∧ IsProper g.2 (some e.2)) p.globals s.store.globals
  passed : ∀ c ∈ s.store.log, ∃ f ∈ p.hosts, f.name = c.name ∧ AllProper f.parameterTypes c.args

section Values

variable {type : ValueType} {v : Option Wasm.Value}

lemma eq_zero_or_one {b : BitVec 32} (hleast : 0 ≤ b.toInt) (hgreatest : b.toInt ≤ 1) : b = 0 ∨ b = 1 := by
  have hcases : b.toInt = (0 : BitVec 32).toInt ∨ b.toInt = (1 : BitVec 32).toInt := by
    rw [show (0 : BitVec 32).toInt = 0 from rfl, show (1 : BitVec 32).toInt = 1 from rfl]
    omega
  exact hcases.imp BitVec.eq_of_toInt_eq BitVec.eq_of_toInt_eq

lemma InRange.kind (h : InRange type v) : v.map Wasm.Value.type = type.numType? := by
  rcases v with _ | (x | x | x | x)
  case some.i32 => exact h.1.symm
  all_goals exact h.symm

lemma widened_eq_full {t : Wasm.NumType} (h : type.numType? = some t) (hbool : type ≠ .bool) :
    type.widened = full t := by
  cases type <;> cases h <;> first | rfl | exact absurd rfl hbool

lemma inRange_widened_iff : InRange type.widened v ↔ IsProper type v := by
  constructor
  · intro h
    refine ⟨h.kind.trans (numType?_widened type), ?_⟩
    rintro rfl
    rcases v with _ | (x | x | x | x)
    case some.i32 =>
      obtain rfl | rfl := eq_zero_or_one h.2.1 h.2.2
      · exact .inl rfl
      · exact .inr rfl
    all_goals cases h
  · rintro ⟨hkind, htruth⟩
    by_cases hbool : type = .bool
    · obtain rfl | rfl := htruth hbool <;> subst hbool <;> decide
    · cases v with
      | none => exact (numType?_widened type).trans hkind.symm
      | some v =>
        rw [widened_eq_full hkind.symm hbool]
        exact inRange_full v

lemma allInRange_widened_iff {types : List ValueType} {vs : List Wasm.Value} :
    AllInRange (types.map ValueType.widened) vs ↔ AllProper types vs := by
  unfold AllInRange AllProper
  rw [List.forall₂_map_left_iff]
  simp only [inRange_widened_iff]

end Values

section States

variable {p : Program} {types : List ValueType} {s : Wasm.State} {f : Prototype}

lemma StateInRange.proper (h : StateInRange p.widened (types.map ValueType.widened) s) : StateProper p types s where
  locals := by
    have hlocals := h.locals
    rw [List.forall₂_map_left_iff] at hlocals
    exact hlocals.imp fun _ _ hv => inRange_widened_iff.mp hv
  globals := by
    have hglobals := h.store.globals
    rw [Program.widened, Program.globals_mapped, List.forall₂_map_left_iff] at hglobals
    exact hglobals.imp fun _ _ hg => ⟨hg.1, inRange_widened_iff.mp hg.2⟩
  passed := by
    intro c hc
    obtain ⟨f', hf', hname, hargs⟩ := h.store.log c hc
    rw [Program.widened, Program.hosts_mapped] at hf'
    obtain ⟨f, hf, rfl⟩ := List.mem_map.mp hf'
    exact ⟨f, hf, hname, allInRange_widened_iff.mp hargs⟩

lemma initial_widened {tables : Tables} {exported : Bool} {code : List Instr} {s : State} {m : Wasm.Module}
    (hm : Comprises p exported tables code s m) {answers : List (String × List Wasm.Value)}
    (hanswers : ∀ f ∈ p.hosts, f.result ≠ .void → ∀ v ∈ (answers.lookup f.name).getD [], IsProper f.result (some v)) :
    StoreInRange p.widened (m.initialStore answers) where
  globals := by
    have hzero : StoreInRange p (m.initialStore []) := initial_inRange hm fun _ _ _ _ hv => nomatch hv
    rw [Program.widened, Program.globals_mapped, List.forall₂_map_left_iff]
    exact hzero.globals.imp fun _ _ hg => ⟨hg.1, hg.2.widen (narrower_widened _)⟩
  answers := by
    intro f' hf' hvoid v hv
    rw [Program.widened, Program.hosts_mapped] at hf'
    obtain ⟨f, hf, rfl⟩ := List.mem_map.mp hf'
    exact inRange_widened_iff.mpr (hanswers f hf (mt widened_eq_void.mpr hvoid) v hv)
  log := fun _ hc => nomatch hc

end States

section Equality

variable {tables : Tables} {e : Expr} {x : Lowered} {s t : State}

def comparedWithTrue (place : Position) (e : Expr) : Expr := .binary place "==" e (.number place (.ofInt 1) .bool)

lemma expression_comparedWithTrue (h : expression tables e s = .ok (x, t)) (htype : x.type = .bool)
    (place : Position) : expression tables (comparedWithTrue place e) s =
      .ok (⟨.binary (.compare .i32 .eq) x.code (.const (.i32 1)), .bool⟩, t) := by
  obtain ⟨code, type⟩ := x
  obtain rfl : type = .bool := htype
  have hliteral : literal (.ofInt 1) .bool place = .ok ⟨.const (.i32 1), .bool⟩ := rfl
  have hoperation : operation place "==" ⟨code, .bool⟩ ⟨.const (.i32 1), .bool⟩ =
      .ok ⟨.binary (.compare .i32 .eq) code (.const (.i32 1)), .bool⟩ := rfl
  simp only [comparedWithTrue, expression, if_neg (show "==" ≠ "=" by decide)]
  exact Lower.bind_ok.mpr ⟨_, t, h, Lower.bind_ok.mpr ⟨_, t, Lower.lift_ok.mpr ⟨hliteral, rfl⟩,
    Lower.lift_ok.mpr ⟨hoperation, rfl⟩⟩⟩

lemma expression_castToBool (h : expression tables e s = .ok (x, t)) (htype : x.type = .bool) (place : Position) :
    expression tables (.cast place .bool e) s = .ok (x, t) := by
  rw [expression]
  exact Lower.bind_ok.mpr ⟨x, t, h, Lower.lift_ok.mpr ⟨if_pos htype, rfl⟩⟩

lemma run_comparedWithTrue {call : Wasm.Caller} {code : Instr} {s : Wasm.State}
    (h : ∀ v u, code.run call s = .ok v u → v = some (.i32 0) ∨ v = some (.i32 1)) :
    (Instr.binary (.compare .i32 .eq) code (.const (.i32 1))).run call s = code.run call s := by
  simp only [Instr.run, bind, EStateM.bind]
  cases hcode : code.run call s with
  | error e u => rfl
  | ok v u => obtain rfl | rfl := h v u hcode <;> rfl

end Equality

/-- Before and after an instruction of a function runs, truth values are zero or one. So is what it leaves if it is
the code of an expression of type `bool` or the body of such a function. Comparing the expression with `true` then has
the outcome of the expression, and so does its conversion to `bool`. -/
structure MomentProper (p : Program) (m : Wasm.Module) (b : Outline) (moment : Moment) : Prop where
  before : StateProper p b.types moment.state
  after : StateProper p b.types (finalState (m.outcome moment))
  result : moment.code = moment.function.body → ∀ v u, m.outcome moment = .ok v u → IsProper b.result v
  expression : ∀ (tables : Tables), functionTable p = .ok tables.functions → globalTable p = .ok tables.globals →
    ∀ (e : Expr) (s t : State) (x : Lowered), (∀ l ∈ e.literals, IsTruth l) → expression tables e s = .ok (x, t) →
    t.scope.Within b.scope → moment.code = x.code →
      (∀ v u, m.outcome moment = .ok v u → IsProper x.type v) ∧
      (x.type = .bool → ∀ place, ∃ y z, Lowering.expression tables (comparedWithTrue place e) s = .ok (y, t) ∧
        Lowering.expression tables (.cast place .bool e) s = .ok (z, t) ∧ y.type = .bool ∧ z.type = .bool ∧
        m.outcome { moment with code := y.code } = m.outcome moment ∧
        m.outcome { moment with code := z.code } = m.outcome moment)

variable {p : Program} {m : Wasm.Module} {b : Outline} {moment : Moment}

lemma MomentInRange.proper (hm : ModuleInRange p m) (h : MomentInRange p.widened m b.widened moment) :
    MomentProper p m b moment := by
  have hbefore := h.before
  have hafter := h.after
  rw [types_widened] at hbefore hafter
  refine ⟨hbefore.proper, hafter.proper, fun hbody v u hv => inRange_widened_iff.mp (h.result hbody v u hv), ?_⟩
  intro tables hfunctions hglobals e s t x htruth hx hw hcode
  have hvalue : ∀ v u, m.outcome moment = .ok v u → IsProper x.type v := by
    intro v u hv
    -- The program itself tells the type of the code, the wide one what the state holds.
    have hrange := (expression_ranged (outline_places hfunctions hglobals b) e htruth hx hw).widened
    have hkeeps := hrange.keeps (invoke_inRange hm.widened moment.depth)
    unfold Wasm.Module.outcome at hv
    rw [hcode] at hv
    exact inRange_widened_iff.mp (hkeeps.of_ok hbefore hv).1
  refine ⟨hvalue, fun htype place => ?_⟩
  refine ⟨_, _, expression_comparedWithTrue hx htype place, expression_castToBool hx htype place, rfl, htype, ?_, ?_⟩
  · have htruths : ∀ v u, x.code.run (m.invoke moment.depth) moment.state = .ok v u →
        v = some (.i32 0) ∨ v = some (.i32 1) := by
      rw [← hcode]
      exact fun v u hv => (hvalue v u hv).2 htype
    unfold Wasm.Module.outcome
    rw [hcode]
    exact run_comparedWithTrue htruths
  · unfold Wasm.Module.outcome
    rw [hcode]

end Ranges

open Lowering Ranges

variable {p : Program} {exported : Bool} {m : Wasm.Module}

/-- At all moments of a session truth values are zero or one, whatever else comes from outside, if literals of type
`bool` stand for zero or one and if each function of the module has the signature with which it is called. -/
theorem session_proper (h : compile p exported = .ok m) (hnames : m.functionNames.Nodup) (hcoherent : p.Coherent)
    (htruth : ∀ l ∈ p.literals, IsTruth l) (depth : Nat) {answers : List (String × List Wasm.Value)}
    (hanswers : ∀ f ∈ p.hosts, f.result ≠ .void → ∀ v ∈ (answers.lookup f.name).getD [], IsProper f.result (some v))
    {calls : List (String × List Wasm.Value)}
    (hcalls : ∀ c ∈ calls, ∃ d ∈ p.definitions, d.signature.name = c.1 ∧
      AllProper (d.parameters.map Parameter.type) c.2)
    {moment : Wasm.Moment} (hmoment : m.InSession depth answers calls moment) :
    ∃ b ∈ p.outlines, b.name = moment.function.name ∧ MomentProper p m b moment := by
  obtain ⟨hlower, -⟩ := compile_ok h
  obtain ⟨tables, code, s, hm⟩ := lower_ok hlower
  have hmodule := comprises_inRange hm htruth hnames hcoherent
  have hwide : ∀ c ∈ calls, ∃ b ∈ p.widened.outlines, b.name = c.1 ∧ AllInRange b.parameterTypes c.2 := by
    intro c hc
    obtain ⟨d, hd, hname, hvs⟩ := hcalls c hc
    refine ⟨d.outline.widened, ?_, hname, ?_⟩
    · rw [outlines_widened]
      exact List.mem_map_of_mem (List.mem_append_left _ (List.mem_map_of_mem hd))
    · rw [parameterTypes_widened]
      exact allInRange_widened_iff.mpr hvs
  obtain ⟨b', hb', hname, hrange⟩ :=
    inSession_inRange hmodule.widened (initial_widened hm hanswers) hwide hmoment
  rw [outlines_widened] at hb'
  obtain ⟨b, hb, rfl⟩ := List.mem_map.mp hb'
  exact ⟨b, hb, hname, hrange.proper hmodule⟩

def truthSource : String :=
  "fn ask(i8 n)->bool;bool seen=false;fn f(i8 n,bool c)->bool\x7bbool a=n;if(c==a)\x7bseen=ask(n);a=c+seen;\x7d" ++
  "return a+a;\x7dif(2>1)\x7bbool k=1;seen=k;\x7d"

def truthCalls : List (String × List Wasm.Value) := [("f", [.i32 1000, .i32 1])]

def truthAnswers : List (String × List Wasm.Value) := [("ask", [.i32 1])]

theorem session_proper_sum : ∃ p m, parseText truthSource .standard = .ok p ∧ compile p true = .ok m ∧
    (∀ moment, m.InSession 3 truthAnswers truthCalls moment →
      ∃ b ∈ p.outlines, b.name = moment.function.name ∧ MomentProper p m b moment) ∧
    (m.session 3 truthAnswers truthCalls).steps.map (fun step => step.outcome) = [.ok (some (.i32 1))] ∧
    ¬ InRange .i8 (some (.i32 1000)) := by
  obtain ⟨p, m, hp, hm, hnames, hcoherent, htruth, hanswers, hcalls, hsteps⟩ := exists_compiled
    (P := fun p m => m.functionNames.Nodup ∧ p.Coherent ∧ (∀ l ∈ p.literals, IsTruth l) ∧
      (∀ f ∈ p.hosts, f.result ≠ .void →
        ∀ v ∈ (truthAnswers.lookup f.name).getD [], IsProper f.result (some v)) ∧
      (∀ c ∈ truthCalls, ∃ d ∈ p.definitions, d.signature.name = c.1 ∧
        AllProper (d.parameters.map Parameter.type) c.2) ∧
      (m.session 3 truthAnswers truthCalls).steps.map (fun step => step.outcome) = [.ok (some (.i32 1))])
    (show checkCompiled truthSource _ = true by decide +kernel)
  exact ⟨p, m, hp, hm, fun _ h => session_proper hm hnames hcoherent htruth 3 hanswers hcalls h, hsteps, by decide⟩

theorem session_improper : ∃ p m,
    parseText "fn f() -> bool \x7b return 2; \x7d\n" .standard = .ok p ∧ compile p true = .ok m ∧
    m.functionNames.Nodup ∧ p.Coherent ∧ p.hosts = [] ∧
    (∃ d ∈ p.definitions, d.signature.name = "f" ∧ d.parameters = [] ∧ d.signature.result = .bool) ∧
    (m.session 3 [] [("f", [])]).steps.map (fun step => step.outcome) = [.ok (some (.i32 2))] ∧
    ¬ IsProper .bool (some (.i32 2)) :=
  exists_compiled (by decide +kernel)

end Keel
