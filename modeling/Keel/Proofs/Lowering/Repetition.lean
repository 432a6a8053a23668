import Keel.Proofs.Lowering.Readdressing
import Keel.Proofs.Lowering.Signatures

namespace Keel.Lowering

open Lower
open Wasm (Instr Segment)

structure Tables.Alike (a b : Tables) : Prop where
  functions : ∀ callee, a.functions.lookup callee = b.functions.lookup callee
  globals : a.globals = b.globals

lemma StringTable.Within.segments {a b : StringTable} (h : a.Within b) : a.segments ⊆ b.segments :=
  List.map_subset _ (List.IsPrefix.subset h)

lemma segments_of_intern (table : StringTable) (value : String) :
    ⟨(table.intern value).1, StringTable.bytes value⟩ ∈ (table.intern value).2.segments := by
  have hlookup := StringTable.lookup_intern table value
  exact List.mem_map.mpr ⟨_, mem_of_lookup hlookup, rfl⟩

lemma Adds.segments {tables : Tables} {es : List Entity} {s t : State} (h : Adds tables es s t) :
    s.strings.segments ⊆ t.strings.segments :=
  h.strings_within.segments

def Repeats {α : Type} (run : Lower α) (s' t : State) (R : List Segment → List Segment → α → Prop) : Prop :=
  ∃ b t', run s' = .ok (b, t') ∧ t.scope = t'.scope ∧ R t.strings.segments t'.strings.segments b

section Constructs

variable {tables tables' : Tables} (hsame : tables.Alike tables') {place : Position} {name : String} {vs : List String}
  {s s' t : State} {x : Lowered} {code : Instr}

include hsame

lemma reference_repeats (h : reference tables place name s = .ok (x, t)) (hs : s.scope = s'.scope) :
    Repeats (reference tables' place name) s' t fun A B x' => x.Matches A B [] x' := by
  have hmatch : ∀ A B, x.Matches A B [] x := fun A B => ⟨rfl, .same⟩
  obtain ⟨rfl, ⟨v, hv, rfl⟩ | ⟨hnone, type, htype, rfl⟩⟩ := reference_ok h
  · rw [hs] at hv
    refine ⟨_, s', ?_, hs, hmatch _ _⟩
    rw [reference, get_bind, hv]
    rfl
  · rw [hs] at hnone
    rw [hsame.globals] at htype
    refine ⟨_, s', ?_, hs, hmatch _ _⟩
    rw [reference, get_bind, hnone, htype]
    rfl

lemma assignment_repeats {value value' : Lower Lowered}
    (hvalue : ∀ y, value s = .ok (y, t) → Repeats value' s' t fun A B y' => y.Matches A B vs y')
    (h : assignment tables place name value s = .ok (x, t)) (hs : s.scope = s'.scope) :
    Repeats (assignment tables' place name value') s' t fun A B x' => x.Matches A B vs x' := by
  obtain ⟨y, z, hy, ⟨v, hv, hz, rfl⟩ | ⟨hnone, type, htype, hz, rfl⟩⟩ := assignment_ok h
  · obtain ⟨y', t', hy', ht, hmatch⟩ := hvalue y hy
    obtain ⟨z', hz', hconverted⟩ := hmatch.coerce hz
    rw [hs] at hv
    refine ⟨⟨.localTee v.index z'.code, v.type⟩, t', ?_, ht, rfl, .localTee hconverted.code⟩
    rw [assignment, get_bind, hv]
    exact bind_ok.mpr ⟨y', t', hy', bind_ok.mpr ⟨z', t', lift_ok.mpr ⟨hz', rfl⟩, rfl⟩⟩
  · obtain ⟨y', t', hy', ht, hmatch⟩ := hvalue y hy
    obtain ⟨z', hz', hconverted⟩ := hmatch.coerce hz
    rw [hs] at hnone
    rw [hsame.globals] at htype
    refine ⟨⟨.block none type.numType? [.globalSet name z'.code, .globalGet name], type⟩, t', ?_, ht, rfl, ?_⟩
    · rw [assignment, get_bind, hnone, htype]
      exact bind_ok.mpr ⟨y', t', hy', bind_ok.mpr ⟨z', t', lift_ok.mpr ⟨hz', rfl⟩, rfl⟩⟩
    · rw [← List.append_nil vs]
      exact .block (.cons (.globalSet hconverted.code) (.cons .same .nil))

lemma call_repeats {callee : String} {given : Nat} {args args' : List ValueType → Lower (List Instr)}
    (hargs : ∀ types codes, types.length = given → args types s = .ok (codes, t) →
      Repeats (args' types) s' t fun A B codes' => AllReaddressed A B vs codes codes')
    (h : call tables place callee given args s = .ok (x, t)) :
    Repeats (call tables' place callee given args') s' t fun A B x' => x.Matches A B vs x' := by
  obtain ⟨signature, codes, hlookup, hn, hc, rfl⟩ := call_ok h
  obtain ⟨codes', t', hc', ht, hcodes⟩ := hargs _ _ hn hc
  rw [hsame.functions] at hlookup
  refine ⟨⟨.call callee codes', signature.result⟩, t', ?_, ht, rfl, .call hcodes⟩
  simp only [call, hlookup, hn, ne_eq, not_true_eq_false, if_false]
  exact bind_ok.mpr ⟨codes', t', hc', rfl⟩

omit hsame

lemma returning_repeats {y y' : Lowered} {A B : List Segment} (hy : y.Matches A B vs y')
    (h : returning place y s = .ok (code, t)) (hs : s.scope = s'.scope) :
    ∃ code', returning place y' s' = .ok (code', s') ∧ Readdressed A B vs code code' := by
  obtain ⟨rfl, ⟨hslot, rfl⟩ | ⟨slot, z, hslot, hz, rfl⟩⟩ := returning_ok h
  · refine ⟨.block none none [dropped y', .br endLabel], ?_, ?_⟩
    · rw [returning, get_bind, ← hs]
      simp only [hslot]
      rfl
    · rw [← List.append_nil vs]
      exact .block (.cons hy.dropped (.cons .same .nil))
  · obtain ⟨z', hz', hconverted⟩ := hy.coerce hz
    refine ⟨.block none none [.localSet slot z'.code, .br endLabel], ?_, ?_⟩
    · rw [returning, get_bind, ← hs]
      simp only [hslot]
      exact bind_ok.mpr ⟨z', s', lift_ok.mpr ⟨hz', rfl⟩, rfl⟩
    · rw [← List.append_nil vs]
      exact .block (.cons (.localSet hconverted.code) (.cons .same .nil))

end Constructs

lemma inScope_of {α : Type} {scope : Scope} {body : Lower α} {a : α} {s u : State}
    (h : body { s with scope := scope } = .ok (a, u)) :
    inScope scope body s = .ok ((a, u.scope), { u with scope := s.scope }) := by
  rw [inScope, get_bind]
  exact bind_ok.mpr ⟨_, _, rfl, bind_ok.mpr ⟨a, u, h, rfl⟩⟩

lemma function_of_block {tables : Tables} {signature : Prototype} {types : List ValueType} {body : List Stmt}
    {statements : List Instr} {s u : State}
    (h : block tables body { s with scope := .ofSignature (signature.taking types).parameters signature.result } =
      .ok (statements, u)) :
    statement tables (.function signature types body) s = .ok (.nop, { u with
      scope := s.scope, functions := u.functions ++ [functionOf (signature.taking types) statements u.scope] }) := by
  rw [statement]
  exact bind_ok.mpr ⟨_, _, inScope_of h, rfl⟩

section Trees

variable {tables tables' : Tables}

mutual

lemma expression_repeats (hsame : tables.Alike tables') : ∀ (e : Expr) ⦃s s' t : State⦄ ⦃x : Lowered⦄,
    expression tables e s = .ok (x, t) →
    s.scope = s'.scope → Repeats (expression tables' e) s' t fun A B x' => x.Matches A B e.texts x'
  | .number place value type => by
    intro s s' t x h hs
    obtain ⟨hx, rfl⟩ := expression_number h
    refine ⟨x, s', ?_, hs, rfl, .same⟩
    rw [expression]
    exact lift_ok.mpr ⟨hx, rfl⟩
  | .reference place name => by
    intro s s' t x h hs
    rw [expression] at h ⊢
    exact reference_repeats hsame h hs
  | .binary place op lhs rhs => by
    intro s s' t x h hs
    by_cases hop : op = "="
    · obtain ⟨site, name, rfl, ha⟩ := expression_assignment hop h
      simp only [expression, if_pos hop]
      exact assignment_repeats hsame (fun y hy => expression_repeats hsame rhs hy hs) ha hs
    · obtain ⟨a, u, b, ha, hb, ho⟩ := expression_operation hop h
      obtain ⟨a', u', ha', hu, hleft⟩ := expression_repeats hsame lhs ha hs
      obtain ⟨b', t', hb', ht, hright⟩ := expression_repeats hsame rhs hb hu
      have hleft' := hleft.mono (adds_expression rhs hb).segments (adds_expression rhs hb').segments
      obtain ⟨x', hx', hx⟩ := hleft'.operation hright ho
      refine ⟨x', t', ?_, ht, hx⟩
      simp only [expression, if_neg hop]
      exact bind_ok.mpr ⟨a', u', ha', bind_ok.mpr ⟨b', t', hb', lift_ok.mpr ⟨hx', rfl⟩⟩⟩
  | .call place callee args => by
    intro s s' t x h hs
    rw [expression] at h ⊢
    exact call_repeats hsame (fun types codes hn hc => arguments_repeats hsame args hn.symm hc hs) h
  | .cast place target value => by
    intro s s' t x h hs
    obtain ⟨y, hy, hx⟩ := expression_cast h
    obtain ⟨y', t', hy', ht, hmatch⟩ := expression_repeats hsame value hy hs
    obtain ⟨x', hx', hconverted⟩ := hmatch.coerce hx
    refine ⟨x', t', ?_, ht, hconverted⟩
    rw [expression]
    exact bind_ok.mpr ⟨y', t', hy', lift_ok.mpr ⟨hx', rfl⟩⟩
  | .assign place name value => by
    intro s s' t x h hs
    rw [expression] at h ⊢
    exact assignment_repeats hsame (fun y hy => expression_repeats hsame value hy hs) h hs
  | .string place value => by
    intro s s' t x h hs
    obtain ⟨rfl, rfl⟩ := expression_string h
    refine ⟨⟨i32Const (s'.strings.intern value).1, .i32⟩, { s' with strings := (s'.strings.intern value).2 }, ?_, hs,
      rfl, .address (segments_of_intern _ _) (segments_of_intern _ _)⟩
    rw [expression]
    rfl
  | .conditional place conditions separators body => by
    intro s s' t x h hs
    obtain ⟨codes, u, code, statements, hc, hj, hb, rfl⟩ := expression_conditional h
    obtain ⟨codes', u', hc', hu, hcodes⟩ := conditionList_repeats hsame conditions hc hs
    obtain ⟨statements', t', hb', ht, hstatements⟩ := block_repeats hsame body hb hu
    have hcodes' := hcodes.mono (adds_block body hb).segments (adds_block body hb').segments
    obtain ⟨code', hj', hcode⟩ := hcodes'.joinedConditions hj
    refine ⟨⟨.ifThen code' (.block none none statements'), .void⟩, t', ?_, ht, rfl, .ifThen hcode (.block hstatements)⟩
    rw [expression]
    exact bind_ok.mpr ⟨codes', u', hc', bind_ok.mpr ⟨code', u', lift_ok.mpr ⟨hj', rfl⟩,
      bind_ok.mpr ⟨statements', t', hb', rfl⟩⟩⟩
  | .importFile place path => by
    intro s s' t x h hs
    obtain ⟨rfl, rfl⟩ := expression_import h
    refine ⟨_, s', ?_, hs, rfl, .same⟩
    rw [expression]
    rfl

lemma arguments_repeats (hsame : tables.Alike tables') {place : Position} :
    ∀ (es : List Expr) ⦃types : List ValueType⦄ ⦃s s' t : State⦄
    ⦃codes : List Instr⦄, es.length = types.length → arguments tables place es types s = .ok (codes, t) →
    s.scope = s'.scope → Repeats (arguments tables' place es types) s' t fun A B codes' =>
      AllReaddressed A B (Expr.textsOfAll es) codes codes'
  | [] => by
    intro types s s' t codes _ h hs
    obtain ⟨rfl, rfl⟩ := arguments_nil h
    refine ⟨[], s', ?_, hs, .nil⟩
    simp only [arguments]
    rfl
  | e :: es => by
    intro types s s' t codes hn h hs
    cases types with
    | nil => cases hn
    | cons type types =>
      obtain ⟨y, u, z, rest, hy, hz, hr, rfl⟩ := arguments_cons h
      have hn' := Nat.succ.inj hn
      obtain ⟨y', u', hy', hu, hmatch⟩ := expression_repeats hsame e hy hs
      obtain ⟨z', hz', hconverted⟩ := hmatch.coerce hz
      obtain ⟨rest', t', hr', ht, hrest⟩ := arguments_repeats hsame es hn' hr hu
      refine ⟨z'.code :: rest', t', ?_, ht, .cons (hconverted.code.mono (adds_arguments es hn' hr).segments
        (adds_arguments es hn' hr').segments) hrest⟩
      rw [arguments]
      exact bind_ok.mpr ⟨y', u', hy', bind_ok.mpr ⟨z', u', lift_ok.mpr ⟨hz', rfl⟩,
        bind_ok.mpr ⟨rest', t', hr', rfl⟩⟩⟩

lemma condition_repeats (hsame : tables.Alike tables') {place : Position} :
    ∀ (c : Condition) ⦃s s' t : State⦄ ⦃code : Instr⦄,
    condition tables place c s = .ok (code, t) → s.scope = s'.scope →
    Repeats (condition tables' place c) s' t fun A B code' => Readdressed A B c.texts code code'
  | .compare lhs op rhs => by
    intro s s' t code h hs
    obtain ⟨a, u, b, ha, hb, hc⟩ := condition_compare h
    obtain ⟨a', u', ha', hu, hleft⟩ := expression_repeats hsame lhs ha hs
    obtain ⟨b', t', hb', ht, hright⟩ := expression_repeats hsame rhs hb hu
    have hleft' := hleft.mono (adds_expression rhs hb).segments (adds_expression rhs hb').segments
    obtain ⟨code', hc', hcode⟩ := hleft'.comparison hright hc
    refine ⟨code', t', ?_, ht, hcode⟩
    rw [condition]
    exact bind_ok.mpr ⟨a', u', ha', bind_ok.mpr ⟨b', t', hb', lift_ok.mpr ⟨hc', rfl⟩⟩⟩

lemma conditionList_repeats (hsame : tables.Alike tables') {place : Position} :
    ∀ (cs : List Condition) ⦃s s' t : State⦄ ⦃codes : List Instr⦄,
    conditionList tables place cs s = .ok (codes, t) → s.scope = s'.scope →
    Repeats (conditionList tables' place cs) s' t fun A B codes' =>
      AllReaddressed A B (Condition.textsOfAll cs) codes codes'
  | [] => by
    intro s s' t codes h hs
    obtain ⟨rfl, rfl⟩ := conditionList_nil h
    refine ⟨[], s', ?_, hs, .nil⟩
    rw [conditionList]
    rfl
  | c :: cs => by
    intro s s' t codes h hs
    obtain ⟨code, u, rest, hc, hr, rfl⟩ := conditionList_cons h
    obtain ⟨code', u', hc', hu, hcode⟩ := condition_repeats hsame c hc hs
    obtain ⟨rest', t', hr', ht, hrest⟩ := conditionList_repeats hsame cs hr hu
    refine ⟨code' :: rest', t', ?_, ht, .cons (hcode.mono (adds_conditionList cs hr).segments
      (adds_conditionList cs hr').segments) hrest⟩
    rw [conditionList]
    exact bind_ok.mpr ⟨code', u', hc', bind_ok.mpr ⟨rest', t', hr', rfl⟩⟩

lemma statement_repeats (hsame : tables.Alike tables') : ∀ (st : Stmt) ⦃s s' t : State⦄ ⦃code : Instr⦄,
    statement tables st s = .ok (code, t) →
    s.scope = s'.scope → Repeats (statement tables' st) s' t fun A B code' => Readdressed A B st.texts code code'
  | .expression value => by
    intro s s' t code h hs
    obtain ⟨y, hy, rfl⟩ := statement_expression h
    obtain ⟨y', t', hy', ht, hmatch⟩ := expression_repeats hsame value hy hs
    refine ⟨dropped y', t', ?_, ht, hmatch.dropped⟩
    rw [statement]
    exact bind_ok.mpr ⟨y', t', hy', rfl⟩
  | .call place callee args => by
    intro s s' t code h hs
    obtain ⟨y, hy, rfl⟩ := statement_call h
    rw [expression] at hy
    obtain ⟨y', t', hy', ht, hmatch⟩ :=
      call_repeats hsame (fun types codes hn hc => arguments_repeats hsame args hn.symm hc hs) hy
    refine ⟨dropped y', t', ?_, ht, hmatch.dropped⟩
    rw [statement]
    exact bind_ok.mpr ⟨y', t', hy', rfl⟩
  | .declare place type name value => by
    intro s s' t code h hs
    obtain ⟨y, u, z, hy, hz, rfl, rfl⟩ := statement_declare h
    obtain ⟨y', u', hy', hu, hmatch⟩ := expression_repeats hsame value hy hs
    obtain ⟨z', hz', hconverted⟩ := hmatch.coerce hz
    rw [hu]
    refine ⟨.localSet (u'.scope.declare name type).1 z'.code,
      { u' with scope := (u'.scope.declare name type).2 }, ?_, rfl, .localSet hconverted.code⟩
    rw [statement]
    exact bind_ok.mpr ⟨y', u', hy', bind_ok.mpr ⟨z', u', lift_ok.mpr ⟨hz', rfl⟩, rfl⟩⟩
  | .function signature types body => by
    intro s s' t code h hs
    obtain ⟨statements, u, hb, rfl, rfl⟩ := statement_function h
    have hbody : Repeats (block tables' body)
        { s' with scope := .ofSignature (signature.taking types).parameters signature.result } u _ :=
      block_repeats hsame body hb rfl
    obtain ⟨statements', u', hb', -⟩ := hbody
    exact ⟨.nop, _, function_of_block hb', hs, .same⟩
  | .prototype signature => by
    intro s s' t code h hs
    obtain ⟨rfl, rfl⟩ := statement_prototype h
    refine ⟨.nop, s', ?_, hs, .same⟩
    rw [statement]
    rfl
  | .ret place value => by
    intro s s' t code h hs
    obtain ⟨y, hy, hcode⟩ := statement_ret h
    obtain ⟨y', t', hy', ht, hmatch⟩ := expression_repeats hsame value hy hs
    obtain ⟨code', hcode', hreturn⟩ := returning_repeats hmatch hcode ht
    refine ⟨code', t', ?_, ht, hreturn⟩
    rw [statement]
    exact bind_ok.mpr ⟨y', t', hy', hcode'⟩

lemma block_repeats (hsame : tables.Alike tables') : ∀ (ss : List Stmt) ⦃s s' t : State⦄ ⦃codes : List Instr⦄,
    block tables ss s = .ok (codes, t) →
    s.scope = s'.scope → Repeats (block tables' ss) s' t fun A B codes' =>
      AllReaddressed A B (Stmt.textsOfAll ss) codes codes'
  | [] => by
    intro s s' t codes h hs
    obtain ⟨rfl, rfl⟩ := block_nil h
    refine ⟨[], s', ?_, hs, .nil⟩
    rw [block]
    rfl
  | st :: ss => by
    intro s s' t codes h hs
    obtain ⟨code, u, rest, hc, hr, rfl⟩ := block_cons h
    obtain ⟨code', u', hc', hu, hcode⟩ := statement_repeats hsame st hc hs
    obtain ⟨rest', t', hr', ht, hrest⟩ := block_repeats hsame ss hr hu
    refine ⟨code' :: rest', t', ?_, ht, .cons (hcode.mono (adds_block ss hr).segments
      (adds_block ss hr').segments) hrest⟩
    rw [block]
    exact bind_ok.mpr ⟨code', u', hc', bind_ok.mpr ⟨rest', t', hr', rfl⟩⟩

end

end Trees

structure SameFrame (f g : Wasm.Function) : Prop where
  name : g.name = f.name
  params : g.params = f.params
  result : g.result = f.result
  vars : g.vars = f.vars

structure Corresponds (A B : List Segment) (d : Definition) (f g : Wasm.Function) : Prop extends SameFrame f g where
  defined : f.name = d.signature.name
  body : Readdressed A B (Stmt.textsOfAll d.body) f.body g.body

lemma Corresponds.eq {A B : List Segment} {d : Definition} {f g : Wasm.Function} (h : Corresponds A B d f g)
    (hsame : SameAddresses A B (Stmt.textsOfAll d.body)) : g = f := by
  obtain ⟨⟨hname, hparams, hresult, hvars⟩, -, hbody⟩ := h
  cases f
  cases g
  cases hbody.eq hsame
  cases hname
  cases hparams
  cases hresult
  cases hvars
  rfl

lemma Lowers.corresponds {tables tables' : Tables} (hsame : tables.Alike tables') {a b : StringTable} {d : Definition}
    {f g : Wasm.Function} (hf : Lowers tables a d f) (hg : Lowers tables' b d g) :
    Corresponds a.segments b.segments d f g := by
  obtain ⟨s, codes, t, hc, hs, -, hstrings, rfl⟩ := hf
  obtain ⟨s', codes', t', hc', hs', -, hstrings', rfl⟩ := hg
  obtain ⟨again, u, hagain, hscope, hcodes⟩ := block_repeats hsame d.body hc (hs.trans hs'.symm)
  obtain ⟨rfl, rfl⟩ := Prod.mk.inj (Except.ok.inj (hagain.symm.trans hc'))
  refine ⟨⟨rfl, rfl, rfl, ?_⟩, rfl, ?_⟩
  · simp only [functionOf, hscope]
  · simp only [functionOf, hscope]
    rw [← List.append_nil (Stmt.textsOfAll d.body)]
    refine .block (.cons (.block (hcodes.mono hstrings.segments hstrings'.segments)) ?_)
    cases u.scope.returnSlot with
    | none => exact .nil
    | some slot => exact .cons .same .nil

end Keel.Lowering
