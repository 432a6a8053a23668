import Keel.Proofs.Correctness.Calls

namespace Keel.Lowering

open Wasm (Instr Run Stop Caller)
open Semantics

def Represents (V : Variables) (globals : GlobalTable) (ps : List Parameter) (result : ValueType)
    (ds : List (String × ValueType)) : Prop :=
  ∃ R : Representation V globals (bodyScope ps result ds), ∀ vs : List Value,
    vs.map Value.type = ps.map Parameter.type →
    R.Agrees (.ofSignature ps result) (V.enter (ps.map fun q => (q.name, q.type)) ds vs)
      (firstLocals vs (bodyScope ps result ds))

section Invoke

variable {V : Variables} {p : Program} {exported : Bool} {tables : Tables} {code : List Instr} {s : State}
  {m : Wasm.Module} {table : Precedences}

lemma find?_of_nodup {α : Type} {l : List α} {key : α → String} (h : (l.map key).Nodup) {a : α} (ha : a ∈ l) :
    l.find? (key · == key a) = some a := by
  cases hfind : l.find? (key · == key a) with
  | none => exact absurd (List.find?_eq_none.mp hfind a ha) (by simp)
  | some b =>
    have hkey : key b = key a := by simpa using List.find?_some hfind
    rw [List.inj_on_of_nodup_map h (List.mem_of_find?_eq_some hfind) ha hkey]

lemma signature?_ok {callee : String} {q : Prototype} (h : p.signature? callee = some q) :
    q ∈ p.signatures ∧ q.name = callee := by
  unfold Program.signature? at h
  exact ⟨List.mem_of_find?_eq_some h, by simpa using List.find?_some h⟩

lemma find_lowered {strings : StringTable} {ds : List Definition} {fs : List Wasm.Function}
    (h : List.Forall₂ (Lowers tables strings) ds fs) (name : String) :
    (ds.find? (·.signature.name == name) = none ∧ fs.find? (·.name == name) = none) ∨
      ∃ d ∈ ds, ∃ f, ds.find? (·.signature.name == name) = some d ∧ fs.find? (·.name == name) = some f ∧
        d.signature.name = name ∧ Lowers tables strings d f := by
  induction h with
  | nil => exact .inl ⟨rfl, rfl⟩
  | @cons d f ds fs hd _ ih =>
    rw [List.find?_cons, List.find?_cons, hd.name]
    cases hname : d.signature.name == name with
    | true => exact .inr ⟨d, List.mem_cons_self .., f, rfl, rfl, eq_of_beq hname, hd⟩
    | false =>
      obtain hnone | ⟨d', hd', f', hfind⟩ := ih
      · exact .inl hnone
      · exact .inr ⟨d', List.mem_cons_of_mem _ hd', f', hfind⟩

variable (hm : Comprises p exported tables code s m) (hnames : (p.signatures.map Prototype.name).Nodup)

include hm hnames

lemma Comprises.linked {call : Caller} {calls : Calls} (h : Answers p.setting p.hosts call calls) :
    Linked tables s.strings p.hosts p.setting call calls := by
  obtain ⟨hglobals, hdistinct, hnonvoid⟩ := globalTable_ok hm.globalTable
  refine ⟨hglobals.symm, hdistinct, hnonvoid, ?_, ?_, h⟩
  · intro callee f hf
    obtain ⟨q, hq, rfl, rfl⟩ := functionTable_sound hm.functionTable hf
    exact ⟨q, find?_of_nodup hnames hq, rfl⟩
  · intro value address h
    rw [hm.strings] at h
    change (p.strings.entries.lookup value).getD 0 = address
    rw [show p.strings.entries.lookup value = some address from h]
    rfl

lemma Comprises.answers (hshape : p.Shaped table) (hstart : ∀ q ∈ p.signatures, q.name ≠ startName)
    (hreps : ∀ d ∈ p.definitions, Represents V p.globals d.parameters d.signature.result d.variables) :
    ∀ depth, Answers p.setting p.hosts (m.invoke depth) (p.invoke V depth) := by
  intro depth
  -- Both count the depth of calls, so both are out of it at once.
  induction depth with
  | zero =>
    intro callee q _ vs ns w st _ _ hs
    exact ⟨rfl, trivial, hs⟩
  | succ depth ih =>
    intro callee q hfind vs ns w st htypes hheld hs
    obtain ⟨hq, rfl⟩ := signature?_ok hfind
    have hlink := hm.linked hnames ih
    have hglobals : p.globals = tables.globals := hlink.globals
    simp only [Wasm.Module.invoke, Program.invoke]
    obtain ⟨hd, hf⟩ | ⟨d, hmem, f, hd, hf, hname, hl⟩ := find_lowered hm.definitions q.name
    · have hfunction : m.function? q.name = none := by
        rw [Wasm.Module.function?, hm.functions, List.find?_append, hf]
        cases hs : startFunction p code s.scope with
        | none => rfl
        | some f =>
          have hne : (startName == q.name) = false := beq_false_of_ne (hstart q hq).symm
          simp [startFunction_name hs, hne]
      have himport : m.import? q.name = (p.host? q.name).map hostOf := by
        rw [Wasm.Module.import?, hm.imports, List.find?_map]
        rfl
      rw [hfunction, himport, show p.definition? q.name = none from hd]
      cases hhost : p.host? q.name with
      | none => exact ⟨rfl, trivial, hs⟩
      | some q' =>
        have hq' : q' ∈ p.hosts := List.mem_of_find?_eq_some hhost
        have hname : q'.name = q.name := by
          unfold Program.host? at hhost
          simpa using List.find?_some hhost
        have hsame : q' = q := List.inj_on_of_nodup_map hnames (mem_signatures_of_host hq') hq hname
        subst hsame
        exact callHost_concludes hq' hheld hs
    · have hfunction : m.function? q.name = some f := by
        rw [Wasm.Module.function?, hm.functions, List.find?_append, hf]
        rfl
      have hsame : d.signature = q := List.inj_on_of_nodup_map hnames (mem_signatures hmem) hq hname
      subst hsame
      rw [hfunction, show p.definition? d.signature.name = some d from hd]
      have hrep := hreps d hmem
      change Concludes p.globals p.hosts d.signature.result st.locals _ _
      change Shares p.globals p.hosts w st.store at hs
      rw [hglobals] at hrep hs ⊢
      obtain ⟨R, henter⟩ := hrep
      have hd := hshape.definitions d hmem
      exact hl.concludes hlink hd R (henter vs (htypes.trans hd.1.parameterTypes.symm)) htypes hheld hs

end Invoke

section Start

variable {V : Variables} {tables : Tables} {last : Scope} {R : Representation V tables.globals last}
  {layout : StringTable} {hosts : List Prototype} {g : Setting} {call : Caller} {calls : Calls}
  {place : Position} {name : String} {type : ValueType} {y z : Lowered} {sc : Scope} {table : Precedences}
  {pre : Activation V.Frame → Wasm.State → Prop} {e : Eval V.Frame Value}

lemma global_simulates (hlink : Linked tables layout hosts g call calls) (hz : coerce y type place = .ok z)
    (hname : tables.globals.lookup name = some type) (hw : sc.Within last)
    (hy : Simulates (Leaves tables.globals hosts last) pre (y.code.run call) e (Yields R hosts y.type sc)) :
    Simulates (Leaves tables.globals hosts last) pre ((Instr.globalSet name z.code).run call)
      ((e >>= fun v => attempt (v.convert type)) >>= fun v =>
        storeGlobal name v >>= fun _ => onFrame (V.publish · name))
      (Done R hosts sc) := by
  rw [Instr.run]
  refine (hy.coerce hz).bind ?_
  rintro n v a s ⟨rfl, rfl, hagree⟩
  obtain ⟨c, hc⟩ := exists_held (hlink.nonvoid _ (mem_of_lookup hname))
  rw [hc, Run.operand, pure_bind, bind_of_ok (setGlobal_run ..)]
  have hstored := hagree.storeGlobal hlink.distinct hname hc
  exact ⟨rfl, R.publish hstored.frame hw, hstored.length, hstored.slot, hstored.world⟩

variable (hlink : Linked tables layout hosts g call calls) (hlast : last.Complete)

include hlink hlast

lemma topStatements_simulates (p : Program) {result : ValueType} {s t : State} {codes : List Instr}
    (hshape : Stmt.AllShaped table result p) (h : topStatements tables p s = .ok (codes, t))
    (hw : t.scope.Within last) (hl : t.strings.Within layout)
    (hglobals : ∀ v ∈ p.globals, tables.globals.lookup v.1 = some v.2) :
    Simulates (Leaves tables.globals hosts last) (Agree R hosts s.scope) (Wasm.runSequence call codes)
      (executeOuter V g calls last.result p) (Done R hosts t.scope) := by
  induction p generalizing s codes with
  | nil =>
    obtain ⟨rfl, rfl⟩ := topStatements_nil h
    intro a st hagree
    exact ⟨rfl, hagree⟩
  | cons st p ih =>
    obtain ⟨code, u, rest, hc, hr, rfl⟩ := topStatements_cons h
    have hadds := adds_topStatements hr
    have hu := hadds.within.trans hw
    have hlu := hadds.strings_within.trans hl
    have hrest := ih hshape.2 hr fun v hv => hglobals v (mem_globals_cons hv)
    by_cases hst : IsGlobal st
    · cases st with
      | declare place type name value =>
        obtain ⟨y, z, hy, hz, rfl⟩ := topStatement_declare hc
        have hname := hglobals (name, type) (by simp [Program.globals, Stmt.global?])
        have hvalue := expression_simulates (R := R) hlink hlast value hshape.1.2 hy hu hlu
        have hstep := (global_simulates hlink hz hname hu hvalue).sequence hrest
        simp only [bind_assoc] at hstep
        exact hstep
      | _ => exact absurd hst id
    · rw [topStatement_eq hst] at hc
      have hstep := (statement_simulates (R := R) hlink hlast st hshape.1 hc hu hlu).sequence hrest
      cases st with
      | declare => exact absurd trivial hst
      | _ => exact hstep

end Start

section Sessions

variable {V : Variables} {p : Program} {exported : Bool} {tables : Tables} {code : List Instr} {s : State}
  {m : Wasm.Module} {table : Precedences}

lemma lookup_globals (h : globalTable p = .ok tables.globals) {v : String × ValueType} (hv : v ∈ p.globals) :
    tables.globals.lookup v.1 = some v.2 := by
  obtain ⟨hglobals, hdistinct, -⟩ := globalTable_ok h
  rw [lookup_eq_some_iff_mem hdistinct, hglobals]
  exact hv

lemma startFunction_ok {scope : Scope} (h : p.all isDefinition = false) :
    startFunction p code scope = some ⟨startName, [], none, scope.vars, .block (some endLabel) none code⟩ := by
  unfold startFunction
  rw [if_neg (by simp [h])]

variable (hm : Comprises p exported tables code s m) (hstart : ∀ q ∈ p.signatures, q.name ≠ startName)

include hm hstart

lemma Comprises.start_function (h : p.all isDefinition = false) :
    m.function? startName = some ⟨startName, [], none, s.scope.vars, .block (some endLabel) none code⟩ := by
  have hnone : s.functions.find? (·.name == startName) = none := by
    obtain ⟨-, hf⟩ | ⟨d, hd, f, -, -, hname, -⟩ := find_lowered hm.definitions startName
    · exact hf
    · exact absurd hname (hstart _ (mem_signatures hd))
  rw [Wasm.Module.function?, hm.functions, List.find?_append, hnone, startFunction_ok h]
  simp

lemma Comprises.start_concludes (hnames : (p.signatures.map Prototype.name).Nodup) (hshape : p.Shaped table)
    (hreps : ∀ d ∈ p.definitions, Represents V p.globals d.parameters d.signature.result d.variables)
    (hrep : Represents V p.globals [] .void p.startVariables) (h : p.all isDefinition = false) (depth : Nat)
    {w : World} {st : Wasm.State} (hs : Shares p.globals p.hosts w st.store) :
    Concludes p.globals p.hosts .void st.locals (m.invoke depth startName [] st) (p.start V depth w) := by
  cases depth with
  | zero => exact ⟨rfl, trivial, hs⟩
  | succ depth =>
    have hlink := hm.linked hnames (hm.answers hnames hshape hstart hreps depth)
    have hglobals : p.globals = tables.globals := hlink.globals
    simp only [Wasm.Module.invoke, hm.start_function hstart h, Program.start]
    rw [hglobals] at hrep hs ⊢
    obtain ⟨R, henter⟩ := hrep
    have hframe := henter [] rfl
    have hsim := topStatements_simulates (R := R) hlink (bodyScope_complete ..) p hshape hm.statements
      (hm.scope ▸ .refl _) (.refl _) fun v hv => lookup_globals hm.globalTable hv
    rw [bodyScope_result] at hsim
    have hended : Ended tables.globals p.hosts (startScope p)
        (Run.catchBranch (some endLabel) (Wasm.runSequence (m.invoke depth) code)
          ⟨st.store, s.scope.vars.map Wasm.zeroOf⟩)
        (inFrame .void (V.enter [] p.startVariables []) (executeOuter V p.setting (p.invoke V depth) .void p) w) := by
      rw [hm.scope]
      have h := hsim.ended (first_agree hframe rfl hs)
      rw [bodyScope_result] at h
      exact h
    simp only [Run.withLocals, Instr.run, List.map_nil, List.nil_append]
    cases hrun : Run.catchBranch (some endLabel) (Wasm.runSequence (m.invoke depth) code)
        ⟨st.store, s.scope.vars.map Wasm.zeroOf⟩ <;>
      cases heval : inFrame .void (V.enter [] p.startVariables [])
        (executeOuter V p.setting (p.invoke V depth) .void p) w <;>
      rw [hrun, heval] at hended
    case ok.ok n u v w' =>
      obtain ⟨rfl, htype, -, hw⟩ := hended
      rw [startScope, bodyScope_result] at htype
      rw [Value.eq_void htype]
      exact ⟨rfl, rfl, rfl, hw⟩
    case error.error => exact hended
    all_goals exact hended.elim

omit hm hstart

lemma Concludes.observed {globals : GlobalTable} {hosts : List Prototype} {type : ValueType} {depth : Nat}
    {name : String} {ns : List Wasm.Value} {store : Wasm.Store} {r : EStateM.Result Stop World Value}
    (h : Concludes globals hosts type [] (m.invoke depth name ns ⟨{ store with log := [] }, []⟩) r) :
    (m.step depth store name ns).1 = (Keel.observed r).1 ∧
      Shares globals hosts (Keel.observed r).2 (m.step depth store name ns).2 := by
  unfold Wasm.Module.step Keel.observed
  cases hrun : m.invoke depth name ns ⟨{ store with log := [] }, []⟩ <;> cases r <;> rw [hrun] at h
  case ok.ok =>
    obtain ⟨rfl, -, -, hs⟩ := h
    exact ⟨by simp only [hs.log], hs⟩
  case error.error =>
    obtain ⟨rfl, -, hs⟩ := h
    exact ⟨by simp only [hs.log], hs⟩
  all_goals exact h.elim

lemma Shares.globalsOf {w : World} {store : Wasm.Store} {hosts : List Prototype}
    (h : Shares p.globals hosts w store) : Wasm.Module.globalsOf store = p.globalsOf w := by
  suffices hall : ∀ {gs : GlobalTable} {entries : List (String × Wasm.Value)}, List.Forall₂ (Holds w) gs entries →
      entries.map (fun e => (e.1, some e.2)) = gs.map fun g => (g.1, (w.global g.1 g.2).held) from hall h.globals
  intro gs entries h
  induction h with
  | nil => rfl
  | cons hg _ ih =>
    obtain ⟨hname, -, hheld⟩ := hg
    rw [List.map_cons, List.map_cons, ih, hname, hheld]

lemma holds_zero {answers : List (String × List Wasm.Value)} {gs : GlobalTable} (h : ∀ g ∈ gs, g.2 ≠ .void) :
    List.Forall₂ (Holds ⟨[], answers, []⟩) gs ((gs.map zeroGlobal).map fun g => (g.name, g.init)) := by
  induction gs with
  | nil => exact .nil
  | cons g gs ih =>
    refine .cons ⟨rfl, Value.type_zero, ?_⟩ (ih fun g hg => h g (List.mem_cons_of_mem _ hg))
    obtain ⟨name, type⟩ := g
    have htype := h _ (List.mem_cons_self ..)
    cases type <;> first | rfl | exact absurd rfl htype

lemma Comprises.initial (h : Comprises p exported tables code s m) {answers : List (String × List Wasm.Value)}
    (hanswers : Answered p.hosts answers) :
    Shares p.globals p.hosts ⟨[], answers, []⟩ (m.initialStore answers) := by
  obtain ⟨hglobals, -, hnonvoid⟩ := globalTable_ok h.globalTable
  refine ⟨?_, rfl, rfl, hanswers⟩
  unfold Wasm.Module.initialStore
  rw [h.globals]
  exact holds_zero (hglobals ▸ hnonvoid)

lemma map_held {vs : List Value} (h : ∀ v ∈ vs, v ≠ .void) :
    vs.map Value.held = (vs.filterMap Value.held).map some := by
  induction vs with
  | nil => rfl
  | cons v vs ih =>
    obtain ⟨n, hn⟩ := exists_held (mt Value.eq_void (h v (List.mem_cons_self ..)))
    rw [List.map_cons, List.filterMap_cons, hn, ih fun v hv => h v (List.mem_cons_of_mem _ hv)]
    rfl

lemma steps_eq (hnames : (p.signatures.map Prototype.name).Nodup) {depth : Nat}
    (h : Answers p.setting p.hosts (m.invoke depth) (p.invoke V depth)) {calls : List (String × List Value)}
    (hcalls : ∀ c ∈ calls, p.Admits c) {w : World} {store : Wasm.Store} (hs : Shares p.globals p.hosts w store) :
    (m.steps depth store (numbersOf calls)).1 = (p.steps V depth w calls).1 ∧
      Shares p.globals p.hosts (p.steps V depth w calls).2 (m.steps depth store (numbersOf calls)).2 := by
  induction calls generalizing w store with
  | nil => exact ⟨rfl, hs⟩
  | cons c calls ih =>
    obtain ⟨name, vs⟩ := c
    obtain ⟨⟨d, hd, rfl, htypes⟩, hnonvoid⟩ := hcalls _ (List.mem_cons_self ..)
    have hfind : p.signature? d.signature.name = some d.signature := find?_of_nodup hnames (mem_signatures hd)
    have hconcludes := h d.signature.name d.signature hfind vs (vs.filterMap Value.held) { w with log := [] }
      ⟨{ store with log := [] }, []⟩ htypes (map_held hnonvoid) ⟨hs.globals, hs.answers, rfl, hs.answered⟩
    obtain ⟨hstep, hnext⟩ := hconcludes.observed
    obtain ⟨hrest, hlast⟩ := ih (fun c hc => hcalls c (List.mem_cons_of_mem _ hc)) hnext
    have heq : (m.step depth store d.signature.name (vs.filterMap Value.held)).1 =
        (p.step V depth w d.signature.name vs).1 := hstep
    exact ⟨by
      simp only [numbersOf, List.map_cons, Wasm.Module.steps, Program.steps]
      exact congrArg₂ List.cons heq hrest, hlast⟩

lemma Comprises.begin_eq (hm : Comprises p exported tables code s m) (hshape : p.Shaped table)
    (hnames : (p.signatures.map Prototype.name).Nodup) (hstart : ∀ q ∈ p.signatures, q.name ≠ startName)
    (hreps : ∀ d ∈ p.definitions, Represents V p.globals d.parameters d.signature.result d.variables)
    (hrep : Represents V p.globals [] .void p.startVariables) (depth : Nat) {w : World} {store : Wasm.Store}
    (hs : Shares p.globals p.hosts w store) :
    (m.begin depth store).1 = (p.begin V depth w).1 ∧
      Shares p.globals p.hosts (p.begin V depth w).2 (m.begin depth store).2 := by
  unfold Wasm.Module.begin Program.begin
  rw [hm.start]
  cases hall : p.all isDefinition with
  | true =>
    rw [startFunction, if_pos hall]
    exact ⟨rfl, hs⟩
  | false =>
    rw [startFunction_ok hall]
    have hcleared : Shares p.globals p.hosts { w with log := [] } { store with log := [] } :=
      ⟨hs.globals, hs.answers, rfl, hs.answered⟩
    have hconcludes : Concludes p.globals p.hosts .void []
        (m.invoke depth startName [] ⟨{ store with log := [] }, []⟩) (p.start V depth { w with log := [] }) :=
      hm.start_concludes hstart hnames hshape hreps hrep hall depth hcleared
    exact hconcludes.observed

lemma Comprises.session_eq (hm : Comprises p exported tables code s m) (hshape : p.Shaped table)
    (hnames : (p.signatures.map Prototype.name).Nodup) (hstart : ∀ q ∈ p.signatures, q.name ≠ startName)
    (hreps : ∀ d ∈ p.definitions, Represents V p.globals d.parameters d.signature.result d.variables)
    (hrep : Represents V p.globals [] .void p.startVariables) (depth : Nat)
    {answers : List (String × List Wasm.Value)} (hanswers : Answered p.hosts answers)
    {calls : List (String × List Value)} (hcalls : ∀ c ∈ calls, p.Admits c) :
    m.session depth answers (numbersOf calls) = p.session V depth answers calls := by
  have hbegin := hm.begin_eq hshape hnames hstart hreps hrep depth (hm.initial hanswers)
  unfold Wasm.Module.session Program.session
  generalize m.begin depth (m.initialStore answers) = r at hbegin ⊢
  generalize p.begin V depth ⟨[], answers, []⟩ = r' at hbegin ⊢
  obtain ⟨step, store⟩ := r
  obtain ⟨step', w⟩ := r'
  obtain ⟨rfl, hs⟩ := hbegin
  dsimp only
  cases step.outcome with
  | error e => simp only [hs.globalsOf]
  | ok n =>
    obtain ⟨hsteps, hlast⟩ := steps_eq hnames (hm.answers hnames hshape hstart hreps depth) hcalls hs
    simp only [hsteps, hlast.globalsOf]

end Sessions

end Keel.Lowering

namespace Keel

def checkCompiled (source : String) (P : Program → Wasm.Module → Prop) [∀ p m, Decidable (P p m)] : Bool :=
  match parseText source .standard with
  | .ok p =>
    match compile p true with
    | .ok m => decide (P p m)
    | .error _ => false
  | .error _ => false

lemma exists_compiled {source : String} {P : Program → Wasm.Module → Prop} [∀ p m, Decidable (P p m)]
    (h : checkCompiled source P = true) :
    ∃ p m, parseText source .standard = .ok p ∧ compile p true = .ok m ∧ P p m := by
  unfold checkCompiled at h
  split at h
  · rename_i p hp
    split at h
    · rename_i m hm
      exact ⟨p, m, hp, hm, of_decide_eq_true h⟩
    · cases h
  · cases h

end Keel
