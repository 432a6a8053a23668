import Keel.Proofs.Correctness.Programs
import Keel.Proofs.Ranges.Lowering
import Keel.Proofs.Ranges.Moments

namespace Keel

open Lowering

/-- A function that a program has code for: what is known of its variables. -/
structure Outline where
  name : String
  parameters : List Parameter
  result : ValueType
  declared : List (String × ValueType)

namespace Outline

def parameterTypes (b : Outline) : List ValueType := b.parameters.map Parameter.type

def ownTypes (b : Outline) : List ValueType := (if b.result = .void then [] else [b.result]) ++ b.declared.map Prod.snd

def types (b : Outline) : List ValueType := b.parameterTypes ++ b.ownTypes

def scope (b : Outline) : Scope := bodyScope b.parameters b.result b.declared

end Outline

def Definition.outline (d : Definition) : Outline :=
  ⟨d.signature.name, d.parameters, d.signature.result, d.variables⟩

namespace Program

variable (p : Program)

def startOutline : Outline := ⟨startName, [], .void, p.startVariables⟩

def outlines : List Outline :=
  p.definitions.map Definition.outline ++ (if p.all isDefinition then [] else [p.startOutline])

/-- A function in the module has the signature with which it is called. -/
def Coherent : Prop :=
  match functionTable p with
  | .ok functions => ∀ e ∈ functions, ∀ b ∈ p.outlines, b.name = e.1 →
      b.parameterTypes = e.2.parameters ∧ b.result = e.2.result
  | .error _ => True

instance : Decidable p.Coherent :=
  match h : functionTable p with
  | .ok functions => decidable_of_iff (∀ e ∈ functions, ∀ b ∈ p.outlines, b.name = e.1 →
      b.parameterTypes = e.2.parameters ∧ b.result = e.2.result) (by simp only [Coherent, h])
  | .error _ => isTrue (by simp only [Coherent, h])

end Program

namespace Ranges

open Wasm (Instr Run Stop Caller Store)

variable {p : Program} {tables : Tables} {b : Outline} {f : Wasm.Function} {types : List ValueType}

lemma outline_places (hf : functionTable p = .ok tables.functions) (hg : globalTable p = .ok tables.globals)
    (b : Outline) : Places p tables b.scope b.types where
  functions := hf
  globals := hg
  named := by
    intro v hv
    simp only [Outline.scope, bodyScope_locals, List.mem_append] at hv
    simp only [Outline.types, Outline.ownTypes, Outline.parameterTypes]
    obtain hv | hv := hv
    · obtain ⟨hle, hd⟩ := mem_numbered hv
      have hlength : (b.parameters.map Parameter.type ++ if b.result = .void then [] else [b.result]).length =
          b.parameters.length + if b.result = .void then 0 else 1 := by split_ifs <;> simp
      rw [← List.append_assoc, List.getElem?_append_right (hlength ▸ hle), hlength, List.getElem?_map, hd]
      rfl
    · obtain ⟨-, hd⟩ := mem_numbered hv
      rw [Nat.sub_zero, List.getElem?_map, Option.map_eq_some_iff] at hd
      obtain ⟨q, hq, hd⟩ := hd
      have htype : (b.parameters.map Parameter.type)[v.2.index]? = some v.2.type := by
        rw [List.getElem?_map, hq, ← (Prod.mk.inj hd).2]
        rfl
      rw [List.getElem?_append_left (List.getElem?_eq_some_iff.mp htype).1, htype]
  slot := by
    intro i hi
    simp only [Outline.scope, bodyScope_slot, bodyScope_result] at hi ⊢
    split_ifs at hi with hvoid
    cases hi
    simp [Outline.types, Outline.ownTypes, Outline.parameterTypes, hvoid]

structure FunctionInRange (p : Program) (b : Outline) (f : Wasm.Function) : Prop where
  name : f.name = b.name
  vars : f.vars = b.ownTypes.map ValueType.numType?
  body : HasRange p b.types f.body b.result

lemma scope_vars (b : Outline) : b.scope.vars = b.ownTypes.map ValueType.numType? := by
  simp only [Outline.scope, Outline.ownTypes, bodyScope_vars]
  split_ifs <;> simp

section Modules

variable {exported : Bool} {code : List Instr} {s : State} {m : Wasm.Module}

lemma definition_inRange (hf : functionTable p = .ok tables.functions) (hg : globalTable p = .ok tables.globals)
    {strings : StringTable} {d : Definition} (h : Lowers tables strings d f)
    (htruth : ∀ l ∈ Stmt.literalsOfAll d.body, IsTruth l) : FunctionInRange p d.outline f := by
  obtain ⟨s, codes, t, hb, hs, ht, -, rfl⟩ := h
  rw [hs] at ht
  have hend : t.scope = d.outline.scope := ht
  have hplaces := outline_places hf hg d.outline
  have hcodes := block_ranged hplaces d.body htruth hb (hend ▸ .refl _)
  refine ⟨rfl, (congrArg Scope.vars hend).trans (scope_vars _), ?_⟩
  simp only [functionOf, hend]
  cases hreturn : d.outline.scope.returnSlot with
  | none =>
    have hvoid : d.outline.result = .void := by
      rw [Outline.scope, bodyScope_slot] at hreturn
      by_contra hne
      rw [if_neg hne] at hreturn
      cases hreturn
    rw [hvoid]
    exact .block (.last (.labelled hcodes))
  | some i =>
    have hslot := hplaces.slot i hreturn
    rw [show d.outline.scope.result = d.outline.result from bodyScope_result ..] at hslot
    exact .block (.cons (.labelled hcodes) (.last (.localGet hslot)))

lemma topStatements_ranged {scope : Scope} (hplaces : Places p tables scope types) {q : Program} {s t : State}
    (htruth : ∀ l ∈ Stmt.literalsOfAll q, IsTruth l) (hglobals : ∀ v ∈ q.globals, p.globals.lookup v.1 = some v.2)
    (h : topStatements tables q s = .ok (code, t)) (hw : t.scope.Within scope) :
    SequenceHasRange p types code .void := by
  induction q generalizing s code with
  | nil =>
    obtain ⟨rfl, -⟩ := topStatements_nil h
    exact .nil
  | cons st q ih =>
    obtain ⟨head, u, rest, hc, hr, rfl⟩ := topStatements_cons h
    have hu := (adds_topStatements hr).within.trans hw
    have hrest := ih (fun l hl => htruth l (List.mem_append_right _ hl))
      (fun v hv => hglobals v (mem_globals_cons hv)) hr
    have hst := fun l hl => htruth l (List.mem_append_left _ hl)
    refine .push ?_ hrest
    by_cases hglobal : IsGlobal st
    · cases st with
      | declare place type name value =>
        obtain ⟨y, z, hy, hz, rfl⟩ := topStatement_declare hc
        have hlookup := hglobals (name, type) (by simp [Program.globals, Stmt.global?])
        exact .globalSet hlookup (coerce_ranged (expression_ranged hplaces value hst hy hu) hz).1
      | _ => exact absurd hglobal id
    · rw [topStatement_eq hglobal] at hc
      exact statement_ranged hplaces st hst hc hu

lemma startFunction_inRange (h : Comprises p exported tables code s m)
    (htruth : ∀ l ∈ Stmt.literalsOfAll p, IsTruth l) :
    List.Forall₂ (FunctionInRange p) (if p.all isDefinition then [] else [p.startOutline])
      (startFunction p code s.scope).toList := by
  unfold startFunction
  split_ifs with hall
  · exact .nil
  · have hplaces := outline_places h.functionTable h.globalTable p.startOutline
    obtain ⟨hglobals, hdistinct, -⟩ := globalTable_ok h.globalTable
    have hlookup : ∀ v ∈ p.globals, p.globals.lookup v.1 = some v.2 := by
      intro v hv
      rw [← hglobals] at hv ⊢
      exact (lookup_eq_some_iff_mem hdistinct).mpr hv
    have hcodes := topStatements_ranged hplaces htruth hlookup h.statements (h.scope ▸ .refl _)
    exact .cons ⟨rfl, (congrArg Scope.vars h.scope).trans (scope_vars p.startOutline), .labelled hcodes⟩ .nil

lemma functions_inRange (h : Comprises p exported tables code s m) (htruth : ∀ l ∈ p.literals, IsTruth l) :
    List.Forall₂ (FunctionInRange p) p.outlines m.functions := by
  unfold Program.outlines
  rw [h.functions]
  refine List.rel_append ?_ (startFunction_inRange h fun l hl => htruth l (List.mem_append_left _ hl))
  rw [List.forall₂_map_left_iff]
  have hdefinitions := (List.forall₂_and_left _ _).mpr ⟨fun d hd => hd, h.definitions⟩
  refine hdefinitions.imp fun d f hd => definition_inRange h.functionTable h.globalTable hd.2 fun l hl => ?_
  exact htruth l (List.mem_append_right _ (List.mem_flatMap.mpr ⟨d, hd.1, hl⟩))

end Modules

section Invocations

variable {m : Wasm.Module} {name : String} {vs : List Wasm.Value}

lemma keeps_callHost {f : Prototype} (hf : f ∈ p.hosts) (hvs : AllInRange f.parameterTypes vs) :
    Keeps (StateInRange p types) (Run.callHost (hostOf f) vs) (InRange f.result) := by
  intro s hs
  have hzero : ∀ t, f.result.numType? = some t → InRange f.result (some t.zero) := by
    intro t ht
    have := inRange_zero f.result
    rwa [ht] at this
  obtain ⟨n, rest, hanswer, hn, hrest⟩ :=
    answer_kept (P := fun f v => InRange f.result (some v)) hs.store.answers hf hzero
  have hstore := hanswer s.store.globals (s.store.log ++ [⟨f.name, vs⟩])
  simp only [Run.callHost]
  rw [show (hostOf f).name = f.name from rfl, hstore]
  refine ⟨?_, ⟨hs.store.globals, hrest, ?_⟩, hs.locals⟩
  · obtain ⟨rfl, hnone⟩ | ⟨v, rfl, hv⟩ := hn
    · exact hnone
    · exact hv
  · intro c hc
    obtain hc | hc := List.mem_append.mp hc
    · exact hs.store.log c hc
    · obtain rfl := List.mem_singleton.mp hc
      exact ⟨f, hf, rfl, hvs⟩

lemma allInRange_zero (as : List ValueType) :
    List.Forall₂ InRange as ((as.map ValueType.numType?).map Wasm.zeroOf) := by
  rw [List.map_map, List.forall₂_map_right_iff, List.forall₂_same]
  exact fun type _ => inRange_zero type

lemma entry_inRange (hf : FunctionInRange p b f) (hvs : AllInRange b.parameterTypes vs) {store : Store}
    (hstore : StoreInRange p store) : StateInRange p b.types (Wasm.Module.entry f vs store) := by
  refine ⟨hstore, ?_⟩
  simp only [Wasm.Module.entry, Outline.types, hf.vars]
  exact List.rel_append (List.forall₂_map_right_iff.mpr hvs) (allInRange_zero _)

lemma keeps_body {call : Caller} (hcall : CallsInRange p call) (hf : FunctionInRange p b f)
    (hvs : AllInRange b.parameterTypes vs) :
    Keeps (StateInRange p types) (Run.withLocals (vs.map some ++ f.vars.map Wasm.zeroOf) (f.body.run call))
      (InRange b.result) := by
  intro s hs
  have hr := hf.body.keeps hcall _ (entry_inRange hf hvs hs.store)
  unfold Wasm.Module.entry at hr
  unfold Run.withLocals
  cases hx : f.body.run call ⟨s.store, vs.map some ++ f.vars.map Wasm.zeroOf⟩ with
  | ok v t =>
    rw [hx] at hr
    exact ⟨hr.1, hr.2.store, hs.locals⟩
  | error e t =>
    rw [hx] at hr
    exact ⟨hr.store, hs.locals⟩

lemma exists_outline {bs : List Outline} {fs : List Wasm.Function} (h : List.Forall₂ (FunctionInRange p) bs fs)
    (hf : fs.find? (·.name == name) = some f) : ∃ b ∈ bs, b.name = name ∧ FunctionInRange p b f := by
  induction h with
  | nil => cases hf
  | @cons b g _ _ hd _ ih =>
    rw [List.find?_cons] at hf
    cases hname : g.name == name with
    | true =>
      rw [hname] at hf
      cases hf
      exact ⟨b, List.mem_cons_self .., hd.name.symm.trans (eq_of_beq hname), hd⟩
    | false =>
      rw [hname] at hf
      obtain ⟨b', hb', hb⟩ := ih hf
      exact ⟨b', List.mem_cons_of_mem _ hb', hb⟩

structure ModuleInRange (p : Program) (m : Wasm.Module) : Prop where
  functions : List.Forall₂ (FunctionInRange p) p.outlines m.functions
  imports : m.imports = p.hosts.map hostOf
  start : ∀ name, m.start = some name → ∃ b ∈ p.outlines, b.name = name ∧ b.parameterTypes = []
  distinct : (p.outlines.map Outline.name).Nodup
  coherent : p.Coherent

lemma Knows.coherent (h : p.Coherent) {callee : String} {s : Signature} (hs : Knows p callee s) (hb : b ∈ p.outlines)
    (hname : b.name = callee) : b.parameterTypes = s.parameters ∧ b.result = s.result := by
  obtain ⟨functions, htable, hlookup⟩ := hs
  simp only [Program.Coherent, htable] at h
  exact h _ (mem_of_lookup hlookup) b hb hname

lemma Knows.outline (hm : ModuleInRange p m) {callee : String} {s : Signature} (h : Knows p callee s)
    (hf : m.function? callee = some f) :
    ∃ b ∈ p.outlines, FunctionInRange p b f ∧ b.parameterTypes = s.parameters ∧ b.result = s.result := by
  obtain ⟨b, hb, hname, hrange⟩ := exists_outline hm.functions hf
  exact ⟨b, hb, hrange, h.coherent hm.coherent hb hname⟩

lemma Knows.host (hm : ModuleInRange p m) {callee : String} {s : Signature} (h : Knows p callee s)
    {g : Wasm.HostFunction} (hg : m.import? callee = some g) :
    ∃ f ∈ p.hosts, g = hostOf f ∧ f.parameterTypes = s.parameters ∧ f.result = s.result := by
  obtain ⟨functions, htable, hlookup⟩ := h
  have hname : g.name = callee := by simpa using List.find?_some hg
  have hmem := List.mem_of_find?_eq_some hg
  rw [hm.imports] at hmem
  obtain ⟨f, hf, rfl⟩ := List.mem_map.mp hmem
  have hknown := lookup_host htable hf
  rw [show f.name = callee from hname, hlookup] at hknown
  cases hknown
  exact ⟨f, hf, rfl, rfl, rfl⟩

lemma invoke_inRange (hm : ModuleInRange p m) (depth : Nat) : CallsInRange p (m.invoke depth) := by
  -- however deep calls are nested, they keep numbers in range
  induction depth with
  | zero => exact fun _ _ _ _ _ _ => keeps_throw _
  | succ depth ih =>
    intro callee s hs vs hvs types
    simp only [Wasm.Module.invoke]
    cases hf : m.function? callee with
    | some f =>
      -- The signature with which code calls is that of the function, so the arguments fit its parameters.
      obtain ⟨b, -, hrange, hparameters, hresult⟩ := hs.outline hm hf
      rw [← hparameters] at hvs
      rw [← hresult]
      exact keeps_body ih hrange hvs
    | none =>
      cases hg : m.import? callee with
      | some g =>
        obtain ⟨f, hf, rfl, hparameters, hresult⟩ := hs.host hm hg
        rw [← hparameters] at hvs
        rw [← hresult]
        exact keeps_callHost hf hvs
      | none => exact keeps_throw _

end Invocations

end Ranges

end Keel
