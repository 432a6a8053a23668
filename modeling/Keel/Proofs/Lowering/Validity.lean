import Keel.Proofs.Lowering.Programs
import Keel.Proofs.Lowering.Typing

/-! The module of a program is well typed, and every variable has a local of its own. -/

namespace Keel.Lowering

open Wasm

/-- Each parameter and each declared variable has its own local in a function, and so has the result. -/
structure Allocates (parameters : List Parameter) (declared : List (String × ValueType)) (scope : Scope)
    (f : Function) : Prop where
  params : f.params = parameters.map fun q => q.type.numType?
  vars : f.vars = scope.vars
  names : scope.locals.map (fun b => (b.1, b.2.type)) =
    (parameters.map (fun q => (q.name, q.type)) ++ declared).reverse
  distinct : (scope.locals.map (fun b => b.2.index) ++ scope.returnSlot.toList).Nodup
  typed : ∀ b ∈ scope.locals, (f.params ++ f.vars)[b.2.index]? = some b.2.type.numType?
  slot : ∀ i, scope.returnSlot = some i → (f.params ++ f.vars)[i]? = some f.result

variable {tables : Tables} {functions : List (String × FunctionType)} {globals : List (String × NumType)}
  {table : Precedences} {p : Program} {exported : Bool} {m : Wasm.Module} {code : List Instr} {s : State}

lemma scopeOf_typed (d : Definition) :
    (scopeOf d).Typed (d.parameters.map fun q => q.type.numType?) :=
  (Scope.typed_ofSignature _ _).declareAll

lemma Lowers.allocates {strings : StringTable} {d : Definition} {f : Function} (h : Lowers tables strings d f)
    (hd : d.Paired) : Allocates d.parameters d.variables (scopeOf d) f := by
  obtain ⟨s, codes, t, -, hs, ht, -, rfl⟩ := h
  rw [hs] at ht
  have hparams : d.own.parameterTypes.map ValueType.numType? = d.parameters.map fun q => q.type.numType? := by
    rw [hd.own, ← hd.parameterTypes, List.map_map]
    rfl
  refine ⟨hparams, ?_, bodyScope_names .., Scope.indices_nodup _ _, ?_, ?_⟩
  · exact congrArg Scope.vars ht
  · intro b hb
    simp only [functionOf, hparams, ht]
    exact (scopeOf_typed d).named b hb
  · intro i hi
    have hslot := (scopeOf_typed d).slot i hi
    rw [scopeOf, bodyScope_result] at hslot
    simp only [functionOf, hparams, ht]
    exact hslot

lemma allocates_start (h : startFunction p code (startScope p) = some f) :
    Allocates [] p.startVariables (startScope p) f := by
  unfold startFunction at h
  split_ifs at h
  cases h
  have htyped : (startScope p).Typed [] := (Scope.typed_ofSignature [] .void).declareAll
  refine ⟨rfl, rfl, bodyScope_names .., Scope.indices_nodup _ _, htyped.named, ?_⟩
  intro i hi
  rw [startScope, bodyScope_slot] at hi
  cases hi

structure Grounds (functions : List (String × FunctionType)) (globals : List (String × NumType)) (tables : Tables) :
    Prop where
  functions : ∀ callee s, tables.functions.lookup callee = some s →
    functions.lookup callee = some ⟨s.parameters.map ValueType.numType?, s.result.numType?⟩ ∧
      ∀ t ∈ s.parameters, t ≠ .void
  globals : ∀ name type, tables.globals.lookup name = some type →
    ∃ t, type.numType? = some t ∧ globals.lookup name = some t

lemma Grounds.accords (h : Grounds functions globals tables) {params : List ResultType} {scope : Scope}
    (ht : scope.Typed params) : Accords ⟨functions, globals, params ++ scope.vars⟩ tables params scope :=
  ⟨h.functions, h.globals, rfl, ht⟩

lemma isSome_vars {ps : List Parameter} {result : ValueType} {ds : List (String × ValueType)}
    (hp : ∀ q ∈ ps, q.type ≠ .void) (hd : ∀ v ∈ ds, v.2 ≠ .void) :
    ∀ t ∈ (ps.map fun q => q.type.numType?) ++ ((Scope.ofSignature ps result).declareAll ds).vars, t.isSome := by
  intro t ht
  rw [Scope.declareAll_vars, Scope.ofSignature_vars, List.mem_append, List.mem_append] at ht
  obtain ht | ht | ht := ht
  · obtain ⟨q, hq, rfl⟩ := List.mem_map.mp ht
    exact isSome_numType? (hp q hq)
  · split_ifs at ht with hr
    · cases ht
    · rw [List.mem_singleton] at ht
      rw [ht]
      exact isSome_numType? hr
  · obtain ⟨v, hv, rfl⟩ := List.mem_map.mp ht
    exact isSome_numType? (hd v hv)

lemma Lowers.wellTyped (hg : Grounds functions globals tables) {strings : StringTable} {d : Definition} {f : Function}
    (h : Lowers tables strings d f) (hshape : d.Shaped table) (hp : ∀ t ∈ d.signature.parameterTypes, t ≠ .void)
    (hv : ∀ v ∈ d.variables, v.2 ≠ .void) : f.WellTyped functions globals := by
  obtain ⟨hparams, hvars, -, -, -, hslot⟩ := h.allocates hshape.1
  obtain ⟨s, codes, t, hb, hs, ht, -, rfl⟩ := h
  rw [hs] at ht
  have hend : t.scope = scopeOf d := ht
  refine ⟨?_, ?_⟩
  · rw [hparams, hvars]
    refine isSome_vars (fun q hq => hp _ ?_) hv
    rw [← hshape.1.parameterTypes]
    exact List.mem_map_of_mem hq
  · rw [hparams, hvars] at hslot ⊢
    have haccords := hg.accords (scopeOf_typed d)
    have hcodes : SequenceHasType _ (Labels.enter [] (some endLabel) none) codes none :=
      block_typed haccords rfl d.body hshape.2 hb (hend ▸ .refl _)
    simp only [functionOf, hend]
    cases hreturn : (scopeOf d).returnSlot with
    | none =>
      have hvoid : d.signature.result = .void := by
        rw [scopeOf, bodyScope_slot] at hreturn
        by_contra hne
        rw [if_neg hne] at hreturn
        cases hreturn
      rw [Definition.own_result, hvoid]
      exact .block (.last (.block hcodes))
    | some i => exact .block (.cons (.block hcodes) (.last (.localGet (hslot i hreturn))))

lemma topStatements_typed (hg : Grounds functions globals tables) {scope : Scope} {params : List ResultType}
    (ht : scope.Typed params) {labels : Labels} (hlabel : List.lookup endLabel labels = some none) {t : State}
    (hshape : Stmt.AllShaped table result p) (h : topStatements tables p s = .ok (code, t))
    (hw : t.scope.Within scope)
    (hglobal : ∀ v ∈ p.globals, tables.globals.lookup v.1 = some v.2) :
    SequenceHasType ⟨functions, globals, params ++ scope.vars⟩ labels code none := by
  induction p generalizing s code with
  | nil =>
    obtain ⟨rfl, -⟩ := topStatements_nil h
    exact .nil
  | cons st p ih =>
    obtain ⟨head, u, rest, hc, hr, rfl⟩ := topStatements_cons h
    have hu := (adds_topStatements hr).within.trans hw
    have hrest := ih hshape.2 hr fun v hv => hglobal v (mem_globals_cons hv)
    refine .push ?_ hrest
    by_cases hst : IsGlobal st
    · cases st with
      | declare place type name value =>
        obtain ⟨y, z, hy, hz, rfl⟩ := topStatement_declare hc
        have hlookup := hglobal (name, type) (by simp [Program.globals, Stmt.global?])
        obtain ⟨n, hn, hlookup⟩ := hg.globals name type hlookup
        obtain ⟨hzt, hzv⟩ := coerce_typed (expression_typed (hg.accords ht) hlabel value hshape.1.2 hy hu) hz
        unfold Lowered.WellTyped at hzt
        rw [hzv, hn] at hzt
        exact .globalSet hlookup hzt
      | _ => exact absurd hst id
    · rw [topStatement_eq hst] at hc
      exact statement_typed (hg.accords ht) hlabel st hshape.1 hc hu

lemma startFunction_wellTyped (hg : Grounds functions globals tables) (h : Comprises p exported tables code s m)
    (hshape : p.Shaped table) (hv : ∀ v ∈ p.startVariables, v.2 ≠ .void) {f : Function}
    (hf : startFunction p code (startScope p) = some f) : f.WellTyped functions globals := by
  have htyped : (startScope p).Typed [] := (Scope.typed_ofSignature [] .void).declareAll
  obtain ⟨hglobals, hnodup, -⟩ := globalTable_ok h.globalTable
  have hlookup : ∀ v ∈ p.globals, tables.globals.lookup v.1 = some v.2 := by
    intro v hm
    rw [lookup_eq_some_iff_mem hnodup, hglobals]
    exact hm
  have hcodes : SequenceHasType _ (Labels.enter [] (some endLabel) none) code none :=
    topStatements_typed hg htyped rfl hshape h.statements (h.scope ▸ .refl _) hlookup
  unfold startFunction at hf
  split_ifs at hf
  cases hf
  have hnone : ∀ q ∈ ([] : List Parameter), q.type ≠ .void := by simp
  exact ⟨isSome_vars hnone hv, .block hcodes⟩

lemma mem_functionTypes (h : Comprises p exported tables code s m)
    (hhosts : ∀ f ∈ prototypesAmong p.entities, f ∈ p.hosts) (hpaired : ∀ d ∈ p.definitions, d.Paired) {f : Prototype}
    (hf : f ∈ p.signatures) :
    (f.name, ⟨f.parameterTypes.map ValueType.numType?, f.result.numType?⟩) ∈ m.functionTypes := by
  unfold Wasm.Module.functionTypes
  rw [List.mem_append]
  obtain hf | hf := List.mem_append.mp ((signaturesAmong_perm p.entities).mem_iff.mp hf)
  · refine .inl ?_
    rw [h.imports, List.map_map]
    exact List.mem_map.mpr ⟨f, hhosts f hf, rfl⟩
  · obtain ⟨d, hd, rfl⟩ := List.mem_map.mp hf
    refine .inr ?_
    obtain ⟨g, hg, hl⟩ : ∃ g ∈ s.functions, Lowers tables s.strings d g := by
      obtain ⟨i, hi, rfl⟩ := List.getElem_of_mem hd
      have hlen := h.definitions.length_eq
      have hi' : i < s.functions.length := hlen ▸ hi
      exact ⟨s.functions[i], List.getElem_mem _, h.definitions.get hi hi'⟩
    obtain ⟨_, codes, t, -, -, -, -, rfl⟩ := hl
    rw [(hpaired d hd).own] at hg
    rw [h.functions]
    exact List.mem_map.mpr ⟨_, List.mem_append_left _ hg, rfl⟩

lemma functionTypes_keys : m.functionTypes.map Prod.fst = m.functionNames := by
  unfold Wasm.Module.functionTypes Wasm.Module.functionNames
  simp [Function.comp_def]

lemma zeroGlobal_type (v : String × ValueType) (hv : v.2 ≠ .void) : some (zeroGlobal v).init.type = v.2.numType? := by
  obtain ⟨name, type⟩ := v
  cases type with
  | void => exact absurd rfl hv
  | _ => rfl

lemma Comprises.grounds (h : Comprises p exported tables code s m) (hnodup : m.functionNames.Nodup)
    (hp : ∀ f ∈ p.signatures, ∀ t ∈ f.parameterTypes, t ≠ .void)
    (hhosts : ∀ f ∈ prototypesAmong p.entities, f ∈ p.hosts) (hpaired : ∀ d ∈ p.definitions, d.Paired) :
    Grounds m.functionTypes m.globalTypes tables where
  functions := by
    intro callee signature hs
    obtain ⟨f, hf, rfl, rfl⟩ := functionTable_sound h.functionTable hs
    refine ⟨?_, ?_⟩
    · rw [lookup_eq_some_iff_mem (functionTypes_keys ▸ hnodup)]
      exact mem_functionTypes h hhosts hpaired hf
    · exact hp f hf
  globals := by
    intro name type hlookup
    obtain ⟨hglobals, hkeys, hvoid⟩ := globalTable_ok h.globalTable
    have hmem := mem_of_lookup hlookup
    refine ⟨(zeroGlobal (name, type)).init.type, (zeroGlobal_type _ (hvoid _ hmem)).symm, ?_⟩
    unfold Wasm.Module.globalTypes
    rw [h.globals, ← hglobals, List.map_map, lookup_eq_some_iff_mem]
    · exact List.mem_map.mpr ⟨_, hmem, rfl⟩
    · rw [List.map_map]
      exact hkeys

lemma exportNames_nodup (h : Comprises p exported tables code s m)
    (hnames : (p.signatures.map Prototype.name).Nodup) (hmemory : ∀ f ∈ p.signatures, f.name ≠ "memory") :
    (m.exports.map ExportItem.name).Nodup := by
  rw [h.exports, List.map_append]
  split_ifs
  · have hnames' : ((s.functions.map fun f => ExportItem.function f.name).map ExportItem.name) =
        (p.definitions.map Definition.signature).map Prototype.name := by
      rw [List.map_map, List.map_map]
      exact map_name_of_forall₂ h.definitions
    rw [hnames']
    have hsub : ((p.definitions.map Definition.signature).map Prototype.name).Sublist
        ((prototypesAmong p.entities ++ p.definitions.map Definition.signature).map Prototype.name) :=
      (List.sublist_append_right _ _).map _
    refine ((((signaturesAmong_perm _).map _).nodup_iff.mp hnames).sublist hsub).append
      (List.nodup_singleton _) ?_
    simp only [List.map_singleton, List.disjoint_singleton, List.mem_map, not_exists, not_and]
    rintro f ⟨d, hd, rfl⟩ hname
    exact hmemory _ (mem_signatures hd) hname
  · exact List.nodup_singleton _

lemma Comprises.wellTyped (h : Comprises p exported tables code s m) (hshape : p.Shaped table)
    (hnames : (p.signatures.map Prototype.name).Nodup)
    (hreserved : ∀ f ∈ p.signatures, f.name ≠ startName ∧ f.name ≠ "memory")
    (hp : ∀ f ∈ p.signatures, ∀ t ∈ f.parameterTypes, t ≠ .void)
    (hv : ∀ d ∈ p.definitions, ∀ v ∈ d.variables, v.2 ≠ .void)
    (houter : ∀ v ∈ p.startVariables, v.2 ≠ .void)
    (hhosts : ∀ f ∈ prototypesAmong p.entities, f ∈ p.hosts) : m.WellTyped := by
  have hnodup := functionNames_nodup h hnames fun f hf => (hreserved f hf).1
  have hgrounds := h.grounds hnodup hp hhosts fun d hd => (hshape.definitions d hd).1
  constructor
  case functionNames => exact hnodup
  case globalNames =>
    obtain ⟨hglobals, hkeys, -⟩ := globalTable_ok h.globalTable
    rw [h.globals, ← hglobals, List.map_map]
    exact hkeys
  case exportNames => exact exportNames_nodup h hnames fun f hf => (hreserved f hf).2
  case imports =>
    intro f hf t ht
    rw [h.imports] at hf
    obtain ⟨g, hg, rfl⟩ := List.mem_map.mp hf
    obtain ⟨type, htype, rfl⟩ := List.mem_map.mp ht
    exact isSome_numType? (hp g (mem_signatures_of_host hg) type htype)
  case functions =>
    intro f hf
    rw [h.functions, List.mem_append] at hf
    obtain hf | hf := hf
    · obtain ⟨i, hi, rfl⟩ := List.getElem_of_mem hf
      have hlen := h.definitions.length_eq
      have hi' : i < p.definitions.length := hlen ▸ hi
      have hd : p.definitions[i] ∈ p.definitions := List.getElem_mem _
      exact (h.definitions.get hi' hi).wellTyped hgrounds (hshape.definitions _ hd)
        (hp _ (mem_signatures hd)) (hv _ hd)
    · rw [Option.mem_toList, h.scope] at hf
      exact startFunction_wellTyped hgrounds h hshape houter hf
  case exports =>
    intro name hname
    rw [h.exports, List.mem_append] at hname
    split_ifs at hname
    · obtain hname | hname := hname
      · obtain ⟨f, hf, hname⟩ := List.mem_map.mp hname
        cases hname
        rw [h.functions]
        exact ⟨f, List.mem_append_left _ hf, rfl⟩
      · simp at hname
    · simp at hname
  case start =>
    intro name hname
    rw [h.start, Option.map_eq_some_iff] at hname
    obtain ⟨f, hf, rfl⟩ := hname
    rw [lookup_eq_some_iff_mem (functionTypes_keys ▸ hnodup)]
    unfold Wasm.Module.functionTypes
    rw [h.functions, hf, List.map_append]
    refine List.mem_append_right _ (List.mem_append_right _ ?_)
    have htype : f.type = ⟨[], none⟩ := by
      unfold startFunction at hf
      split_ifs at hf
      cases hf
      rfl
    simp [htype]

end Keel.Lowering

namespace Keel

open Lowering Wasm

variable {table : Precedences} {source : String} {p : Program} {exported : Bool} {m : Wasm.Module}

/-- The module of a program is well typed, its functions keep each variable in a local of its own, and code that
is made of an expression leaves what values of the expression's type are held in. -/
theorem compile_wellTyped (hparse : parseText source table = .ok p)
    (hnames : (p.signatures.map Prototype.name).Nodup)
    (hreserved : ∀ f ∈ p.signatures, f.name ≠ startName ∧ f.name ≠ "memory")
    (hparameters : ∀ f ∈ p.signatures, ∀ t ∈ f.parameterTypes, t ≠ .void)
    (hlocals : ∀ d ∈ p.definitions, ∀ v ∈ d.variables, v.2 ≠ .void)
    (houter : ∀ v ∈ p.startVariables, v.2 ≠ .void)
    (hhosts : ∀ f ∈ prototypesAmong p.entities, f ∈ p.hosts)
    (h : compile p exported = .ok m) :
    m.WellTyped ∧
      (∃ fs start, m.functions = fs ++ Option.toList start ∧
        List.Forall₂ (fun d f => f.name = d.signature.name ∧
          Allocates d.parameters d.variables (scopeOf d) f) p.definitions fs ∧
        ∀ f ∈ start, f.name = startName ∧ Allocates [] p.startVariables (startScope p) f) ∧
      ∀ (tables : Tables), functionTable p = .ok tables.functions → globalTable p = .ok tables.globals →
        ∀ (result context : ValueType) (params : List ResultType) (e : Expr) (s t : State) (x : Lowered),
          e.Shaped table result context → expression tables e s = .ok (x, t) → t.scope.Typed params →
          HasType ⟨m.functionTypes, m.globalTypes, params ++ t.scope.vars⟩ [(endLabel, none)] x.code
            x.type.numType? := by
  have hshape := parseText_shaped hparse
  obtain ⟨hlower, -⟩ := compile_ok h
  obtain ⟨tables, code, s, hm⟩ := lower_ok hlower
  have hnodup := functionNames_nodup hm hnames fun f hf => (hreserved f hf).1
  have hpaired : ∀ d ∈ p.definitions, d.Paired := fun d hd => (hshape.definitions d hd).1
  have hgrounds := hm.grounds hnodup hparameters hhosts hpaired
  refine ⟨?_, ⟨s.functions, startFunction p code s.scope, hm.functions, ?_, ?_⟩, ?_⟩
  · exact hm.wellTyped hshape hnames hreserved hparameters hlocals houter hhosts
  · have hdefinitions := (List.forall₂_and_left _ _).mpr ⟨hpaired, hm.definitions⟩
    exact hdefinitions.imp fun d f hd => ⟨hd.2.name, hd.2.allocates hd.1⟩
  · intro f hf
    rw [hm.scope] at hf
    exact ⟨startFunction_name hf, allocates_start hf⟩
  · intro tables' hf hg result context params e s t x he hx ht
    have hsame : tables' = tables := by
      cases tables
      cases tables'
      have hfunctions := hm.functionTable
      have hglobals := hm.globalTable
      simp_all
    subst hsame
    exact expression_typed (hgrounds.accords ht) rfl e he hx (.refl _)

def sampleSource : String :=
  "fn g(i64 n)->i32;i16 t=3;fn f(i8 w)->double\x7bfn h(i64 n)->i64\x7breturn n/2;\x7d" ++
  "if(w>3&&g(h(w))<1)\x7bi16 v=t;t=v*2;return v;\x7dreturn g(\"a\");\x7dif(t>2)\x7bfloat x=f(5);\x7d"

theorem compile_wellTyped_sample :
    ∃ p m, parseText sampleSource .standard = .ok p ∧ compile p true = .ok m ∧ m.WellTyped := by
  have hcheck : (match parseText sampleSource .standard with
      | .ok p => decide ((p.signatures.map Prototype.name).Nodup ∧
          (∀ f ∈ p.signatures, f.name ≠ startName ∧ f.name ≠ "memory") ∧
          (∀ f ∈ p.signatures, ∀ t ∈ f.parameterTypes, t ≠ .void) ∧
          (∀ d ∈ p.definitions, ∀ v ∈ d.variables, v.2 ≠ .void) ∧ (∀ v ∈ p.startVariables, v.2 ≠ .void) ∧
          (∀ f ∈ prototypesAmong p.entities, f ∈ p.hosts) ∧ (compile p true).isOk)
      | .error _ => false) = true := by decide +kernel
  split at hcheck
  · rename_i p hp
    obtain ⟨hnames, hreserved, hparameters, hlocals, houter, hhosts, hok⟩ := of_decide_eq_true hcheck
    cases hm : compile p true with
    | error e => simp [hm, Except.isOk, Except.toBool] at hok
    | ok m =>
      exact ⟨p, m, hp, hm, (compile_wellTyped hp hnames hreserved hparameters hlocals houter hhosts hm).1⟩
  · cases hcheck

end Keel
