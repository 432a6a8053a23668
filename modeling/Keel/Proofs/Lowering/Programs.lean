import Keel.Proofs.Lowering.Effects
import Keel.Proofs.Lowering.Signatures

namespace Keel.Lowering

variable {tables : Tables} {s t : State}

lemma topStatement_declare {place : Position} {type : ValueType} {name : String} {value : Expr} {code : Wasm.Instr}
    (h : topStatement tables (.declare place type name value) s = .ok (code, t)) :
    ∃ y z, expression tables value s = .ok (y, t) ∧ coerce y type place = .ok z ∧ code = .globalSet name z.code := by
  unfold topStatement at h
  obtain ⟨y, u, hy, h⟩ := Lower.bind_ok.mp h
  obtain ⟨z, v, hz, h⟩ := Lower.bind_ok.mp h
  obtain ⟨hc, rfl⟩ := Lower.lift_ok.mp hz
  obtain ⟨rfl, rfl⟩ := Lower.pure_ok.mp h
  exact ⟨y, z, hy, hc, rfl⟩

def IsGlobal : Stmt → Prop
  | .declare _ _ _ _ => True
  | _ => False

lemma topStatement_eq {st : Stmt} (h : ¬ IsGlobal st) : topStatement tables st = statement tables st := by
  cases st with
  | declare => exact absurd trivial h
  | _ => rfl

lemma outerEntities_eq {st : Stmt} (h : ¬ IsGlobal st) : st.outerEntities = st.entities := by
  cases st with
  | declare => exact absurd trivial h
  | _ => rfl

lemma topStatements_nil {codes : List Wasm.Instr} (h : topStatements tables [] s = .ok (codes, t)) :
    codes = [] ∧ s = t := by
  rw [topStatements] at h
  obtain ⟨rfl, rfl⟩ := Lower.pure_ok.mp h
  exact ⟨rfl, rfl⟩

lemma topStatements_cons {st : Stmt} {p : Program} {codes : List Wasm.Instr}
    (h : topStatements tables (st :: p) s = .ok (codes, t)) :
    ∃ code u rest, topStatement tables st s = .ok (code, u) ∧ topStatements tables p u = .ok (rest, t) ∧
      codes = code :: rest := by
  rw [topStatements] at h
  obtain ⟨code, u, hc, h⟩ := Lower.bind_ok.mp h
  obtain ⟨rest, v, hr, h⟩ := Lower.bind_ok.mp h
  obtain ⟨rfl, rfl⟩ := Lower.pure_ok.mp h
  exact ⟨code, u, rest, hc, hr, rfl⟩

lemma adds_topStatement {st : Stmt} {code : Wasm.Instr} (h : topStatement tables st s = .ok (code, t)) :
    Adds tables st.outerEntities s t := by
  by_cases hg : IsGlobal st
  · cases st with
    | declare place type name value =>
      obtain ⟨y, z, hy, -⟩ := topStatement_declare h
      exact adds_expression value hy
    | _ => exact absurd hg id
  · rw [topStatement_eq hg] at h
    rw [outerEntities_eq hg]
    exact adds_statement st h

lemma adds_topStatements {p : Program} {codes : List Wasm.Instr}
    (h : topStatements tables p s = .ok (codes, t)) : Adds tables p.entities s t := by
  induction p generalizing s codes with
  | nil =>
    obtain ⟨-, rfl⟩ := topStatements_nil h
    exact .refl s
  | cons st p ih =>
    obtain ⟨code, u, rest, hc, hr, -⟩ := topStatements_cons h
    exact (adds_topStatement hc).trans (ih hr)

def hostOf (f : Prototype) : Wasm.HostFunction :=
  ⟨f.name, hostModule, f.name, f.parameterTypes.map ValueType.numType?, f.result.numType?⟩

lemma filterMap_hostFunction? (p : Program) : p.filterMap hostFunction? = p.hosts.map hostOf := by
  unfold Program.hosts
  rw [List.map_filterMap]
  congr 1
  funext st
  cases st <;> rfl

def initialState : State := ⟨.ofSignature [] .void, .empty, []⟩

def localNames (ps : List Parameter) (ds : List (String × ValueType)) : List (String × ValueType) :=
  ps.map (fun q => (q.name, q.type)) ++ ds

def bodyScope (ps : List Parameter) (result : ValueType) (ds : List (String × ValueType)) : Scope :=
  (Scope.ofSignature ps result).declareAll ds

section BodyScope

variable (ps : List Parameter) (result : ValueType) (ds : List (String × ValueType))

lemma bodyScope_count : (bodyScope ps result ds).paramCount = ps.length := by
  rw [bodyScope, Scope.declareAll_signature.1, Scope.ofSignature_count]

lemma bodyScope_result : (bodyScope ps result ds).result = result := by
  rw [bodyScope, Scope.declareAll_signature.2.1, Scope.ofSignature_result]

lemma bodyScope_slot : (bodyScope ps result ds).returnSlot = if result = .void then none else some ps.length := by
  rw [bodyScope, Scope.declareAll_signature.2.2, Scope.ofSignature_slot]

lemma bodyScope_vars : (bodyScope ps result ds).vars =
    (if result = .void then [] else [result.numType?]) ++ ds.map fun d => d.2.numType? := by
  rw [bodyScope, Scope.declareAll_vars, Scope.ofSignature_vars]

lemma bodyScope_locals : (bodyScope ps result ds).locals =
    numbered (ps.length + (if result = .void then 0 else 1)) ds ++ numbered 0 (ps.map fun q => (q.name, q.type)) := by
  rw [bodyScope, Scope.declareAll_locals, Scope.ofSignature_locals, Scope.ofSignature_count, Scope.ofSignature_vars]
  split_ifs <;> rfl

lemma bodyScope_names : (bodyScope ps result ds).locals.map (fun b => (b.1, b.2.type)) =
    (localNames ps ds).reverse := by
  rw [localNames, bodyScope_locals, List.map_append, numbered_bindings, numbered_bindings, List.reverse_append]

end BodyScope

def scopeOf (d : Definition) : Scope := bodyScope d.parameters d.signature.result d.variables

def startScope (p : Program) : Scope := bodyScope [] .void p.startVariables

structure Comprises (p : Program) (exported : Bool) (tables : Tables) (code : List Wasm.Instr) (s : State)
    (m : Wasm.Module) : Prop where
  functionTable : functionTable p = .ok tables.functions
  globalTable : globalTable p = .ok tables.globals
  statements : topStatements tables p initialState = .ok (code, s)
  definitions : List.Forall₂ (Lowers tables s.strings) p.definitions s.functions
  scope : s.scope = startScope p
  strings : s.strings = StringTable.empty.internAll (stringsAmong p.entities)
  imports : m.imports = p.hosts.map hostOf
  functions : m.functions = s.functions ++ (startFunction p code s.scope).toList
  globals : m.globals = p.globals.map zeroGlobal
  exports : m.exports =
    (if exported then s.functions.map fun f => .function f.name else []) ++ [.memory "memory"]
  start : m.start = (startFunction p code s.scope).map Wasm.Function.name

variable {p : Program} {exported : Bool} {m : Wasm.Module}

lemma exists_topStatements (h : ∀ st ∈ p, ∀ s, ∃ code t, topStatement tables st s = .ok (code, t)) (s : State) :
    ∃ codes t, topStatements tables p s = .ok (codes, t) := by
  induction p generalizing s with
  | nil => exact ⟨[], s, rfl⟩
  | cons st p ih =>
    obtain ⟨hst, hp⟩ := List.forall_mem_cons.mp h
    obtain ⟨code, u, hcode⟩ := hst s
    obtain ⟨codes, t, hcodes⟩ := ih hp u
    refine ⟨code :: codes, t, ?_⟩
    rw [topStatements]
    exact Lower.bind_ok.mpr ⟨code, u, hcode, Lower.bind_ok.mpr ⟨codes, t, hcodes, rfl⟩⟩

lemma lower_of_statements (exported : Bool) {code : List Wasm.Instr}
    (hs : topStatements tables p initialState = .ok (code, s))
    (hf : Lowering.functionTable p = .ok tables.functions) (hg : Lowering.globalTable p = .ok tables.globals) :
    ∃ m, lower p exported = .ok m ∧ Comprises p exported tables code s m ∧ m.segments = s.strings.segments ∧
      m.pages = s.strings.pages := by
  have ha := adds_topStatements hs
  obtain ⟨fs, hfs, hl⟩ := ha.functions
  obtain rfl : s.functions = fs := hfs
  refine ⟨_, except_bind_ok.mpr ⟨_, hf, except_bind_ok.mpr ⟨_, hg, except_bind_ok.mpr ⟨_, hs, rfl⟩⟩⟩, ?_, rfl, rfl⟩
  exact ⟨hf, hg, hs, hl, ha.scope, ha.strings, filterMap_hostFunction? p, rfl, by rw [← (globalTable_ok hg).1], rfl,
    rfl⟩

lemma lower_memory (h : lower p exported = .ok m) : ∃ tables code s, Comprises p exported tables code s m ∧
    m.segments = s.strings.segments ∧ m.pages = s.strings.pages := by
  have hlower := h
  unfold lower at h
  obtain ⟨functions, hf, h⟩ := except_bind_ok.mp h
  obtain ⟨globals, hg, h⟩ := except_bind_ok.mp h
  obtain ⟨⟨code, s⟩, hs, -⟩ := except_bind_ok.mp h
  obtain ⟨m', hm', hcomprises, hmemory⟩ := lower_of_statements exported hs hf hg
  obtain rfl := Except.ok.inj (hlower.symm.trans hm')
  exact ⟨⟨functions, globals⟩, code, s, hcomprises, hmemory⟩

lemma lower_ok (h : lower p exported = .ok m) : ∃ tables code s, Comprises p exported tables code s m := by
  obtain ⟨tables, code, s, hm, -⟩ := lower_memory h
  exact ⟨tables, code, s, hm⟩

lemma compile_ok (h : compile p exported = .ok m) : lower p exported = .ok m ∧ m.callsResolve = true := by
  unfold compile at h
  obtain ⟨m', hm, h⟩ := except_bind_ok.mp h
  split_ifs at h with hc
  · cases h
    exact ⟨hm, hc⟩

lemma compile_error {e : CompileError} (h : lower p exported = .error e) : compile p exported = .error e := by
  unfold compile
  rw [h]
  rfl

lemma callsResolve_iff :
    m.callsResolve = true ↔ ∀ f ∈ m.functions, ∀ callee ∈ f.body.callees, callee ∈ m.functionNames := by
  simp only [Wasm.Module.callsResolve, List.all_eq_true, List.contains_iff_mem]

lemma forall_of_forall₂ {α β : Type} {R : α → β → Prop} {P : β → Prop} (hP : ∀ a b, R a b → P b) {as : List α}
    {bs : List β} (h : List.Forall₂ R as bs) : ∀ b ∈ bs, P b := by
  induction h with
  | nil => exact fun _ hb => nomatch hb
  | cons hab _ ih => exact List.forall_mem_cons.mpr ⟨hP _ _ hab, ih⟩

lemma Lowers.name {strings : StringTable} {d : Definition} {f : Wasm.Function} (h : Lowers tables strings d f) :
    f.name = d.signature.name := by
  obtain ⟨s, codes, t, -, -, -, -, rfl⟩ := h
  rfl

lemma map_name_of_forall₂ {strings : StringTable} {ds : List Definition} {fs : List Wasm.Function}
    (h : List.Forall₂ (Lowers tables strings) ds fs) :
    fs.map Wasm.Function.name = ds.map fun d => d.signature.name := by
  induction h with
  | nil => rfl
  | cons hd _ ih => rw [List.map_cons, List.map_cons, ih, hd.name]

lemma startFunction_name {code : List Wasm.Instr} {scope : Scope} {f : Wasm.Function}
    (h : startFunction p code scope = some f) : f.name = startName := by
  unfold startFunction at h
  split_ifs at h
  cases h
  rfl

lemma functionNames_nodup {code : List Wasm.Instr} (h : Comprises p exported tables code s m)
    (hnames : (p.signatures.map Prototype.name).Nodup) (hstart : ∀ f ∈ p.signatures, f.name ≠ startName) :
    m.functionNames.Nodup := by
  have hperm := signaturesAmong_perm p.entities
  have hsub : (p.hosts ++ p.definitions.map Definition.signature).Sublist
      (prototypesAmong p.entities ++ (definitionsAmong p.entities).map Definition.signature) :=
    (hosts_sublist p).append (.refl _)
  have hnodup : ((p.hosts ++ p.definitions.map Definition.signature).map Prototype.name).Nodup :=
    (((hperm.map _).nodup_iff.mp hnames).sublist (hsub.map _))
  have hfresh : startName ∉ (p.hosts ++ p.definitions.map Definition.signature).map Prototype.name := by
    rw [List.mem_map]
    rintro ⟨f, hf, hname⟩
    exact hstart f (hperm.mem_iff.mpr (hsub.subset hf)) hname
  have heq : m.functionNames = (p.hosts ++ p.definitions.map Definition.signature).map Prototype.name ++
      (startFunction p code s.scope).toList.map Wasm.Function.name := by
    unfold Wasm.Module.functionNames
    rw [h.imports, h.functions, List.map_append, map_name_of_forall₂ h.definitions]
    simp [Function.comp_def, hostOf]
  rw [heq]
  cases hf : startFunction p code s.scope with
  | none => simpa using hnodup
  | some f =>
    rw [Option.toList_some, List.map_singleton, startFunction_name hf]
    exact hnodup.append (List.nodup_singleton _) (by simpa using hfresh)

end Keel.Lowering
