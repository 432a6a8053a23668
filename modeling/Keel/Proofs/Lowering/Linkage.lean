import Keel.Proofs.Lowering.Callees
import Keel.Proofs.Syntax.Definitions

/-! The functions of a module are those of the table of functions. -/

namespace Keel

open scoped List

namespace Wasm

abbrev FunctionHead := String × List ResultType × ResultType

def Module.heads (m : Module) : List FunctionHead :=
  m.imports.map (fun f => (f.name, f.params, f.result)) ++ m.functions.map fun f => (f.name, f.params, f.result)

lemma Module.functionNames_eq (m : Module) : m.functionNames = m.heads.map Prod.fst := by
  unfold functionNames heads
  simp only [List.map_append, List.map_map, Function.comp_def]

end Wasm

namespace Lowering

variable {p : Program} {exported : Bool} {m : Wasm.Module} {tables : Tables} {code : List Wasm.Instr} {s : State}

def head : String × Signature → Wasm.FunctionHead
  | (name, s) => (name, s.parameters.map ValueType.numType?, s.result.numType?)

def startHeads (p : Program) : List Wasm.FunctionHead :=
  if p.all isDefinition then [] else [(startName, [], none)]

/-- The table of functions and the module agree. -/
structure Provides (p : Program) (tables : Tables) (m : Wasm.Module) : Prop where
  distinct : (tables.functions.map Prod.fst).Nodup
  heads : m.heads ~ tables.functions.map head ++ startHeads p
  callable : ∀ f ∈ p.signatures, ∀ (place : Position) (args : List Expr) (s : State),
    args.length = f.parameterTypes.length → expression tables (.call place f.name args) s =
      (do return ⟨.call f.name (← arguments tables place args f.parameterTypes), f.result⟩ : Lower Lowered) s
  callees : ∀ f ∈ m.functions, CallsListed tables.functions f.body

lemma Lowers.head_eq {strings : StringTable} {d : Definition} {f : Wasm.Function} (h : Lowers tables strings d f)
    (hd : d.Paired) : (f.name, f.params, f.result) = Lowering.head (entry d.signature) := by
  obtain ⟨s, codes, t, -, -, -, -, rfl⟩ := h
  simp only [functionOf, head, entry, hd.own]

lemma heads_of_forall₂ {strings : StringTable} {ds : List Definition} {fs : List Wasm.Function}
    (h : List.Forall₂ (Lowers tables strings) ds fs) (hds : ∀ d ∈ ds, d.Paired) :
    fs.map (fun f => (f.name, f.params, f.result)) = (ds.map Definition.signature).map (head ∘ entry) := by
  induction h with
  | nil => rfl
  | cons hd _ ih =>
    rw [List.forall_mem_cons] at hds
    rw [List.map_cons, ih hds.2, hd.head_eq hds.1]
    rfl

lemma startFunction_heads :
    (startFunction p code s.scope).toList.map (fun f => (f.name, f.params, f.result)) = startHeads p := by
  unfold startFunction startHeads
  split_ifs <;> rfl

lemma Comprises.heads (h : Comprises p exported tables code s m) (hpaired : ∀ d ∈ p.definitions, d.Paired) :
    m.heads = (p.hosts ++ p.definitions.map Definition.signature).map (head ∘ entry) ++ startHeads p := by
  unfold Wasm.Module.heads
  rw [h.imports, h.functions, List.map_map, List.map_append, heads_of_forall₂ h.definitions hpaired,
    startFunction_heads, List.map_append, List.append_assoc]
  rfl

lemma listed_perm (hdistinct : (p.listed.map Prototype.name).Nodup) (hhosts : prototypesAmong p.entities ⊆ p.hosts)
    (hhidden : p.hidden = []) : p.hosts ++ p.definitions.map Definition.signature ~ p.listed := by
  have hlisted : prototypesAmong p.entities ++ p.definitions.map Definition.signature ~ p.listed := by
    have hperm := signatures_perm p
    rw [hhidden, List.append_nil] at hperm
    exact (signaturesAmong_perm p.entities).symm.trans hperm
  have hnodup : (prototypesAmong p.entities).Nodup :=
    (hlisted.nodup_iff.mpr hdistinct.of_map).of_append_left
  have heq : p.hosts = prototypesAmong p.entities :=
    (hosts_sublist p).eq_of_length_le (hnodup.subperm hhosts).length_le
  rwa [heq]

lemma Comprises.callees (h : Comprises p exported tables code s m) {f : Wasm.Function} (hf : f ∈ m.functions) :
    CallsListed tables.functions f.body := by
  rw [h.functions, List.mem_append] at hf
  obtain hf | hf := hf
  · exact forall_of_forall₂ (fun _ _ hd => hd.callsListed) h.definitions f hf
  · unfold startFunction at hf
    split_ifs at hf
    · cases hf
    · obtain rfl := List.mem_singleton.mp hf
      exact topStatements_callListed h.statements

lemma Provides.resolves (h : Provides p tables m) : m.callsResolve = true := by
  have hlisted : tables.functions.map Prod.fst ⊆ m.functionNames := by
    rw [m.functionNames_eq]
    refine List.Subset.trans ?_ (h.heads.map Prod.fst).symm.subset
    rw [List.map_append, List.map_map]
    exact List.subset_append_left _ _
  exact callsResolve_iff.mpr fun f hf callee hcallee => hlisted (h.callees f hf callee hcallee)

lemma expression_call_listed {f : Prototype} {place : Position} {args : List Expr}
    (hf : tables.functions.lookup f.name = some ⟨f.parameterTypes, f.result⟩)
    (hn : args.length = f.parameterTypes.length) : expression tables (.call place f.name args) =
      (do return ⟨.call f.name (← arguments tables place args f.parameterTypes), f.result⟩ : Lower Lowered) := by
  rw [expression, call, hf]
  exact if_neg fun hne => hne hn.symm

end Lowering

open Lowering

variable {p : Program} {exported : Bool} {m : Wasm.Module}

/-- The table of functions and the module agree, and so every call that is made refers to a function of the module, if
prototypes stand outside of functions only and no function stands within a value. -/
theorem lower_provides {source : String} {table : Precedences} (hparse : parseText source table = .ok p)
    (h : lower p exported = .ok m) (hhosts : prototypesAmong p.entities ⊆ p.hosts)
    (hhidden : p.hidden = []) : ∃ tables, functionTable p = .ok tables.functions ∧
      globalTable p = .ok tables.globals ∧ Provides p tables m ∧ compile p exported = .ok m := by
  obtain ⟨tables, code, s, hm⟩ := lower_ok h
  obtain ⟨heq, hdistinct⟩ := functionTable_iff.mp hm.functionTable
  have hperm := listed_perm hdistinct hhosts hhidden
  have hheads : m.heads ~ tables.functions.map head ++ startHeads p := by
    rw [hm.heads fun d hd => ((parseText_shaped hparse).definitions d hd).1, heq, List.map_map]
    exact (hperm.map _).append_right _
  have hprovides : Provides p tables m := by
    refine ⟨by rwa [functionTable_names hm.functionTable], hheads, ?_, fun f hf => hm.callees hf⟩
    intro f hf place args s hn
    have hf' := (signatures_perm p).mem_iff.mp hf
    rw [hhidden, List.append_nil] at hf'
    rw [expression_call_listed (lookup_listed hm.functionTable hf') hn]
  refine ⟨tables, hm.functionTable, hm.globalTable, hprovides, ?_⟩
  unfold compile
  rw [h]
  exact if_pos hprovides.resolves

def nestedSource : String :=
  "fn log(i64 n)->void;fn f()->i32\x7bfn g(i8 n)->i32\x7breturn f()+h(n);\x7dreturn g(1);\x7d" ++
  "if(f()>0)\x7bfn h(i32 n)->i32\x7blog(n);return g(n);\x7dlog(h(2));\x7d"

theorem lower_provides_nested : ∃ p m, parseText nestedSource .standard = .ok p ∧ lower p true = .ok m ∧
    (∃ tables, functionTable p = .ok tables.functions ∧ globalTable p = .ok tables.globals ∧
      Provides p tables m ∧ compile p true = .ok m) ∧
    m.functionNames = ["log", "g", "f", "h", "__start"] := by
  obtain ⟨p, m, hp, hm, hhosts, hhidden, hnames⟩ := exists_compiled
    (P := fun p m => (∀ f ∈ prototypesAmong p.entities, f ∈ p.hosts) ∧ p.hidden = [] ∧
      m.functionNames = ["log", "g", "f", "h", "__start"])
    (show checkCompiled nestedSource _ = true by decide +kernel)
  obtain ⟨hlower, -⟩ := compile_ok hm
  exact ⟨p, m, hp, hlower, lower_provides hp hlower hhosts hhidden, hnames⟩

theorem lower_withholds : ∃ p m,
    parseText "fn main() -> i32 \x7b fn g(i32 n) -> i32; return 1; \x7d\n" .standard = .ok p ∧ compile p true = .ok m ∧
    ((functionTable p).toOption.map fun functions => functions.map Prod.fst) = some ["main", "g"] ∧
    m.functionNames = ["main"] :=
  exists_compiled (by decide +kernel)

end Keel
