import Keel.Proofs.Lowering.Places
import Keel.Proofs.Ranges.Sessions

namespace Keel

def ValueType.widened : ValueType → ValueType
  | i8 | i16 | i32 => i32
  | i64 => i64
  | float => float
  | double => double
  | bool => bool
  | void => void

def widening : Mapping := ⟨id, ValueType.widened⟩

def Outline.widened (b : Outline) : Outline :=
  ⟨b.name, b.parameters.map (Parameter.mapped widening), b.result.widened,
    b.declared.map fun v => (v.1, v.2.widened)⟩

namespace Program

def widened (p : Program) : Program := p.mapped widening

end Program

namespace Ranges

open Lowering
open Wasm (Instr NumType)

section Types

variable {a b type : ValueType} {o : Option Wasm.Value}

lemma narrower_widened (type : ValueType) : Narrower type type.widened := by
  cases type <;> exact ⟨rfl, by decide⟩

lemma widened_full (t : NumType) : (full t).widened = full t := by
  cases t <;> rfl

lemma numType?_widened (type : ValueType) : type.widened.numType? = type.numType? := by
  cases type <;> rfl

lemma Narrower.widened (h : Narrower a b) : Narrower a.widened b.widened := by
  obtain ⟨hnum, hrank⟩ := h
  refine ⟨by rwa [numType?_widened, numType?_widened], ?_⟩
  revert hnum hrank
  cases a <;> cases b <;> decide

lemma widened_eq_void : type.widened = .void ↔ type = .void := by
  cases type <;> decide

end Types

section Programs

variable (p : Program)

lemma outline_widened (d : Definition) : (d.mapped widening).outline = d.outline.widened := by
  unfold Definition.outline Outline.widened
  rw [Definition.variables_mapped, Definition.parameters_mapped]
  rfl

lemma outlines_widened : p.widened.outlines = p.outlines.map Outline.widened := by
  unfold Program.widened Program.outlines Program.definitions Program.startOutline Program.startVariables
  rw [isDefinition_mapped, Program.entities_mapped, definitionsAmong_mapped, declaredAmong_mapped, List.map_append,
    List.map_map, List.map_map]
  congr 1
  · congr 1
    funext d
    exact outline_widened d
  · split_ifs <;> rfl

lemma parameterTypes_widened (b : Outline) : b.widened.parameterTypes = b.parameterTypes.map ValueType.widened := by
  unfold Outline.widened Outline.parameterTypes
  rw [List.map_map, List.map_map]
  rfl

lemma ownTypes_widened (b : Outline) : b.widened.ownTypes = b.ownTypes.map ValueType.widened := by
  unfold Outline.widened Outline.ownTypes
  simp only [widened_eq_void, List.map_append, List.map_map]
  split_ifs <;> rfl

lemma types_widened (b : Outline) : b.widened.types = b.types.map ValueType.widened := by
  unfold Outline.types
  rw [parameterTypes_widened, ownTypes_widened, List.map_append]

lemma hostOf_widened (f : Prototype) : hostOf (f.mapped widening) = hostOf f := by
  unfold hostOf Prototype.mapped
  simp only [List.map_map, Wasm.HostFunction.mk.injEq, true_and]
  refine ⟨?_, numType?_widened _⟩
  congr 1
  funext q
  exact numType?_widened _

end Programs

def Signature.widened (s : Signature) : Signature := ⟨s.parameters.map ValueType.widened, s.result.widened⟩

def widenedEntry (e : String × Signature) : String × Signature := (e.1, Signature.widened e.2)

section Code

variable {p : Program} {types : List ValueType} {type : ValueType} {code : Instr} {m : Wasm.Module}

lemma functionTable_widened {functions : FunctionTable} : functionTable p.widened = .ok functions ↔
    functions = (p.listed.map entry).map widenedEntry ∧ (p.listed.map Prototype.name).Nodup := by
  have hentries : p.widened.listed.map entry = (p.listed.map entry).map widenedEntry := by
    rw [Program.widened, Program.listed_mapped, List.map_map, List.map_map]
    congr 1
  have hnames : p.widened.listed.map Prototype.name = p.listed.map Prototype.name := by
    rw [Program.widened, Program.listed_mapped, List.map_map]
    rfl
  rw [functionTable_iff, hentries, hnames]

lemma Knows.widened {callee : String} {s : Signature} (h : Knows p callee s) :
    Knows p.widened callee (Signature.widened s) := by
  obtain ⟨functions, htable, hs⟩ := h
  obtain ⟨rfl, hnodup⟩ := functionTable_iff.mp htable
  refine ⟨_, functionTable_widened.mpr ⟨rfl, hnodup⟩, ?_⟩
  have hlookup := lookup_map_key (p.listed.map entry) (fun _ => Signature.widened) callee
  rw [hs] at hlookup
  exact hlookup

lemma lookup_globals_widened {name : String} (h : p.globals.lookup name = some type) :
    p.widened.globals.lookup name = some type.widened := by
  have hlookup := lookup_map_key p.globals (fun _ => ValueType.widened) name
  rw [h] at hlookup
  rw [Program.widened, Program.globals_mapped]
  exact hlookup

mutual

lemma HasRange.widened : ∀ {x : Instr} {type : ValueType}, HasRange p types x type →
    HasRange p.widened (types.map ValueType.widened) x type.widened
  | _, _, .nop => .nop
  | _, type, .const hv => .const (hv.widen (narrower_widened type))
  | _, _, .localGet hi => .localGet (by rw [List.getElem?_map, hi]; rfl)
  | _, _, .localSet hi hx => .localSet (by rw [List.getElem?_map, hi]; rfl) hx.widened
  | _, _, .localTee hi hx => .localTee (by rw [List.getElem?_map, hi]; rfl) hx.widened
  | _, _, .globalGet hname => .globalGet (lookup_globals_widened hname)
  | _, _, .globalSet hname hx => .globalSet (lookup_globals_widened hname) hx.widened
  | _, _, .convert hx => by
    rw [widened_full]
    exact .convert hx.widened
  | _, _, .binary hx hy => by
    rw [widened_full]
    exact .binary hx.widened hy.widened
  | _, _, .compare hx hy => .compare hx.widened hy.widened
  | _, type, .shifted hbits hx => by
    -- Shifting leaves any number in 32 bits, which is all that is asked of a wide type.
    have hwide : type.widened = full (Wasm.BinaryOp.resultType .shiftRight) := by
      cases type <;> cases hbits <;> rfl
    rw [hwide]
    exact .binary hx.widened (.const (inRange_full (.i32 _)))
  | _, _, .call hs hargs => .call hs.widened hargs.widened
  | _, _, .drop hx => .drop hx.widened
  | _, _, .block hbody => .block hbody.widened
  | _, _, .labelled hbody => .labelled hbody.widened
  | _, _, .ifThen hc hx => .ifThen hc.widened hx.widened
  | _, _, .br => .br
  | _, _, .widen hx hab => .widen hx.widened hab.widened

lemma IsCondition.widened : ∀ {c : Instr}, IsCondition p types c →
    IsCondition p.widened (types.map ValueType.widened) c
  | _, .single hx => .single hx.widened
  | _, .choice hc hx hy => .choice hc.widened hx.widened hy.widened

lemma SequenceHasRange.widened : ∀ {xs : List Instr} {type : ValueType}, SequenceHasRange p types xs type →
    SequenceHasRange p.widened (types.map ValueType.widened) xs type.widened
  | _, _, .nil => .nil
  | _, _, .last hx => .last hx.widened
  | _, _, .cons hx hrest => .cons hx.widened hrest.widened

lemma ArgumentsHaveRanges.widened : ∀ {xs : List Instr} {as : List ValueType}, ArgumentsHaveRanges p types xs as →
    ArgumentsHaveRanges p.widened (types.map ValueType.widened) xs (as.map ValueType.widened)
  | _, _, .nil => .nil
  | _, _, .cons hx hrest => .cons hx.widened hrest.widened

end

lemma FunctionInRange.widened {b : Outline} {f : Wasm.Function} (h : FunctionInRange p b f) :
    FunctionInRange p.widened b.widened f where
  name := h.name
  vars := by
    rw [h.vars, ownTypes_widened, List.map_map]
    congr 1
    funext type
    exact (numType?_widened type).symm
  body := by
    rw [types_widened]
    exact h.body.widened

lemma coherent_widened (h : p.Coherent) : p.widened.Coherent := by
  unfold Program.Coherent at h ⊢
  cases htable : functionTable p.widened with
  | error e => trivial
  | ok functions =>
    obtain ⟨rfl, hnodup⟩ := functionTable_widened.mp htable
    rw [functionTable_iff.mpr ⟨rfl, hnodup⟩] at h
    rw [outlines_widened]
    intro _ he' _ hb' hname
    obtain ⟨e, he, rfl⟩ := List.mem_map.mp he'
    obtain ⟨b, hb, rfl⟩ := List.mem_map.mp hb'
    obtain ⟨hparameters, hresult⟩ := h e he b hb hname
    exact ⟨by rw [parameterTypes_widened, hparameters]; rfl, congrArg ValueType.widened hresult⟩

lemma ModuleInRange.widened (h : ModuleInRange p m) : ModuleInRange p.widened m where
  functions := by
    rw [outlines_widened, List.forall₂_map_left_iff]
    exact h.functions.imp fun _ _ hf => hf.widened
  imports := by
    rw [h.imports, Program.widened, Program.hosts_mapped, List.map_map]
    congr 1
    funext f
    exact (hostOf_widened f).symm
  start := by
    intro name hname
    obtain ⟨b, hb, rfl, hparameters⟩ := h.start name hname
    refine ⟨b.widened, ?_, rfl, by rw [parameterTypes_widened, hparameters]; rfl⟩
    rw [outlines_widened]
    exact List.mem_map_of_mem hb
  distinct := by
    rw [outlines_widened, List.map_map]
    exact h.distinct
  coherent := coherent_widened h.coherent

end Code

end Ranges

end Keel
