import Keel.Syntax
import Mathlib.Data.List.Perm.Basic
import Mathlib.Tactic.Common

namespace Keel

open scoped List

inductive Entity where
  | declaration (name : String) (type : ValueType)
  | string (value : String)
  | function (signature : Prototype) (types : List ValueType) (body : List Stmt)
  | prototype (signature : Prototype)

structure Definition where
  signature : Prototype
  types : List ValueType
  body : List Stmt

namespace Prototype

def Paired (p : Prototype) : Prop := p.parameterNames.length = p.parameterTypes.length

variable {p : Prototype}

lemma Paired.types (h : p.Paired) : p.parameters.map Parameter.type = p.parameterTypes :=
  calc p.parameters.map Parameter.type = (p.parameterTypes.zip p.parameterNames).map Prod.fst := by
        simp only [parameters, List.zip, List.map_zipWith]
    _ = p.parameterTypes := List.map_fst_zip (Nat.le_of_eq h.symm)

lemma Paired.names (h : p.Paired) : p.parameters.map Parameter.name = p.parameterNames :=
  calc p.parameters.map Parameter.name = (p.parameterTypes.zip p.parameterNames).map Prod.snd := by
        simp only [parameters, List.zip, List.map_zipWith]
    _ = p.parameterNames := List.map_snd_zip (Nat.le_of_eq h)

end Prototype

namespace Definition

def own (d : Definition) : Prototype := d.signature.taking d.types

@[simp] lemma own_result (d : Definition) : d.own.result = d.signature.result := rfl

def parameters (d : Definition) : List Parameter := d.own.parameters

def Paired (d : Definition) : Prop := d.signature.Paired ∧ d.types = d.signature.parameterTypes

lemma Paired.own {d : Definition} (h : d.Paired) : d.own = d.signature := by
  rw [Definition.own, h.2]
  rfl

lemma Paired.parameters {d : Definition} (h : d.Paired) : d.parameters = d.signature.parameters := by
  rw [Definition.parameters, h.own]

lemma Paired.parameterTypes {d : Definition} (h : d.Paired) :
    d.parameters.map Parameter.type = d.signature.parameterTypes := by
  rw [h.parameters, h.1.types]

end Definition

namespace Entity

def declared? : Entity → Option (String × ValueType)
  | declaration name type => some (name, type)
  | string _ | function _ _ _ | prototype _ => none

def string? : Entity → Option String
  | string value => some value
  | declaration _ _ | function _ _ _ | prototype _ => none

def definition? : Entity → Option Definition
  | function signature types body => some ⟨signature, types, body⟩
  | declaration _ _ | string _ | prototype _ => none

def prototype? : Entity → Option Prototype
  | prototype signature => some signature
  | declaration _ _ | string _ | function _ _ _ => none

def signature? : Entity → Option Prototype
  | function signature _ _ | prototype signature => some signature
  | declaration _ _ | string _ => none

def isShared (e : Entity) : Bool := e.declared?.isNone

end Entity

mutual

def Expr.entities : Expr → List Entity
  | .number _ _ _ | .reference _ _ | .importFile _ _ => []
  | .binary _ _ lhs rhs => lhs.entities ++ rhs.entities
  | .call _ _ args => Expr.entitiesOfAll args
  | .cast _ _ value | .assign _ _ value => value.entities
  | .string _ value => [.string value]
  | .conditional _ conditions _ body => Condition.entitiesOfAll conditions ++ Stmt.entitiesOfAll body

def Expr.entitiesOfAll : List Expr → List Entity
  | [] => []
  | e :: es => e.entities ++ Expr.entitiesOfAll es

def Condition.entities : Condition → List Entity
  | .compare lhs _ rhs => lhs.entities ++ rhs.entities

def Condition.entitiesOfAll : List Condition → List Entity
  | [] => []
  | c :: cs => c.entities ++ Condition.entitiesOfAll cs

/-- A function stands behind the functions in its body. -/
def Stmt.entities : Stmt → List Entity
  | .expression value | .ret _ value => value.entities
  | .call _ _ args => Expr.entitiesOfAll args
  | .declare _ type name value => value.entities ++ [.declaration name type]
  | .function signature types body =>
    (Stmt.entitiesOfAll body).filter Entity.isShared ++ [.function signature types body]
  | .prototype signature => [.prototype signature]

def Stmt.entitiesOfAll : List Stmt → List Entity
  | [] => []
  | s :: ss => s.entities ++ Stmt.entitiesOfAll ss

end

def declaredAmong (es : List Entity) : List (String × ValueType) := es.filterMap Entity.declared?

def stringsAmong (es : List Entity) : List String := es.filterMap Entity.string?

def definitionsAmong (es : List Entity) : List Definition := es.filterMap Entity.definition?

def signaturesAmong (es : List Entity) : List Prototype := es.filterMap Entity.signature?

def prototypesAmong (es : List Entity) : List Prototype := es.filterMap Entity.prototype?

def Stmt.outerEntities : Stmt → List Entity
  | .declare _ _ _ value => value.entities
  | s => s.entities

def Stmt.global? : Stmt → Option (String × ValueType)
  | .declare _ type name _ => some (name, type)
  | _ => none

def Stmt.host? : Stmt → Option Prototype
  | .prototype signature => some signature
  | _ => none

/-- The variables that a function declares, those in its `if` statements among them. -/
def Definition.variables (d : Definition) : List (String × ValueType) :=
  declaredAmong (Stmt.entitiesOfAll d.body)

namespace Program

def globals (p : Program) : List (String × ValueType) := p.filterMap Stmt.global?

def hosts (p : Program) : List Prototype := p.filterMap Stmt.host?

def entities (p : Program) : List Entity := p.flatMap Stmt.outerEntities

def definitions (p : Program) : List Definition := definitionsAmong p.entities

def signatures (p : Program) : List Prototype := signaturesAmong p.entities

def startVariables (p : Program) : List (String × ValueType) := declaredAmong p.entities

end Program

section Among

variable (es fs : List Entity) (signature : Prototype) (types : List ValueType) (body : List Stmt)

@[simp] lemma declaredAmong_append : declaredAmong (es ++ fs) = declaredAmong es ++ declaredAmong fs :=
  List.filterMap_append

@[simp] lemma stringsAmong_append : stringsAmong (es ++ fs) = stringsAmong es ++ stringsAmong fs :=
  List.filterMap_append

@[simp] lemma definitionsAmong_append : definitionsAmong (es ++ fs) = definitionsAmong es ++ definitionsAmong fs :=
  List.filterMap_append

@[simp] lemma signaturesAmong_append : signaturesAmong (es ++ fs) = signaturesAmong es ++ signaturesAmong fs :=
  List.filterMap_append

@[simp] lemma prototypesAmong_append : prototypesAmong (es ++ fs) = prototypesAmong es ++ prototypesAmong fs :=
  List.filterMap_append

lemma filterMap_shared {α : Type} {f : Entity → Option α} (hf : ∀ name type, f (.declaration name type) = none) :
    (es.filter Entity.isShared).filterMap f = es.filterMap f := by
  rw [List.filterMap_filter]
  congr 1
  funext e
  cases e <;> simp [Entity.isShared, Entity.declared?, hf]

lemma filterMap_entities {α : Type} {f : Entity → Option α} (hf : ∀ name type, f (.declaration name type) = none)
    (p : Program) : p.entities.filterMap f = (Stmt.entitiesOfAll p).filterMap f := by
  unfold Program.entities
  induction p with
  | nil => rfl
  | cons st p ih =>
    rw [List.flatMap_cons, List.filterMap_append, ih, Stmt.entitiesOfAll, List.filterMap_append]
    cases st <;> simp [Stmt.outerEntities, Stmt.entities, hf]

lemma definitions_eq (p : Program) : p.definitions = definitionsAmong (Stmt.entitiesOfAll p) :=
  filterMap_entities (fun _ _ => rfl) p

lemma signatures_eq (p : Program) : p.signatures = signaturesAmong (Stmt.entitiesOfAll p) :=
  filterMap_entities (fun _ _ => rfl) p

lemma signaturesAmong_perm :
    signaturesAmong es ~ prototypesAmong es ++ (definitionsAmong es).map Definition.signature := by
  induction es with
  | nil => exact .nil
  | cons e es ih =>
    cases e with
    | declaration name type => exact ih
    | string value => exact ih
    | function signature types body => exact (ih.cons signature).trans List.perm_middle.symm
    | prototype signature => exact ih.cons signature

lemma hosts_sublist (p : Program) : p.hosts.Sublist (prototypesAmong p.entities) := by
  unfold Program.hosts Program.entities
  induction p with
  | nil => exact .slnil
  | cons st p ih =>
    rw [List.flatMap_cons, prototypesAmong_append]
    cases st with
    | prototype signature => exact ih.cons_cons signature
    | _ => exact ih.trans (List.sublist_append_right _ _)

lemma mem_globals_cons {st : Stmt} {p : Program} {v : String × ValueType} (h : v ∈ p.globals) :
    v ∈ Program.globals (st :: p) := by
  unfold Program.globals at h ⊢
  rw [List.filterMap_cons]
  split
  · exact h
  · exact List.mem_cons_of_mem _ h

lemma mem_signatures {p : Program} {d : Definition} (h : d ∈ p.definitions) : d.signature ∈ p.signatures :=
  (signaturesAmong_perm _).mem_iff.mpr (List.mem_append_right _ (List.mem_map.mpr ⟨d, h, rfl⟩))

lemma mem_signatures_of_host {p : Program} {f : Prototype} (h : f ∈ p.hosts) : f ∈ p.signatures :=
  (signaturesAmong_perm _).mem_iff.mpr (List.mem_append_left _ ((hosts_sublist p).subset h))

lemma declaredAmong_function : declaredAmong (Stmt.function signature types body).entities = [] := by
  simp only [Stmt.entities, declaredAmong_append, List.append_eq_nil_iff]
  refine ⟨?_, rfl⟩
  simp only [declaredAmong, List.filterMap_eq_nil_iff, List.mem_filter]
  rintro e ⟨-, he⟩
  simpa [Entity.isShared] using he

lemma stringsAmong_function :
    stringsAmong (Stmt.function signature types body).entities = stringsAmong (Stmt.entitiesOfAll body) := by
  simp only [Stmt.entities, stringsAmong_append]
  rw [stringsAmong, filterMap_shared _ fun _ _ => rfl]
  exact List.append_nil _

lemma definitionsAmong_function : definitionsAmong (Stmt.function signature types body).entities =
    definitionsAmong (Stmt.entitiesOfAll body) ++ [⟨signature, types, body⟩] := by
  simp only [Stmt.entities, definitionsAmong_append]
  rw [definitionsAmong, filterMap_shared _ fun _ _ => rfl]
  rfl

lemma signaturesAmong_function : signaturesAmong (Stmt.function signature types body).entities =
    signaturesAmong (Stmt.entitiesOfAll body) ++ [signature] := by
  simp only [Stmt.entities, signaturesAmong_append]
  rw [signaturesAmong, filterMap_shared _ fun _ _ => rfl]
  rfl

end Among

end Keel
