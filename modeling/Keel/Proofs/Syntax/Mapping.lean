import Keel.Proofs.Syntax.Listing

namespace Keel

structure Mapping where
  place : Position → Position
  type : ValueType → ValueType

section Trees

variable (f : Mapping)

def Parameter.mapped (q : Parameter) : Parameter := { q with type := f.type q.type }

def Prototype.mapped (p : Prototype) : Prototype :=
  ⟨f.place p.position, p.name, p.parameterNames, p.parameterTypes.map f.type, f.type p.result⟩

mutual

def Expr.mapped : Expr → Expr
  | .number place value type => .number (f.place place) value type
  | .reference place name => .reference (f.place place) name
  | .binary place op lhs rhs => .binary (f.place place) op lhs.mapped rhs.mapped
  | .call place callee args => .call (f.place place) callee (Expr.mappedAll args)
  | .cast place target value => .cast (f.place place) target value.mapped
  | .assign place name value => .assign (f.place place) name value.mapped
  | .string place value => .string (f.place place) value
  | .conditional place conditions separators body =>
    .conditional (f.place place) (Condition.mappedAll conditions) separators (Stmt.mappedAll body)
  | .importFile place path => .importFile (f.place place) path

def Expr.mappedAll : List Expr → List Expr
  | [] => []
  | e :: es => e.mapped :: Expr.mappedAll es

def Condition.mapped : Condition → Condition
  | .compare lhs op rhs => .compare lhs.mapped op rhs.mapped

def Condition.mappedAll : List Condition → List Condition
  | [] => []
  | c :: cs => c.mapped :: Condition.mappedAll cs

def Stmt.mapped : Stmt → Stmt
  | .expression value => .expression value.mapped
  | .call place callee args => .call (f.place place) callee (Expr.mappedAll args)
  | .declare place type name value => .declare (f.place place) (f.type type) name value.mapped
  | .function signature types body => .function (signature.mapped f) (types.map f.type) (Stmt.mappedAll body)
  | .prototype signature => .prototype (signature.mapped f)
  | .ret place value => .ret (f.place place) value.mapped

def Stmt.mappedAll : List Stmt → List Stmt
  | [] => []
  | s :: ss => s.mapped :: Stmt.mappedAll ss

end

def Entity.mapped : Entity → Entity
  | declaration name type => declaration name (f.type type)
  | string value => string value
  | function signature types body => function (signature.mapped f) (types.map f.type) (Stmt.mappedAll f body)
  | prototype signature => prototype (signature.mapped f)

def Definition.mapped (d : Definition) : Definition :=
  ⟨d.signature.mapped f, d.types.map f.type, Stmt.mappedAll f d.body⟩

def Program.mapped (p : Program) : Program := Stmt.mappedAll f p

lemma filter_isShared_mapped (es : List Entity) :
    (es.map (Entity.mapped f)).filter Entity.isShared = (es.filter Entity.isShared).map (Entity.mapped f) := by
  rw [List.filter_map]
  congr 2
  funext e
  cases e <;> rfl

mutual

lemma Expr.entities_mapped : ∀ e : Expr, (e.mapped f).entities = e.entities.map (Entity.mapped f)
  | .number _ _ _ | .reference _ _ | .importFile _ _ | .string _ _ => rfl
  | .binary _ _ lhs rhs => by
    rw [Expr.mapped, Expr.entities, lhs.entities_mapped, rhs.entities_mapped, Expr.entities, List.map_append]
  | .call _ _ args => Expr.entitiesOfAll_mapped args
  | .cast _ _ value | .assign _ _ value => value.entities_mapped
  | .conditional _ conditions _ body => by
    rw [Expr.mapped, Expr.entities, Condition.entitiesOfAll_mapped conditions, Stmt.entitiesOfAll_mapped body,
      Expr.entities, List.map_append]

lemma Expr.entitiesOfAll_mapped : ∀ es : List Expr,
    Expr.entitiesOfAll (Expr.mappedAll f es) = (Expr.entitiesOfAll es).map (Entity.mapped f)
  | [] => rfl
  | e :: es => by
    rw [Expr.mappedAll, Expr.entitiesOfAll, e.entities_mapped, Expr.entitiesOfAll_mapped es, Expr.entitiesOfAll,
      List.map_append]

lemma Condition.entities_mapped : ∀ c : Condition, (c.mapped f).entities = c.entities.map (Entity.mapped f)
  | .compare lhs _ rhs => by
    rw [Condition.mapped, Condition.entities, lhs.entities_mapped, rhs.entities_mapped, Condition.entities,
      List.map_append]

lemma Condition.entitiesOfAll_mapped : ∀ cs : List Condition,
    Condition.entitiesOfAll (Condition.mappedAll f cs) = (Condition.entitiesOfAll cs).map (Entity.mapped f)
  | [] => rfl
  | c :: cs => by
    rw [Condition.mappedAll, Condition.entitiesOfAll, c.entities_mapped, Condition.entitiesOfAll_mapped cs,
      Condition.entitiesOfAll, List.map_append]

lemma Stmt.entities_mapped : ∀ st : Stmt, (st.mapped f).entities = st.entities.map (Entity.mapped f)
  | .expression value | .ret _ value => value.entities_mapped
  | .call _ _ args => Expr.entitiesOfAll_mapped args
  | .declare _ type name value => by
    rw [Stmt.mapped, Stmt.entities, value.entities_mapped, Stmt.entities, List.map_append]
    rfl
  | .function signature types body => by
    rw [Stmt.mapped, Stmt.entities, Stmt.entitiesOfAll_mapped body, filter_isShared_mapped, Stmt.entities,
      List.map_append]
    rfl
  | .prototype _ => rfl

lemma Stmt.entitiesOfAll_mapped : ∀ ss : List Stmt,
    Stmt.entitiesOfAll (Stmt.mappedAll f ss) = (Stmt.entitiesOfAll ss).map (Entity.mapped f)
  | [] => rfl
  | st :: ss => by
    rw [Stmt.mappedAll, Stmt.entitiesOfAll, st.entities_mapped, Stmt.entitiesOfAll_mapped ss, Stmt.entitiesOfAll,
      List.map_append]

end

mutual

lemma Stmt.listed_mapped : ∀ st : Stmt, (st.mapped f).listed = st.listed.map (Prototype.mapped f)
  | .function signature _ body => congrArg (signature.mapped f :: ·) (Stmt.listedOfAll_mapped body)
  | .expression value => value.listed_mapped
  | .prototype _ | .call _ _ _ | .declare _ _ _ _ | .ret _ _ => rfl

lemma Expr.listed_mapped : ∀ e : Expr, (e.mapped f).listed = e.listed.map (Prototype.mapped f)
  | .conditional _ _ _ body => Stmt.listedOfAll_mapped body
  | .number _ _ _ | .reference _ _ | .binary _ _ _ _ | .call _ _ _ | .cast _ _ _ | .assign _ _ _
  | .string _ _ | .importFile _ _ => rfl

lemma Stmt.listedOfAll_mapped : ∀ ss : List Stmt,
    Stmt.listedOfAll (Stmt.mappedAll f ss) = (Stmt.listedOfAll ss).map (Prototype.mapped f)
  | [] => rfl
  | st :: ss => by
    rw [Stmt.mappedAll, Stmt.listedOfAll, st.listed_mapped, Stmt.listedOfAll_mapped ss, Stmt.listedOfAll,
      List.map_append]

end

lemma Expr.position_mapped (e : Expr) : (e.mapped f).position = f.place e.position := by
  cases e <;> rfl

lemma mappedAll_eq_map (ss : List Stmt) : Stmt.mappedAll f ss = ss.map (Stmt.mapped f) := by
  induction ss with
  | nil => rfl
  | cons st ss ih => rw [Stmt.mappedAll, ih, List.map_cons]

namespace Program

variable (p : Program)

lemma listed_mapped : (p.mapped f).listed = p.listed.map (Prototype.mapped f) := Stmt.listedOfAll_mapped f p

lemma entities_mapped : (p.mapped f).entities = p.entities.map (Entity.mapped f) := by
  unfold mapped entities
  rw [mappedAll_eq_map, List.flatMap_map, List.map_flatMap]
  congr 1
  funext st
  cases st with
  | declare place type name value => exact value.entities_mapped f
  | _ => exact Stmt.entities_mapped f _

lemma hosts_mapped : (p.mapped f).hosts = p.hosts.map (Prototype.mapped f) := by
  unfold mapped hosts
  rw [mappedAll_eq_map, List.filterMap_map, List.map_filterMap]
  congr 1
  funext st
  cases st <;> rfl

lemma globals_mapped : (p.mapped f).globals = p.globals.map fun v => (v.1, f.type v.2) := by
  unfold mapped globals
  rw [mappedAll_eq_map, List.filterMap_map, List.map_filterMap]
  congr 1
  funext st
  cases st <;> rfl

end Program

lemma Prototype.parameters_mapped (p : Prototype) :
    (p.mapped f).parameters = p.parameters.map (Parameter.mapped f) := by
  simp only [Prototype.parameters, Prototype.mapped, List.zipWith_map_left, List.map_zipWith]
  rfl

lemma Definition.parameters_mapped (d : Definition) :
    (d.mapped f).parameters = d.parameters.map (Parameter.mapped f) :=
  Prototype.parameters_mapped f (d.signature.taking d.types)

lemma definitionsAmong_mapped (es : List Entity) :
    definitionsAmong (es.map (Entity.mapped f)) = (definitionsAmong es).map (Definition.mapped f) := by
  unfold definitionsAmong
  rw [List.filterMap_map, List.map_filterMap]
  congr 1
  funext e
  cases e <;> rfl

lemma declaredAmong_mapped (es : List Entity) :
    declaredAmong (es.map (Entity.mapped f)) = (declaredAmong es).map fun v => (v.1, f.type v.2) := by
  unfold declaredAmong
  rw [List.filterMap_map, List.map_filterMap]
  congr 1
  funext e
  cases e <;> rfl

lemma Definition.variables_mapped (d : Definition) :
    (d.mapped f).variables = d.variables.map fun v => (v.1, f.type v.2) := by
  unfold Definition.variables Definition.mapped
  rw [Stmt.entitiesOfAll_mapped, declaredAmong_mapped]

end Trees

end Keel
