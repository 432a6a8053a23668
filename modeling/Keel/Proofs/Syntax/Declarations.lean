import Keel.Proofs.Syntax.Contents

namespace Keel

/-- A variable that a body declares, with the variables that are known where its value stands. -/
structure Declaration where
  known : List (String × ValueType)
  type : ValueType
  name : String
  value : Expr

mutual

def Expr.declarations (known : List (String × ValueType)) : Expr → List Declaration
  | .number _ _ _ | .reference _ _ | .string _ _ | .importFile _ _ => []
  | .binary _ _ lhs rhs => lhs.declarations known ++ rhs.declarations (known ++ declaredAmong lhs.entities)
  | .call _ _ args => Expr.declarationsOfAll known args
  | .cast _ _ value | .assign _ _ value => value.declarations known
  | .conditional _ conditions _ body => Condition.declarationsOfAll known conditions ++
      Stmt.declarationsOfAll (known ++ declaredAmong (Condition.entitiesOfAll conditions)) body

def Expr.declarationsOfAll (known : List (String × ValueType)) : List Expr → List Declaration
  | [] => []
  | e :: es => e.declarations known ++ Expr.declarationsOfAll (known ++ declaredAmong e.entities) es

def Condition.declarations (known : List (String × ValueType)) : Condition → List Declaration
  | .compare lhs _ rhs => lhs.declarations known ++ rhs.declarations (known ++ declaredAmong lhs.entities)

def Condition.declarationsOfAll (known : List (String × ValueType)) : List Condition → List Declaration
  | [] => []
  | c :: cs => c.declarations known ++ Condition.declarationsOfAll (known ++ declaredAmong c.entities) cs

def Stmt.declarations (known : List (String × ValueType)) : Stmt → List Declaration
  | .expression value | .ret _ value => value.declarations known
  | .call _ _ args => Expr.declarationsOfAll known args
  | .declare _ type name value => value.declarations known ++ [⟨known, type, name, value⟩]
  | .function _ _ _ | .prototype _ => []

def Stmt.declarationsOfAll (known : List (String × ValueType)) : List Stmt → List Declaration
  | [] => []
  | s :: ss => s.declarations known ++ Stmt.declarationsOfAll (known ++ declaredAmong s.entities) ss

end

def Stmt.outerDeclarations (known : List (String × ValueType)) : Stmt → List Declaration
  | .declare _ _ _ value => value.declarations known
  | s => s.declarations known

namespace Program

def startDeclarations (known : List (String × ValueType)) : Program → List Declaration
  | [] => []
  | s :: p => s.outerDeclarations known ++ startDeclarations (known ++ declaredAmong s.outerEntities) p

end Program

def Definition.declarations (d : Definition) : List Declaration :=
  Stmt.declarationsOfAll (d.parameters.map fun q => (q.name, q.type)) d.body

def Program.declarations (p : Program) : List Declaration :=
  p.definitions.flatMap Definition.declarations ++ p.startDeclarations []

def Declaration.variable (d : Declaration) : String × ValueType := (d.name, d.type)

mutual

lemma Expr.declarations_variables : ∀ (e : Expr) (known : List (String × ValueType)),
    (e.declarations known).map Declaration.variable = declaredAmong e.entities
  | .number _ _ _, _ | .reference _ _, _ | .importFile _ _, _ | .string _ _, _ => rfl
  | .binary _ _ lhs rhs, known => by
    rw [Expr.declarations, Expr.entities, List.map_append, declaredAmong_append, Expr.declarations_variables lhs,
      Expr.declarations_variables rhs]
  | .call _ _ args, known => Expr.declarationsOfAll_variables args known
  | .cast _ _ value, known => Expr.declarations_variables value known
  | .assign _ _ value, known => Expr.declarations_variables value known
  | .conditional _ conditions _ body, known => by
    rw [Expr.declarations, Expr.entities, List.map_append, declaredAmong_append,
      Condition.declarationsOfAll_variables conditions, Stmt.declarationsOfAll_variables body]

lemma Expr.declarationsOfAll_variables : ∀ (es : List Expr) (known : List (String × ValueType)),
    (Expr.declarationsOfAll known es).map Declaration.variable = declaredAmong (Expr.entitiesOfAll es)
  | [], _ => rfl
  | e :: es, known => by
    rw [Expr.declarationsOfAll, Expr.entitiesOfAll, List.map_append, declaredAmong_append,
      Expr.declarations_variables e, Expr.declarationsOfAll_variables es]

lemma Condition.declarations_variables : ∀ (c : Condition) (known : List (String × ValueType)),
    (c.declarations known).map Declaration.variable = declaredAmong c.entities
  | .compare lhs _ rhs, known => by
    rw [Condition.declarations, Condition.entities, List.map_append, declaredAmong_append,
      Expr.declarations_variables lhs, Expr.declarations_variables rhs]

lemma Condition.declarationsOfAll_variables : ∀ (cs : List Condition) (known : List (String × ValueType)),
    (Condition.declarationsOfAll known cs).map Declaration.variable = declaredAmong (Condition.entitiesOfAll cs)
  | [], _ => rfl
  | c :: cs, known => by
    rw [Condition.declarationsOfAll, Condition.entitiesOfAll, List.map_append, declaredAmong_append,
      Condition.declarations_variables c, Condition.declarationsOfAll_variables cs]

lemma Stmt.declarations_variables : ∀ (st : Stmt) (known : List (String × ValueType)),
    (st.declarations known).map Declaration.variable = declaredAmong st.entities
  | .expression value, known => Expr.declarations_variables value known
  | .ret _ value, known => Expr.declarations_variables value known
  | .call _ _ args, known => Expr.declarationsOfAll_variables args known
  | .declare _ type name value, known => by
    rw [Stmt.declarations, Stmt.entities, List.map_append, declaredAmong_append, Expr.declarations_variables value]
    rfl
  | .function signature types body, _ => (declaredAmong_function signature types body).symm
  | .prototype _, _ => rfl

lemma Stmt.declarationsOfAll_variables : ∀ (ss : List Stmt) (known : List (String × ValueType)),
    (Stmt.declarationsOfAll known ss).map Declaration.variable = declaredAmong (Stmt.entitiesOfAll ss)
  | [], _ => rfl
  | st :: ss, known => by
    rw [Stmt.declarationsOfAll, Stmt.entitiesOfAll, List.map_append, declaredAmong_append,
      Stmt.declarations_variables st, Stmt.declarationsOfAll_variables ss]

end

lemma Definition.declarations_variables (d : Definition) :
    d.declarations.map Declaration.variable = d.variables :=
  Stmt.declarationsOfAll_variables d.body _

lemma Program.startDeclarations_variables (p : Program) (known : List (String × ValueType)) :
    (p.startDeclarations known).map Declaration.variable = p.startVariables := by
  induction p generalizing known with
  | nil => rfl
  | cons st p ih =>
    have hst : (st.outerDeclarations known).map Declaration.variable = declaredAmong st.outerEntities := by
      cases st with
      | declare place type name value => exact Expr.declarations_variables value known
      | _ => exact Stmt.declarations_variables _ known
    rw [Program.startDeclarations, List.map_append, ih, hst]
    exact (declaredAmong_append _ _).symm

end Keel
