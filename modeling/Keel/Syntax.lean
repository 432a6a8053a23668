import Keel.Floating.Format
import Keel.Position
import Keel.ValueType

/-! Programs as trees: expressions, the conditions of an `if`, and statements. -/

namespace Keel

structure Parameter where
  type : ValueType
  name : String
  deriving DecidableEq, Repr

/-- A function's signature. By itself it declares a function of the host. -/
structure Prototype where
  position : Position
  name : String
  parameterNames : List String
  parameterTypes : List ValueType
  result : ValueType
  deriving DecidableEq, Repr

namespace Prototype

def parameters (p : Prototype) : List Parameter := List.zipWith Parameter.mk p.parameterTypes p.parameterNames

def taking (p : Prototype) (types : List ValueType) : Prototype := { p with parameterTypes := types }

end Prototype

mutual

inductive Expr where
  | number (position : Position) (value : Double) (type : ValueType)
  | reference (position : Position) (name : String)
  | binary (position : Position) (op : String) (lhs rhs : Expr)
  | call (position : Position) (callee : String) (args : List Expr)
  | cast (position : Position) (target : ValueType) (value : Expr)
  | assign (position : Position) (name : String) (value : Expr)
  | string (position : Position) (value : String)
  | conditional (position : Position) (conditions : List Condition) (separators : List String)
      (body : List Stmt)
  | importFile (position : Position) (path : String)

inductive Condition where
  | compare (lhs : Expr) (op : String) (rhs : Expr)

inductive Stmt where
  | expression (value : Expr)
  | call (position : Position) (callee : String) (args : List Expr)
  | declare (position : Position) (type : ValueType) (name : String) (value : Expr)
  | function (signature : Prototype) (parameterTypes : List ValueType) (body : List Stmt)
  | prototype (signature : Prototype)
  | ret (position : Position) (value : Expr)

end

abbrev Program := List Stmt

instance : Inhabited Expr := ⟨.reference .start ""⟩

instance : Inhabited Stmt := ⟨.expression default⟩

structure Import where
  position : Position
  path : String
  deriving DecidableEq, Repr

def Expr.position : Expr → Position
  | number p _ _ | reference p _ | binary p _ _ _ | call p _ _ | cast p _ _ | assign p _ _
  | string p _ | conditional p _ _ _ | importFile p _ => p

def Stmt.position : Stmt → Position
  | expression e => e.position
  | call p _ _ | declare p _ _ _ | ret p _ => p
  | function signature _ _ | prototype signature => signature.position

def comparisonSymbols : List String := ["<", ">", "<=", ">=", "==", "!="]

def yieldsTruth (op : String) : Bool := comparisonSymbols.contains op

end Keel
