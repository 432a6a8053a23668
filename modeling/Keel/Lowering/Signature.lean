import Keel.Failure
import Keel.Syntax

/-! The functions and global variables that a program defines. -/

namespace Keel.Lowering

structure Signature where
  parameters : List ValueType
  result : ValueType
  deriving DecidableEq, Repr

abbrev FunctionTable := List (String × Signature)

abbrev GlobalTable := List (String × ValueType)

namespace FunctionTable

def add (table : FunctionTable) (name : String) (s : Signature) (place : Option Position) :
    Except CompileError FunctionTable :=
  if (table.lookup name).isSome then .error ⟨.functionDefined name, place⟩
  else .ok (table ++ [(name, s)])

def addPrototype (table : FunctionTable) (p : Prototype) : Except CompileError FunctionTable :=
  table.add p.name ⟨p.parameterTypes, p.result⟩ (some p.position)

def addAll (table inner : FunctionTable) : Except CompileError FunctionTable :=
  inner.foldlM (fun t (name, s) => t.add name s none) table

end FunctionTable

mutual

def addFunctions (table : FunctionTable) : Stmt → Except CompileError FunctionTable
  | .function signature _ body => do
    let table ← table.addPrototype signature
    table.addAll (← functionsOfAll [] body)
  | .prototype signature => table.addPrototype signature
  | .expression value => addNested table value
  | .call _ _ _ | .declare _ _ _ _ | .ret _ _ => .ok table

def addNested (table : FunctionTable) : Expr → Except CompileError FunctionTable
  | .conditional _ _ _ body => do table.addAll (← functionsOfAll [] body)
  | .number _ _ _ | .reference _ _ | .binary _ _ _ _ | .call _ _ _ | .cast _ _ _ | .assign _ _ _
  | .string _ _ | .importFile _ _ => .ok table

def functionsOfAll (table : FunctionTable) : List Stmt → Except CompileError FunctionTable
  | [] => .ok table
  | s :: ss => do functionsOfAll (← addFunctions table s) ss

end

/-- All functions of a program; no two may have one name. -/
def functionTable (p : Program) : Except CompileError FunctionTable := functionsOfAll [] p

def addGlobal (table : GlobalTable) : Stmt → Except CompileError GlobalTable
  | .declare position type name _ =>
    if type = .void then .error ⟨.voidVariable name, some position⟩
    else if (table.lookup name).isSome then .error ⟨.variableDefined name, some position⟩
    else .ok (table ++ [(name, type)])
  | _ => .ok table

def globalTable (p : Program) : Except CompileError GlobalTable := p.foldlM addGlobal []

end Keel.Lowering
