import Keel.Lowering.Conversion
import Keel.Lowering.Signature
import Keel.Lowering.StringTable

/-! The state in which code is made: the locals of one function, the strings and the functions so far. -/

namespace Keel.Lowering

structure Local where
  index : Nat
  type : ValueType
  deriving DecidableEq, Repr

structure Scope where
  locals : List (String × Local)
  vars : List Wasm.ResultType
  paramCount : Nat
  result : ValueType
  returnSlot : Option Nat
  deriving DecidableEq, Repr

namespace Scope

def addSlot (s : Scope) (type : ValueType) : Nat × Scope :=
  (s.paramCount + s.vars.length, { s with vars := s.vars ++ [type.numType?] })

def declare (s : Scope) (name : String) (type : ValueType) : Nat × Scope :=
  let (index, t) := s.addSlot type
  (index, { t with locals := (name, ⟨index, type⟩) :: t.locals })

def parameterLocals : Nat → List Parameter → List (String × Local)
  | _, [] => []
  | index, p :: ps => parameterLocals (index + 1) ps ++ [(p.name, ⟨index, p.type⟩)]

def ofSignature (parameters : List Parameter) (result : ValueType) : Scope :=
  let s : Scope := ⟨parameterLocals 0 parameters, [], parameters.length, result, none⟩
  if result = .void then s
  else
    let (index, t) := s.addSlot result
    { t with returnSlot := some index }

end Scope

structure State where
  scope : Scope
  strings : StringTable
  functions : List Wasm.Function

abbrev Lower := StateT State (Except CompileError)

namespace Lower

def fail {α : Type} (cause : CompileCause) (place : Position) : Lower α :=
  throw ⟨cause, some place⟩

def internString (value : String) : Lower Nat := do
  let s ← get
  let (address, strings) := s.strings.intern value
  set { s with strings := strings }
  return address

def declareLocal (name : String) (type : ValueType) : Lower Nat := do
  let s ← get
  let (index, scope) := s.scope.declare name type
  set { s with scope := scope }
  return index

def addFunction (f : Wasm.Function) : Lower Unit :=
  modify fun s => { s with functions := s.functions ++ [f] }

def inScope {α : Type} (scope : Scope) (body : Lower α) : Lower (α × Scope) := do
  let outer := (← get).scope
  modify fun s => { s with scope := scope }
  let a ← body
  let inner := (← get).scope
  modify fun s => { s with scope := outer }
  return (a, inner)

end Lower

end Keel.Lowering
