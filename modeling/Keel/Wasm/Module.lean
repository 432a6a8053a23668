import Keel.Wasm.Operator

/-! Modules: trees of instructions in functions, with globals, exports and memory. -/

namespace Keel.Wasm

inductive Instr where
  | nop
  | const (value : Value)
  | localGet (index : Nat)
  | localSet (index : Nat) (value : Instr)
  | localTee (index : Nat) (value : Instr)
  | globalGet (name : String)
  | globalSet (name : String) (value : Instr)
  | convert (op : Conversion) (operand : Instr)
  | binary (op : BinaryOp) (lhs rhs : Instr)
  | call (callee : String) (args : List Instr)
  | drop (value : Instr)
  | block (label : Option String) (result : ResultType) (body : List Instr)
  | ifThen (condition body : Instr)
  | ifElse (condition yes no : Instr)
  | br (label : String)

/-- The locals of a function are its parameters and then `vars`. -/
structure Function where
  name : String
  params : List ResultType
  result : ResultType
  vars : List ResultType
  body : Instr

structure HostFunction where
  name : String
  source : String
  base : String
  params : List ResultType
  result : ResultType
  deriving DecidableEq, Repr

structure Global where
  name : String
  init : Value
  deriving DecidableEq, Repr

inductive ExportItem where
  | function (name : String)
  | memory (name : String)
  deriving DecidableEq, Repr

structure Segment where
  offset : Nat
  data : List UInt8
  deriving DecidableEq, Repr

structure Module where
  imports : List HostFunction
  functions : List Function
  globals : List Global
  exports : List ExportItem
  start : Option String
  pages : Nat
  segments : List Segment

def pageSize : Nat := 65536

mutual

def Instr.callees : Instr → List String
  | .nop | .const _ | .localGet _ | .globalGet _ | .br _ => []
  | .localSet _ x | .localTee _ x | .globalSet _ x | .convert _ x | .drop x => x.callees
  | .binary _ x y | .ifThen x y => x.callees ++ y.callees
  | .ifElse c x y => c.callees ++ x.callees ++ y.callees
  | .call callee args => calleesOf args ++ [callee]
  | .block _ _ body => calleesOf body

def calleesOf : List Instr → List String
  | [] => []
  | x :: xs => x.callees ++ calleesOf xs

end

namespace Module

def functionNames (m : Module) : List String :=
  m.imports.map HostFunction.name ++ m.functions.map Function.name

def callsResolve (m : Module) : Bool :=
  m.functions.all fun f => f.body.callees.all m.functionNames.contains

def function? (m : Module) (name : String) : Option Function :=
  m.functions.find? (·.name == name)

def import? (m : Module) (name : String) : Option HostFunction :=
  m.imports.find? (·.name == name)

def exported? (m : Module) (name : String) : Option Function :=
  if m.exports.contains (.function name) then m.function? name else none

end Module

end Keel.Wasm
