import Keel.Lowering.Scope

/-! The code of expressions and statements. -/

namespace Keel.Lowering

open Lower

open Wasm (Instr)

structure Tables where
  functions : FunctionTable
  globals : GlobalTable

def endLabel : String := "end"

variable (tables : Tables)

def reference (place : Position) (name : String) : Lower Lowered := do
  match (← get).scope.locals.lookup name with
  | some v => return ⟨.localGet v.index, v.type⟩
  | none =>
    match tables.globals.lookup name with
    | some type => return ⟨.globalGet name, type⟩
    | none => fail (.unknownVariable name) place

def assignment (place : Position) (name : String) (value : Lower Lowered) : Lower Lowered := do
  match (← get).scope.locals.lookup name with
  | some v =>
    let converted ← coerce (← value) v.type place
    return ⟨.localTee v.index converted.code, v.type⟩
  | none =>
    match tables.globals.lookup name with
    | some type =>
      let converted ← coerce (← value) type place
      return ⟨.block none type.numType? [.globalSet name converted.code, .globalGet name], type⟩
    | none => fail (.unknownTarget name) place

def operation (place : Position) (op : String) (lhs rhs : Lowered) : Except CompileError Lowered := do
  let wider ← commonType lhs.type rhs.type place
  let type := if wider = .bool ∧ !yieldsTruth op then .i32 else wider
  match operator? type op with
  | none => throw ⟨.unknownOperator op, some place⟩
  | some operator =>
    let x ← coerce lhs type place
    let y ← coerce rhs type place
    let code := Instr.binary operator x.code y.code
    return if yieldsTruth op then ⟨code, .bool⟩ else ⟨wrapped type code, type⟩

def comparison (place : Position) (op : String) (lhs rhs : Lowered) : Except CompileError Instr := do
  let type ← commonType lhs.type rhs.type place
  match operator? type op with
  | none => throw ⟨.unknownComparison op, some place⟩
  | some operator =>
    let x ← coerce lhs type place
    let y ← coerce rhs type place
    return .binary operator x.code y.code

def joined : Instr → List Instr → List String → Option Instr
  | first, [], [] => some first
  | first, next :: rest, separator :: separators =>
    let both := if separator = "&&" then .ifElse first next (i32Const 0) else .ifElse first (i32Const 1) next
    joined both rest separators
  | _, [], _ :: _ | _, _ :: _, [] => none

def joinedConditions (place : Position) (conditions : List Instr) (separators : List String) :
    Except CompileError Instr :=
  match conditions with
  | [] => .error ⟨.conditionList, some place⟩
  | first :: rest =>
    match joined first rest separators with
    | some code => .ok code
    | none => .error ⟨.conditionList, some place⟩

def returning (place : Position) (value : Lowered) : Lower Instr := do
  let scope := (← get).scope
  match scope.returnSlot with
  | none => return .block none none [dropped value, .br endLabel]
  | some slot =>
    let converted ← coerce value scope.result place
    return .block none none [.localSet slot converted.code, .br endLabel]

def functionOf (signature : Prototype) (statements : List Instr) (scope : Scope) : Wasm.Function :=
  let result := signature.result.numType?
  let ending := Instr.block (some endLabel) none statements
  { name := signature.name
    params := signature.parameterTypes.map ValueType.numType?
    result := result
    vars := scope.vars
    body := .block none result (ending :: (scope.returnSlot.map Instr.localGet).toList) }

def call (place : Position) (callee : String) (given : Nat)
    (args : List ValueType → Lower (List Instr)) : Lower Lowered := do
  match tables.functions.lookup callee with
  | none => fail (.unknownFunction callee) place
  | some s =>
    if s.parameters.length ≠ given then fail (.argumentCount callee s.parameters.length given) place
    else return ⟨.call callee (← args s.parameters), s.result⟩

mutual

def expression : Expr → Lower Lowered
  | .number place value type => literal value type place
  | .reference place name => reference tables place name
  | .binary place op lhs rhs => do
    if op = "=" then
      match lhs with
      | .reference _ name => assignment tables place name (expression rhs)
      | _ => fail .noTarget place
    else
      let x ← expression lhs
      let y ← expression rhs
      operation place op x y
  | .call place callee args => call tables place callee args.length (arguments place args)
  | .cast place target value => do coerce (← expression value) target place
  | .assign place name value => assignment tables place name (expression value)
  | .string _ value => return ⟨i32Const (← internString value), .i32⟩
  | .conditional place conditions separators body => do
    let codes ← conditionList place conditions
    let condition ← joinedConditions place codes separators
    let statements ← block body
    return ⟨.ifThen condition (.block none none statements), .void⟩
  | .importFile _ _ => return ⟨.nop, .void⟩

def arguments (place : Position) : List Expr → List ValueType → Lower (List Instr)
  | e :: es, type :: types => do
    let converted ← coerce (← expression e) type place
    return converted.code :: (← arguments place es types)
  | _, _ => return []

def condition (place : Position) : Condition → Lower Instr
  | .compare lhs op rhs => do
    let x ← expression lhs
    let y ← expression rhs
    comparison place op x y

def conditionList (place : Position) : List Condition → Lower (List Instr)
  | [] => return []
  | c :: cs => do
    let code ← condition place c
    return code :: (← conditionList place cs)

def statement : Stmt → Lower Instr
  | .expression value => return dropped (← expression value)
  | .call place callee args =>
    return dropped (← call tables place callee args.length (arguments place args))
  | .declare place type name value => do
    let converted ← coerce (← expression value) type place
    return .localSet (← declareLocal name type) converted.code
  | .function signature types body => do
    let own := signature.taking types
    let (statements, scope) ← inScope (.ofSignature own.parameters own.result) (block body)
    addFunction (functionOf own statements scope)
    return .nop
  | .prototype _ => return .nop
  | .ret place value => do returning place (← expression value)

def block : List Stmt → Lower (List Instr)
  | [] => return []
  | s :: ss => do
    let code ← statement s
    return code :: (← block ss)

end

end Keel.Lowering
