import Keel.Lowering.Code

/-! The module of a whole program. -/

namespace Keel

namespace Lowering

def startName : String := "__start"

def hostModule : String := "env"

def hostFunction? : Stmt → Option Wasm.HostFunction
  | .prototype p =>
    some ⟨p.name, hostModule, p.name, p.parameterTypes.map ValueType.numType?, p.result.numType?⟩
  | _ => none

def isDefinition : Stmt → Bool
  | .function _ _ _ | .prototype _ => true
  | _ => false

def zeroGlobal : String × ValueType → Wasm.Global
  | (name, type) => ⟨name, (type.numType?.getD .i32).zero⟩

def topStatement (tables : Tables) : Stmt → Lower Wasm.Instr
  | .declare place type name value => do
    let converted ← coerce (← expression tables value) type place
    return .globalSet name converted.code
  | s => statement tables s

def topStatements (tables : Tables) : List Stmt → Lower (List Wasm.Instr)
  | [] => return []
  | s :: ss => do
    let code ← topStatement tables s
    return code :: (← topStatements tables ss)

def startFunction (p : Program) (code : List Wasm.Instr) (scope : Scope) : Option Wasm.Function :=
  if p.all isDefinition then none
  else some ⟨startName, [], none, scope.vars, .block (some endLabel) none code⟩

end Lowering

open Lowering

/-- The module of a program, its functions exported by name if that is asked for. -/
def lower (p : Program) (exportFunctions : Bool) : Except CompileError Wasm.Module := do
  let functions ← functionTable p
  let globals ← globalTable p
  let (code, s) ← topStatements ⟨functions, globals⟩ p ⟨.ofSignature [] .void, .empty, []⟩
  let start := startFunction p code s.scope
  let exported := if exportFunctions then s.functions.map fun f => .function f.name else []
  return {
    imports := p.filterMap hostFunction?
    functions := s.functions ++ start.toList
    globals := globals.map zeroGlobal
    exports := exported ++ [.memory "memory"]
    start := start.map Wasm.Function.name
    pages := s.strings.pages
    segments := s.strings.segments }

/-- A module is refused if it calls a function that it does not hold. -/
def compile (p : Program) (exportFunctions : Bool) : Except CompileError Wasm.Module := do
  let m ← lower p exportFunctions
  if m.callsResolve then return m else throw ⟨.invalidModule, none⟩

end Keel
