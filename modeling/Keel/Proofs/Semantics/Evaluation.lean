import Keel.Lowering.Program
import Keel.Proofs.Semantics.Values
import Keel.Proofs.Syntax.Contents
import Keel.Wasm.Execution

namespace Keel.Semantics

open Wasm (Stop HostCall)

structure World where
  stores : List (String × Value)
  answers : List (String × List Wasm.Value)
  log : List HostCall

def World.global (w : World) (name : String) (type : ValueType) : Value :=
  (w.stores.lookup name).getD (.zero type)

structure Variables where
  Frame : Type
  Slot : Type
  /-- Parameters, variables that the function declares, and arguments. -/
  enter : List (String × ValueType) → List (String × ValueType) → List Value → Frame
  /-- The variable that a name stands for unless it stands for a global. -/
  find? : Frame → String → Option (Slot × ValueType)
  read : Frame → Slot → Value
  write : Frame → Slot → Value → Frame
  declare : Frame → String → ValueType → Value → Frame
  /-- Passes over declarations that are not run. -/
  skip : Frame → List (String × ValueType) → Frame
  /-- A declaration outside of functions has stored in the global of its name. -/
  publish : Frame → String → Frame

structure Activation (Frame : Type) where
  frame : Frame
  world : World

inductive Exit where
  | stop (cause : Stop)
  | returned (v : Value)

abbrev Eval (Frame : Type) := EStateM Exit (Activation Frame)

abbrev Calls := String → List Value → EStateM Stop World Value

structure Setting where
  signature? : String → Option Prototype
  globals : List (String × ValueType)
  address : String → Nat

section Steps

variable {α Frame : Type}

def stop (cause : Stop) : Eval Frame α := throw (.stop cause)

def attempt (x : Except Stop α) : Eval Frame α :=
  match x with
  | .ok a => pure a
  | .error e => stop e

def onWorld (x : EStateM Stop World α) : Eval Frame α := fun a =>
  match x a.world with
  | .ok v w => .ok v { a with world := w }
  | .error e w => .error (.stop e) { a with world := w }

def storeGlobal (name : String) (v : Value) : Eval Frame Unit :=
  modify fun a => { a with world := { a.world with stores := (name, v) :: a.world.stores } }

def onFrame (f : Frame → Frame) : Eval Frame Unit := modify fun a => { a with frame := f a.frame }

end Steps

variable (V : Variables) (g : Setting) (call : Calls) (result : ValueType)

def load (name : String) : Eval V.Frame Value := do
  let a ← get
  match V.find? a.frame name with
  | some (slot, _) => return V.read a.frame slot
  | none =>
    match g.globals.lookup name with
    | some type => return a.world.global name type
    | none => stop .stuck

def assign (name : String) (value : Eval V.Frame Value) : Eval V.Frame Value := do
  match V.find? (← get).frame name with
  | some (slot, type) =>
    let v ← attempt ((← value).convert type)
    onFrame (V.write · slot v)
    return v
  | none =>
    match g.globals.lookup name with
    | some type =>
      let v ← attempt ((← value).convert type)
      storeGlobal name v
      return v
    | none => stop .stuck

def callFunction (callee : String) (args : List ValueType → Eval V.Frame (List Value)) : Eval V.Frame Value := do
  match g.signature? callee with
  | some f => onWorld (call callee (← args f.parameterTypes))
  | none => stop .stuck

def passed (v : Value) : Except Stop Value := if v = .void then .error .stuck else .ok v

def giveBack (v : Value) : Eval V.Frame Unit := do
  if result = .void then throw (.returned .void)
  else throw (.returned (← attempt (v.convert result)))

mutual

def evaluate : Expr → Eval V.Frame Value
  | .number _ value type => pure (.literal value type)
  | .reference _ name => load V g name
  | .binary _ op lhs rhs => do
    if op = "=" then
      match lhs with
      | .reference _ name => assign V g name (evaluate rhs)
      | _ => stop .stuck
    else
      let v ← evaluate lhs
      let w ← evaluate rhs
      attempt (operate op v w)
  | .call _ callee args => callFunction V g call callee (evaluateArguments args)
  | .cast _ target value => do attempt ((← evaluate value).convert target)
  | .assign _ name value => assign V g name (evaluate value)
  | .string _ value => pure (.i32 (.ofNat 32 (g.address value)))
  | .conditional _ conditions separators body => do
    if (← evaluateConditions conditions separators) then
      executeAll body
      return .void
    else
      onFrame (V.skip · (declaredAmong (Stmt.entitiesOfAll body)))
      return .void
  | .importFile _ _ => pure .void

def evaluateArguments : List Expr → List ValueType → Eval V.Frame (List Value)
  | e :: es, type :: types => do
    let v ← attempt ((← evaluate e).convert type)
    let v ← attempt (passed v)
    return v :: (← evaluateArguments es types)
  | _, _ => return []

def evaluateCondition : Condition → Eval V.Frame Bool
  | .compare lhs op rhs => do
    let v ← evaluate lhs
    let w ← evaluate rhs
    attempt (test op v w)

def evaluateConditions : List Condition → List String → Eval V.Frame Bool
  | c :: cs, separators => do evaluateRest (← evaluateCondition c) cs separators
  | [], _ => stop .stuck

def evaluateRest : Bool → List Condition → List String → Eval V.Frame Bool
  | soFar, [], _ => return soFar
  | soFar, c :: cs, separator :: separators => do
    if soFar = (separator == "&&") then evaluateRest (← evaluateCondition c) cs separators
    else
      onFrame (V.skip · (declaredAmong c.entities))
      evaluateRest soFar cs separators
  | _, _ :: _, [] => stop .stuck

def execute : Stmt → Eval V.Frame Unit
  | .expression value => do
    let _ ← evaluate value
  | .call _ callee args => do
    let _ ← callFunction V g call callee (evaluateArguments args)
  | .declare _ type name value => do
    let v ← attempt ((← evaluate value).convert type)
    onFrame (V.declare · name type v)
  | .function _ _ _ | .prototype _ => pure ()
  | .ret _ value => do giveBack V result (← evaluate value)

def executeAll : List Stmt → Eval V.Frame Unit
  | [] => pure ()
  | s :: ss => do
    execute s
    executeAll ss

end

def executeOuter : Program → Eval V.Frame Unit
  | [] => pure ()
  | .declare _ type name value :: p => do
    let v ← attempt ((← evaluate V g call result value).convert type)
    storeGlobal name v
    onFrame (V.publish · name)
    executeOuter p
  | s :: p => do
    execute V g call result s
    executeOuter p

variable {V}

def inFrame (frame : V.Frame) (body : Eval V.Frame Unit) : EStateM Stop World Value := fun w =>
  match body ⟨frame, w⟩ with
  | .ok _ a => .ok (.zero result) a.world
  | .error (.returned v) a => .ok v a.world
  | .error (.stop e) a => .error e a.world

def callHost (f : Prototype) (args : List Value) : EStateM Stop World Value := fun w =>
  let store : Wasm.Store := ⟨[], w.answers, w.log ++ [⟨f.name, args.filterMap Value.held⟩]⟩
  let answer := store.answer
    ⟨f.name, Lowering.hostModule, f.name, f.parameterTypes.map ValueType.numType?, f.result.numType?⟩
  let after : World := ⟨w.stores, answer.2.answers, answer.2.log⟩
  match Value.ofHeld? f.result answer.1 with
  | some v => .ok v after
  | none => .error .stuck after

end Keel.Semantics

namespace Keel.Program

open Semantics

def definition? (p : Program) (name : String) : Option Definition :=
  p.definitions.find? (·.signature.name == name)

def host? (p : Program) (name : String) : Option Prototype := p.hosts.find? (·.name == name)

def signature? (p : Program) (name : String) : Option Prototype := p.signatures.find? (·.name == name)

def strings (p : Program) : Lowering.StringTable :=
  (stringsAmong p.entities).foldl (fun table value => (table.intern value).2) .empty

def setting (p : Program) : Setting :=
  ⟨p.signature?, p.globals, fun value => (p.strings.entries.lookup value).getD 0⟩

variable (p : Program) (V : Variables)

def invoke : Nat → Calls
  | 0, _, _ => throw .exhausted
  | depth + 1, name, args =>
    match p.definition? name with
    | some d =>
      inFrame d.signature.result (V.enter (d.parameters.map fun q => (q.name, q.type)) d.variables args)
        (executeAll V p.setting (invoke depth) d.signature.result d.body)
    | none =>
      match p.host? name with
      | some f => callHost f args
      | none => throw .stuck

def start : Nat → EStateM Wasm.Stop World Value
  | 0 => throw .exhausted
  | depth + 1 =>
    inFrame .void (V.enter [] p.startVariables []) (executeOuter V p.setting (p.invoke V depth) .void p)

end Keel.Program
