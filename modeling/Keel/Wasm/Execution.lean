import Keel.Wasm.Module

/-! Running the functions of a module over a store. -/

namespace Keel.Wasm

structure HostCall where
  name : String
  args : List Value
  deriving DecidableEq, Repr

structure Store where
  globals : List (String × Value)
  answers : List (String × List Value)
  log : List HostCall
  deriving DecidableEq, Repr

structure State where
  store : Store
  locals : List (Option Value)
  deriving DecidableEq, Repr

abbrev Run := EStateM Stop State

abbrev Caller := String → List Value → Run (Option Value)

def zeroOf (t : ResultType) : Option Value := t.map NumType.zero

def assign (name : String) (v : Value) : List (String × Value) → List (String × Value)
  | [] => []
  | (n, w) :: rest => if n = name then (n, v) :: rest else (n, w) :: assign name v rest

namespace Run

def operand (v : Option Value) : Run Value :=
  match v with
  | some v => pure v
  | none => throw .stuck

def getLocal (index : Nat) : Run (Option Value) := do
  match (← get).locals[index]? with
  | some v => pure v
  | none => throw .stuck

def setLocal (index : Nat) (v : Option Value) : Run Unit := do
  if index < (← get).locals.length then
    modify fun s => { s with locals := s.locals.set index v }
  else throw .stuck

def getGlobal (name : String) : Run Value := do
  match (← get).store.globals.lookup name with
  | some v => pure v
  | none => throw .stuck

def setGlobal (name : String) (v : Value) : Run Unit :=
  modify fun s => { s with store := { s.store with globals := assign name v s.store.globals } }

def catchBranch (label : Option String) (body : Run (Option Value)) : Run (Option Value) := fun s =>
  match body s with
  | .error (.branch l) t => if label = some l then .ok none t else .error (.branch l) t
  | r => r

def withLocals (locals : List (Option Value)) (body : Run (Option Value)) : Run (Option Value) := fun s =>
  match body { s with locals := locals } with
  | .ok v t => .ok v { t with locals := s.locals }
  | .error e t => .error e { t with locals := s.locals }

end Run

open Run

mutual

def Instr.run (call : Caller) : Instr → Run (Option Value)
  | .nop => pure none
  | .const v => pure (some v)
  | .localGet i => getLocal i
  | .localSet i x => do
    let v ← x.run call
    setLocal i v
    return none
  | .localTee i x => do
    let v ← x.run call
    setLocal i v
    return v
  | .globalGet name => some <$> getGlobal name
  | .globalSet name x => do
    setGlobal name (← operand (← x.run call))
    return none
  | .convert op x => do
    let v ← operand (← x.run call)
    some <$> ofExcept (op.apply v)
  | .binary op x y => do
    let v ← operand (← x.run call)
    let w ← operand (← y.run call)
    some <$> ofExcept (op.apply v w)
  | .call callee args => do
    let vs ← runArguments call args
    call callee vs
  | .drop x => do
    let _ ← x.run call
    return none
  | .block label _ body => catchBranch label (runSequence call body)
  | .ifThen c x => do
    if (← operand (← c.run call)).isTrue then
      let _ ← x.run call
      return none
    else return none
  | .ifElse c x y => do
    if (← operand (← c.run call)).isTrue then x.run call else y.run call
  | .br label => throw (.branch label)

def runSequence (call : Caller) : List Instr → Run (Option Value)
  | [] => pure none
  | x :: xs => do
    let v ← x.run call
    match xs with
    | [] => return v
    | _ :: _ => runSequence call xs

def runArguments (call : Caller) : List Instr → Run (List Value)
  | [] => pure []
  | x :: xs => do
    let v ← operand (← x.run call)
    return v :: (← runArguments call xs)

end

def Store.answer (s : Store) (f : HostFunction) : Option Value × Store :=
  match f.result with
  | none => (none, s)
  | some t =>
    match s.answers.lookup f.name with
    | none | some [] => (some t.zero, s)
    | some [v] => (some v, s)
    | some (v :: vs) =>
      (some v, { s with answers := s.answers.map fun (n, ws) => (n, if n = f.name then vs else ws) })

def Run.callHost (f : HostFunction) (args : List Value) : Run (Option Value) := fun s =>
  let logged : Store := { s.store with log := s.store.log ++ [⟨f.name, args⟩] }
  .ok (logged.answer f).1 { s with store := (logged.answer f).2 }

namespace Module

def invoke (m : Module) : Nat → Caller
  | 0, _, _ => throw .exhausted
  | depth + 1, name, args =>
    match m.function? name with
    | some f => withLocals (args.map some ++ f.vars.map zeroOf) (f.body.run (m.invoke depth))
    | none =>
      match m.import? name with
      | some f => callHost f args
      | none => throw .stuck

def initialStore (m : Module) (answers : List (String × List Value)) : Store :=
  ⟨m.globals.map fun g => (g.name, g.init), answers, []⟩

structure Step where
  outcome : Except Stop (Option Value)
  host : List HostCall

def step (m : Module) (depth : Nat) (store : Store) (name : String) (args : List Value) : Step × Store :=
  match m.invoke depth name args ⟨{ store with log := [] }, []⟩ with
  | .ok v s => (⟨.ok v, s.store.log⟩, s.store)
  | .error e s => (⟨.error e, s.store.log⟩, s.store)

def begin (m : Module) (depth : Nat) (store : Store) : Step × Store :=
  match m.start with
  | some name => m.step depth store name []
  | none => (⟨.ok none, []⟩, store)

def byteAt (m : Module) (address : Nat) : UInt8 :=
  match m.segments.findSome? fun s => if s.offset ≤ address then s.data[address - s.offset]? else none with
  | some b => b
  | none => 0

end Module

end Keel.Wasm
