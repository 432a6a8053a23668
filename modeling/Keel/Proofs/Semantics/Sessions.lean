import Keel.Proofs.Semantics.Evaluation

namespace Keel

open Wasm (Stop)
open Semantics

/-- All that the host is still to answer is of the types of its functions. -/
def Answered (hosts : List Prototype) (answers : List (String × List Wasm.Value)) : Prop :=
  ∀ q ∈ hosts, q.result ≠ .void → ∀ n ∈ (answers.lookup q.name).getD [], some n.type = q.result.numType?

instance (hosts : List Prototype) (answers : List (String × List Wasm.Value)) : Decidable (Answered hosts answers) :=
  inferInstanceAs (Decidable (∀ q ∈ hosts, q.result ≠ .void → ∀ n ∈ (answers.lookup q.name).getD [],
    some n.type = q.result.numType?))

def numbersOf (calls : List (String × List Value)) : List (String × List Wasm.Value) :=
  calls.map fun c => (c.1, c.2.filterMap Value.held)

structure Session where
  start : Wasm.Module.Step
  steps : List Wasm.Module.Step
  globals : List (String × Option Wasm.Value)

namespace Wasm.Module

variable (m : Module) (depth : Nat)

def steps : Store → List (String × List Wasm.Value) → List Step × Store
  | store, [] => ([], store)
  | store, (name, args) :: calls =>
    let (step, next) := m.step depth store name args
    let (rest, last) := steps next calls
    (step :: rest, last)

def globalsOf (store : Store) : List (String × Option Wasm.Value) := store.globals.map fun e => (e.1, some e.2)

def session (answers : List (String × List Wasm.Value)) (calls : List (String × List Wasm.Value)) : Session :=
  let (start, store) := m.begin depth (m.initialStore answers)
  match start.outcome with
  | .ok _ =>
    let (rest, last) := m.steps depth store calls
    ⟨start, rest, globalsOf last⟩
  | .error _ => ⟨start, [], globalsOf store⟩

end Wasm.Module

def observed : EStateM.Result Stop World Value → Wasm.Module.Step × World
  | .ok v w => (⟨.ok v.held, w.log⟩, w)
  | .error e w => (⟨.error e, w.log⟩, w)

namespace Program

variable (p : Program) (V : Variables) (depth : Nat)

/-- A call of one of the functions, with a number for each parameter. -/
def Admits (call : String × List Value) : Prop :=
  (∃ d ∈ p.definitions, d.signature.name = call.1 ∧ call.2.map Value.type = d.signature.parameterTypes) ∧
    ∀ v ∈ call.2, v ≠ .void

instance (call : String × List Value) : Decidable (p.Admits call) :=
  inferInstanceAs (Decidable ((∃ d ∈ p.definitions, d.signature.name = call.1 ∧
    call.2.map Value.type = d.signature.parameterTypes) ∧ ∀ v ∈ call.2, v ≠ .void))

def step (w : World) (name : String) (args : List Value) : Wasm.Module.Step × World :=
  observed (p.invoke V depth name args { w with log := [] })

def begin (w : World) : Wasm.Module.Step × World :=
  if p.all Lowering.isDefinition then (⟨.ok none, []⟩, w) else observed (p.start V depth { w with log := [] })

def steps : World → List (String × List Value) → List Wasm.Module.Step × World
  | w, [] => ([], w)
  | w, (name, args) :: calls =>
    let (step, next) := p.step V depth w name args
    let (rest, last) := steps next calls
    (step :: rest, last)

def globalsOf (w : World) : List (String × Option Wasm.Value) := p.globals.map fun g => (g.1, (w.global g.1 g.2).held)

def session (answers : List (String × List Wasm.Value)) (calls : List (String × List Value)) : Session :=
  let (start, w) := p.begin V depth ⟨[], answers, []⟩
  match start.outcome with
  | .ok _ =>
    let (rest, last) := p.steps V depth w calls
    ⟨start, rest, p.globalsOf last⟩
  | .error _ => ⟨start, [], p.globalsOf w⟩

end Program

end Keel
