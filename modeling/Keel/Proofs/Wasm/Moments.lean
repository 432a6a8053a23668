import Keel.Proofs.Semantics.Sessions

namespace Keel.Wasm

mutual

inductive Reaches (call : Caller) : Instr → State → Instr → State → Prop
  | here {x s} : Reaches call x s x s
  | localSet {i x s y t} : Reaches call x s y t → Reaches call (.localSet i x) s y t
  | localTee {i x s y t} : Reaches call x s y t → Reaches call (.localTee i x) s y t
  | globalSet {name x s y t} : Reaches call x s y t → Reaches call (.globalSet name x) s y t
  | convert {op x s y t} : Reaches call x s y t → Reaches call (.convert op x) s y t
  | left {op x z s y t} : Reaches call x s y t → Reaches call (.binary op x z) s y t
  | right {op x z s v u y t} : x.run call s = .ok (some v) u → Reaches call z u y t →
      Reaches call (.binary op x z) s y t
  | argument {callee args s y t} : ReachesArgument call args s y t → Reaches call (.call callee args) s y t
  | drop {x s y t} : Reaches call x s y t → Reaches call (.drop x) s y t
  | block {label result body s y t} : ReachesIn call body s y t → Reaches call (.block label result body) s y t
  | test {c x s y t} : Reaches call c s y t → Reaches call (.ifThen c x) s y t
  | passed {c x s v u y t} : c.run call s = .ok (some v) u → v.isTrue = true → Reaches call x u y t →
      Reaches call (.ifThen c x) s y t
  | choice {c x z s y t} : Reaches call c s y t → Reaches call (.ifElse c x z) s y t
  | yes {c x z s v u y t} : c.run call s = .ok (some v) u → v.isTrue = true → Reaches call x u y t →
      Reaches call (.ifElse c x z) s y t
  | no {c x z s v u y t} : c.run call s = .ok (some v) u → v.isTrue = false → Reaches call z u y t →
      Reaches call (.ifElse c x z) s y t

inductive ReachesIn (call : Caller) : List Instr → State → Instr → State → Prop
  | head {x xs s y t} : Reaches call x s y t → ReachesIn call (x :: xs) s y t
  | tail {x xs s v u y t} : x.run call s = .ok v u → ReachesIn call xs u y t → ReachesIn call (x :: xs) s y t

inductive ReachesArgument (call : Caller) : List Instr → State → Instr → State → Prop
  | head {x xs s y t} : Reaches call x s y t → ReachesArgument call (x :: xs) s y t
  | tail {x xs s v u y t} : x.run call s = .ok (some v) u → ReachesArgument call xs u y t →
      ReachesArgument call (x :: xs) s y t

end

/-- An instruction of a function that is to run next, from a state, with calls nested less deep than `depth`. -/
structure Moment where
  function : Function
  depth : Nat
  code : Instr
  state : State

namespace Module

variable (m : Module)

def outcome (moment : Moment) : EStateM.Result Stop State (Option Value) :=
  moment.code.run (m.invoke moment.depth) moment.state

def entry (f : Function) (args : List Value) (store : Store) : State :=
  ⟨store, args.map some ++ f.vars.map zeroOf⟩

inductive Visits : Nat → String → List Value → Store → Moment → Prop
  | own {depth name args store f x t} : m.function? name = some f →
      Reaches (m.invoke depth) f.body (entry f args store) x t → Visits (depth + 1) name args store ⟨f, depth, x, t⟩
  | inner {depth name args store f callee given t vs u moment} : m.function? name = some f →
      Reaches (m.invoke depth) f.body (entry f args store) (.call callee given) t →
      runArguments (m.invoke depth) given t = .ok vs u → Visits depth callee vs u.store moment →
      Visits (depth + 1) name args store moment

inductive VisitsAll (depth : Nat) : Store → List (String × List Value) → Moment → Prop
  | first {store name args calls moment} : m.Visits depth name args { store with log := [] } moment →
      VisitsAll depth store ((name, args) :: calls) moment
  | later {store name args calls moment} : VisitsAll depth (m.step depth store name args).2 calls moment →
      VisitsAll depth store ((name, args) :: calls) moment

/-- The moments of a session: those of the start function and, if that comes to its end, those of the calls. -/
inductive InSession (depth : Nat) (answers : List (String × List Value)) (calls : List (String × List Value)) :
    Moment → Prop
  | start {name moment} : m.start = some name → m.Visits depth name [] (m.initialStore answers) moment →
      InSession depth answers calls moment
  | call {v moment} : (m.begin depth (m.initialStore answers)).1.outcome = .ok v →
      m.VisitsAll depth (m.begin depth (m.initialStore answers)).2 calls moment → InSession depth answers calls moment

end Module

end Keel.Wasm
