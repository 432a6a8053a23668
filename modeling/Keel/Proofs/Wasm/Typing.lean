import Keel.Wasm.Module
import Mathlib.Tactic.Common

namespace Keel.Wasm

structure FunctionType where
  params : List ResultType
  result : ResultType
  deriving DecidableEq, Repr

structure Context where
  functions : List (String × FunctionType)
  globals : List (String × NumType)
  locals : List ResultType

abbrev Labels := List (String × ResultType)

def Labels.enter (labels : Labels) (label : Option String) (result : ResultType) : Labels :=
  match label with
  | some l => (l, result) :: labels
  | none => labels

mutual

/-- An instruction leaves a value of a type, or nothing. A branch leads to a block that leaves nothing. -/
inductive HasType (Γ : Context) : Labels → Instr → ResultType → Prop
  | nop {labels} : HasType Γ labels .nop none
  | const {labels} (v) : HasType Γ labels (.const v) (some v.type)
  | localGet {labels i t} : Γ.locals[i]? = some t → HasType Γ labels (.localGet i) t
  | localSet {labels i x t} : Γ.locals[i]? = some t → HasType Γ labels x t → HasType Γ labels (.localSet i x) none
  | localTee {labels i x t} : Γ.locals[i]? = some t → HasType Γ labels x t → HasType Γ labels (.localTee i x) t
  | globalGet {labels name t} : Γ.globals.lookup name = some t → HasType Γ labels (.globalGet name) (some t)
  | globalSet {labels name x t} : Γ.globals.lookup name = some t → HasType Γ labels x (some t) →
      HasType Γ labels (.globalSet name x) none
  | convert {labels op x} : HasType Γ labels x (some (Conversion.sourceType op)) →
      HasType Γ labels (.convert op x) (some op.targetType)
  | binary {labels op x y} : HasType Γ labels x (some (BinaryOp.operandType op)) →
      HasType Γ labels y (some op.operandType) → HasType Γ labels (.binary op x y) (some op.resultType)
  | call {labels callee args f} : Γ.functions.lookup callee = some f → ArgumentsHaveTypes Γ labels args f.params →
      HasType Γ labels (.call callee args) f.result
  | drop {labels x t} : HasType Γ labels x (some t) → HasType Γ labels (.drop x) none
  | block {labels label result body} : SequenceHasType Γ (Labels.enter labels label result) body result →
      HasType Γ labels (.block label result body) result
  | ifThen {labels c x} : HasType Γ labels c (some .i32) → HasType Γ labels x none →
      HasType Γ labels (.ifThen c x) none
  | ifElse {labels c x y t} : HasType Γ labels c (some .i32) → HasType Γ labels x t → HasType Γ labels y t →
      HasType Γ labels (.ifElse c x y) t
  | br {labels label} : List.lookup label labels = some none → HasType Γ labels (.br label) none

inductive SequenceHasType (Γ : Context) : Labels → List Instr → ResultType → Prop
  | nil {labels} : SequenceHasType Γ labels [] none
  | last {labels x t} : HasType Γ labels x t → SequenceHasType Γ labels [x] t
  | cons {labels x y ys t} : HasType Γ labels x none → SequenceHasType Γ labels (y :: ys) t →
      SequenceHasType Γ labels (x :: y :: ys) t

inductive ArgumentsHaveTypes (Γ : Context) : Labels → List Instr → List ResultType → Prop
  | nil {labels} : ArgumentsHaveTypes Γ labels [] []
  | cons {labels x xs t ts} : HasType Γ labels x (some t) → ArgumentsHaveTypes Γ labels xs ts →
      ArgumentsHaveTypes Γ labels (x :: xs) (some t :: ts)

end

lemma SequenceHasType.push {Γ : Context} {labels : Labels} {x : Instr} {xs : List Instr}
    (hx : HasType Γ labels x none) (hxs : SequenceHasType Γ labels xs none) :
    SequenceHasType Γ labels (x :: xs) none := by
  cases xs with
  | nil => exact .last hx
  | cons y ys => exact .cons hx hxs

def Function.type (f : Function) : FunctionType := ⟨f.params, f.result⟩

def HostFunction.type (f : HostFunction) : FunctionType := ⟨f.params, f.result⟩

structure Function.WellTyped (functions : List (String × FunctionType)) (globals : List (String × NumType))
    (f : Function) : Prop where
  locals : ∀ t ∈ f.params ++ f.vars, t.isSome
  body : HasType ⟨functions, globals, f.params ++ f.vars⟩ [] f.body f.result

def ExportItem.name : ExportItem → String
  | function name | memory name => name

namespace Module

def functionTypes (m : Module) : List (String × FunctionType) :=
  m.imports.map (fun f => (f.name, f.type)) ++ m.functions.map fun f => (f.name, f.type)

def globalTypes (m : Module) : List (String × NumType) := m.globals.map fun g => (g.name, g.init.type)

/-- Names are unambiguous, and all functions are well typed with respect to the module itself. -/
structure WellTyped (m : Module) : Prop where
  functionNames : m.functionNames.Nodup
  globalNames : (m.globals.map Global.name).Nodup
  exportNames : (m.exports.map ExportItem.name).Nodup
  imports : ∀ f ∈ m.imports, ∀ t ∈ f.params, t.isSome
  functions : ∀ f ∈ m.functions, f.WellTyped m.functionTypes m.globalTypes
  exports : ∀ name, .function name ∈ m.exports → ∃ f ∈ m.functions, f.name = name
  start : ∀ name, m.start = some name → m.functionTypes.lookup name = some ⟨[], none⟩

end Module

end Keel.Wasm
