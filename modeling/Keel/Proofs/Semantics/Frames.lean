import Keel.Proofs.Semantics.Evaluation

namespace Keel.Semantics

def lastStored {κ : Type} [BEq κ] (stores : List (κ × Value)) (key : κ) (type : ValueType) : Value :=
  (stores.lookup key).getD (.zero type)

structure NamedFrame where
  types : List (String × ValueType)
  stores : List (String × Value)

/-- A function has one variable for each name. -/
def byName : Variables where
  Frame := NamedFrame
  Slot := String × ValueType
  enter parameters declared args := ⟨parameters ++ declared, (parameters.map Prod.fst).zip args⟩
  find? frame name := (frame.types.lookup name).map fun type => ((name, type), type)
  read frame slot := lastStored frame.stores slot.1 slot.2
  write frame slot v := { frame with stores := (slot.1, v) :: frame.stores }
  declare frame name _ v := { frame with stores := (name, v) :: frame.stores }
  skip frame _ := frame
  publish frame _ := frame

structure NumberedFrame where
  declared : List (String × ValueType)
  stores : List (Nat × Value)

def newest? : List (String × ValueType) → String → Option ((Nat × ValueType) × ValueType)
  | [], _ => none
  | (other, type) :: older, name => if other = name then some ((older.length, type), type) else newest? older name

/-- Each declaration has a variable of its own. A name stands for the one of the last declaration before it in the
text, whether that was run or not. -/
def byDeclaration : Variables where
  Frame := NumberedFrame
  Slot := Nat × ValueType
  enter parameters _ args := ⟨parameters.reverse, (List.range args.length).zip args⟩
  find? frame name := newest? frame.declared name
  read frame slot := lastStored frame.stores slot.1 slot.2
  write frame slot v := { frame with stores := (slot.1, v) :: frame.stores }
  declare frame name type v := ⟨(name, type) :: frame.declared, (frame.declared.length, v) :: frame.stores⟩
  skip frame declared := { frame with declared := declared.reverse ++ frame.declared }
  publish frame _ := frame

structure RunFrame where
  types : List (String × ValueType)
  known : List String
  stores : List (String × Value)

def byExecution (globals : List String) : Variables where
  Frame := RunFrame
  Slot := String × ValueType
  enter parameters declared args :=
    ⟨parameters ++ declared, parameters.map Prod.fst, (parameters.map Prod.fst).zip args⟩
  find? frame name :=
    if name ∈ frame.known ∨ name ∉ globals then (frame.types.lookup name).map fun type => ((name, type), type)
    else none
  read frame slot := lastStored frame.stores slot.1 slot.2
  write frame slot v := { frame with stores := (slot.1, v) :: frame.stores }
  declare frame name type v :=
    ⟨(name, type) :: frame.types, name :: frame.known, (name, v) :: frame.stores⟩
  skip frame _ := frame
  publish frame name := { frame with known := frame.known.filter (· ≠ name) }

end Keel.Semantics
