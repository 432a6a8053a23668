import Keel.Failure
import Keel.Syntax.Parser
import Keel.Unit.Imports
import Keel.Unit.Path

/-! A source file together with the files it imports, each once, imports first. -/

namespace Keel

/-- Where source files come from: how they are named, what they hold, and why others cannot be read. -/
structure SourceFiles where
  resolve : String → String → String
  canonical : String → String
  files : List (String × String)
  reason : String → String

namespace SourceFiles

def read (host : SourceFiles) (path : String) : Except String String :=
  match host.files.lookup path with
  | some source => .ok source
  | none => .error (host.reason path)

def ofFiles (files : List (String × String)) : SourceFiles where
  resolve := Path.fromFile
  canonical := Path.normalize
  files := files
  reason path := "No such file " ++ path

end SourceFiles

structure SourceUnit where
  path : String
  program : Program

def parseText (source : String) (table : Precedences) : Except Failure Program :=
  match lex source with
  | .error e => .error (.lex e)
  | .ok tokens => (parse tokens table).mapError Failure.ofHalt

namespace Linking

structure State where
  included : List String := []
  units : List SourceUnit := []

def sourceOf (host : SourceFiles) (path : String) (i : Import) : Except Failure String :=
  (host.read path).mapError fun reason =>
    .compile ⟨.importNotFound i.path reason, some i.position⟩

variable (host : SourceFiles) (table : Precedences)

def follow (visit : String → String → State → Except Failure State) (path : String) (state : State)
    (i : Import) : Except Failure State :=
  let target := host.resolve path i.path
  if state.included.contains target then .ok state
  else do visit target (← sourceOf host target i) state

def visit : Nat → String → String → State → Except Failure State
  | 0, _, _, _ => .error .exhausted
  | depth + 1, path, source, state => do
    let program ← parseText source table
    let met := { state with included := path :: state.included }
    let state ← program.imports.foldlM (follow host (visit depth) path) met
    return { state with units := state.units ++ [⟨path, program⟩] }

end Linking

def linkUnits (host : SourceFiles) (table : Precedences) (path source : String) :
    Except Failure (List SourceUnit) := do
  let state ← Linking.visit host table (host.files.length + 2) (host.canonical path) source {}
  return state.units

def link (host : SourceFiles) (table : Precedences) (path source : String) : Except Failure Program := do
  return (← linkUnits host table path source).flatMap SourceUnit.program

end Keel
