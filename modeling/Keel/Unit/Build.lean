import Keel.Lowering.Program
import Keel.Unit.Linked

/-! From a source file to a module. -/

namespace Keel

structure BuildOptions where
  host : SourceFiles
  table : Precedences
  exportFunctions : Bool

/-- A build also fails if its first file cannot be read. -/
inductive BuildError where
  | unreadable (reason : String)
  | failure (f : Failure)

def BuildError.message : BuildError → String
  | unreadable reason => reason
  | failure f => f.message

def buildSource (o : BuildOptions) (path source : String) : Except Failure Wasm.Module := do
  let program ← link o.host o.table path source
  (compile program o.exportFunctions).mapError Failure.compile

def buildFile (o : BuildOptions) (path : String) : Except BuildError Wasm.Module :=
  let entry := o.host.canonical path
  match o.host.read entry with
  | .error reason => .error (.unreadable reason)
  | .ok source => (buildSource o entry source).mapError BuildError.failure

end Keel
