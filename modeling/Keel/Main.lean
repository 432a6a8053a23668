import Keel.CommandLine.Plan
import Keel.Wasm.Encoding
import Keel.Wasm.Listing

/-! The compiler as a program. -/

namespace Keel.Shell

def readText (path : String) : IO (Except FileError String) := do
  try
    return .ok (← IO.FS.readFile path)
  catch e =>
    match e with
    | .inappropriateType .. => return .error .isDirectory
    | _ => return .error .notFound

abbrev Known := List (String × Except FileError String)

partial def readAll (known : Known) : List String → IO Known
  | [] => return known
  | path :: paths => do
    if (known.lookup path).isSome then readAll known paths
    else
      let found ← readText path
      let imports : List Import := match found with
        | .error _ => []
        | .ok source =>
          match parseText source .standard with
          | .error _ => []
          | .ok program => Program.imports program
      let targets := imports.map fun i => Path.resolve (Path.directory path) i.path
      readAll ((path, found) :: known) (targets ++ paths)

def known? (known : Known) (path : String) : Except String String :=
  match known.lookup path with
  | some (.ok source) => .ok source
  | some (.error e) => .error (e.readMessage path)
  | none => .error (FileError.notFound.readMessage path)

def sources (directory : String) (given known : Known) : Plan.Sources where
  read := known? given
  host :=
    { resolve := fun file path => Path.resolve (Path.directory file) path
      canonical := Path.resolve directory
      files := known.filterMap fun (path, found) => found.toOption.map (path, ·)
      reason := fun path => match known? known path with
        | .error reason => reason
        | .ok _ => FileError.notFound.readMessage path }

def write (w : Written) : IO (Except FileError Unit) := do
  try
    match w.format with
    | .wat => IO.FS.writeFile w.path w.content.listing
    | .wasm => IO.FS.writeBinFile w.path (ByteArray.mk w.content.encoding.toArray)
    return .ok ()
  catch e =>
    match e with
    | .inappropriateType .. => return .error .isDirectory
    | _ => return .error .notFound

def emit (p : Printed) : IO Unit :=
  match p with
  | .text s => IO.println s
  | .wat m => IO.println m.listing

def carryOut (plan : Plan) : IO UInt32 := do
  plan.stdout.forM emit
  plan.stderr.forM fun s => IO.eprintln s
  match plan.write with
  | none => return plan.exit.toUInt32
  | some w =>
    match ← write w with
    | .ok _ => return plan.exit.toUInt32
    | .error e =>
      IO.eprintln (e.openMessage w.path)
      return 1

end Keel.Shell

open Keel Shell

def main (args : List String) : IO UInt32 := do
  let directory := (← IO.currentDir).toString
  match Options.parse args with
  | .ok (.compile o) => do
    let given : Known := [(o.file, ← readText o.file)]
    let known ← readAll [] [Path.resolve directory o.file]
    carryOut (Plan.ofArguments (sources directory given known) args)
  | _ => carryOut (Plan.ofArguments (sources directory [] []) args)
