import Keel.CommandLine.Disk
import Keel.CommandLine.Dump
import Keel.CommandLine.Options
import Keel.Unit.Build

/-! What a call of the command line prints and writes. -/

namespace Keel

def usage : String :=
  "\n".intercalate
    ["Usage: keelc <file> [options]",
      "",
      "Options:",
      "  --emit <wat|wasm>  Output format (default: wat)",
      "  --out <path>       Write output to a file. wasm defaults to <file>.wasm",
      "  --optimize         Run the binaryen optimizer",
      "  --tokens           Print the token stream",
      "  --ast              Print the parsed program",
      "  -h, --help         Show this message"]

inductive Printed where
  | text (s : String)
  | wat (m : Wasm.Module)

structure Written where
  path : String
  format : OutputFormat
  content : Wasm.Module

structure Plan where
  exit : Nat
  stdout : List Printed
  stderr : List String
  write : Option Written

namespace Plan

def failed (stdout : List Printed) (message : String) : Plan := ⟨1, stdout, [message], none⟩

structure Sources where
  read : String → Except String String
  host : SourceFiles

def stem (file : String) : String :=
  let reversed := file.toList.reverse
  let extension := reversed.takeWhile fun c => c ≠ '.' ∧ c ≠ '/' ∧ c ≠ '\\'
  match extension, reversed.drop extension.length with
  | _ :: _, '.' :: rest => String.ofList rest.reverse
  | _, _ => file

def binaryPath (file : String) : String := stem file ++ ".wasm"

def dumps (s : Sources) (o : CompileJob) : List Printed × Option String :=
  if !o.dumpTokens && !o.dumpProgram then ([], none)
  else match s.read o.file with
    | .error reason => ([], some reason)
    | .ok source =>
      match lex source with
      | .error e => ([], some (Failure.lex e).message)
      | .ok tokens =>
        let first := if o.dumpTokens then [.text ((Dump.tokens tokens).render 0)] else []
        if !o.dumpProgram then (first, none)
        else match parse tokens .standard with
          | .error h => (first, some (Failure.ofHalt h).message)
          | .ok p => (first ++ [.text ((Dump.program p).render 0)], none)

def compile (s : Sources) (o : CompileJob) : Plan :=
  match dumps s o with
  | (stdout, some message) => failed stdout message
  | (stdout, none) =>
    match buildFile ⟨s.host, .standard, true⟩ o.file with
    | .error e => failed stdout e.message
    | .ok m =>
      match o.format, o.out with
      | .wat, none => ⟨0, stdout ++ [.wat m], [], none⟩
      | .wat, some path => ⟨0, stdout, [], some ⟨path, .wat, m⟩⟩
      | .wasm, out => ⟨0, stdout, [], some ⟨out.getD (binaryPath o.file), .wasm, m⟩⟩

def ofArguments (s : Sources) (args : List String) : Plan :=
  match Options.parse args with
  | .error e => ⟨2, [], [e.message, usage], none⟩
  | .ok .help => ⟨0, [.text usage], [], none⟩
  | .ok (.compile o) => compile s o

def refused (p : Plan) (message : String) : Plan := failed p.stdout message

end Plan

namespace Disk

def sources (d : Disk) : Plan.Sources where
  read path := (d.read path).mapError fun e => e.readMessage path
  host := d.host

def perform (d : Disk) (args : List String) : Plan × Option (List String) :=
  let plan := Plan.ofArguments d.sources args
  match plan.write with
  | none => (plan, none)
  | some w =>
    match d.target w.path with
    | .ok names => (plan, some names)
    | .error e => (plan.refused (e.openMessage w.path), none)

end Disk

end Keel
