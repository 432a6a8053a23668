/-! The arguments of the command line. -/

namespace Keel

inductive OutputFormat where
  | wat | wasm
  deriving DecidableEq, Repr

structure CompileJob where
  file : String
  format : OutputFormat
  out : Option String
  optimize : Bool
  dumpTokens : Bool
  dumpProgram : Bool
  deriving DecidableEq, Repr

inductive Options where
  | help
  | compile (o : CompileJob)
  deriving DecidableEq, Repr

inductive UsageError where
  | invalidFormat (value : String)
  | missingOut
  | unknownOption (arg : String)
  | unexpectedArgument (arg : String)
  | missingFile
  deriving DecidableEq, Repr

def UsageError.message : UsageError → String
  | invalidFormat value => "Invalid --emit value: " ++ value
  | missingOut => "Missing value for --out"
  | unknownOption arg => "Unknown option: " ++ arg
  | unexpectedArgument arg => "Unexpected argument: " ++ arg
  | missingFile => "Missing file argument"

namespace Options

def collect : CompileJob → List String → Except UsageError CompileJob
  | o, [] => if o.file = "" then .error .missingFile else .ok o
  | _, ["--emit"] => .error (.invalidFormat "")
  | o, "--emit" :: value :: rest =>
    if value = "wat" then collect { o with format := .wat } rest
    else if value = "wasm" then collect { o with format := .wasm } rest
    else .error (.invalidFormat value)
  | _, ["--out"] => .error .missingOut
  | o, "--out" :: value :: rest =>
    if value = "" then .error .missingOut else collect { o with out := some value } rest
  | o, arg :: rest =>
    if arg = "--optimize" then collect { o with optimize := true } rest
    else if arg = "--tokens" then collect { o with dumpTokens := true } rest
    else if arg = "--ast" then collect { o with dumpProgram := true } rest
    else if arg.toList.head? = some '-' then .error (.unknownOption arg)
    else if o.file = "" then collect { o with file := arg } rest
    else .error (.unexpectedArgument arg)

/-- A wish for help goes before everything else. -/
def parse (args : List String) : Except UsageError Options :=
  if args.contains "--help" || args.contains "-h" then .ok .help
  else (collect ⟨"", .wat, none, false, false, false⟩ args).map .compile

end Options

end Keel
