import Keel.Floating.Decimal
import Keel.Text.Unit
import Keel.Wasm.Module

/-! The text form of a module, a parenthesis for each of its parts. -/

namespace Keel.Wasm

namespace Listing

def newline (depth : Nat) : String := "\n" ++ String.join (List.replicate depth " ")

def group (depth : Nat) (head : String) (parts : List String) : String :=
  "(" ++ head ++ String.join (parts.map (newline (depth + 1) ++ ·)) ++ ")"

def floatText {f : Format} : Floating f → String
  | .finite negative m e => (Floating.finite (f := f) negative m e).toText
  | .infinite negative => if negative then "-inf" else "inf"
  | .nan => "nan"

def valueText : Value → String
  | .i32 b => "i32.const " ++ toString b.toInt
  | .i64 b => "i64.const " ++ toString b.toInt
  | .f32 x => "f32.const " ++ floatText x
  | .f64 x => "f64.const " ++ floatText x

def typed (word : String) : ResultType → String
  | none => ""
  | some t => " (" ++ word ++ " " ++ t.name ++ ")"

mutual

def instr (depth : Nat) : Instr → String
  | .nop => "(nop)"
  | .const v => "(" ++ valueText v ++ ")"
  | .localGet i => "(local.get " ++ toString i ++ ")"
  | .localSet i x => group depth ("local.set " ++ toString i) [instr (depth + 1) x]
  | .localTee i x => group depth ("local.tee " ++ toString i) [instr (depth + 1) x]
  | .globalGet name => "(global.get $" ++ name ++ ")"
  | .globalSet name x => group depth ("global.set $" ++ name) [instr (depth + 1) x]
  | .convert op x => group depth op.name [instr (depth + 1) x]
  | .binary op x y => group depth op.name [instr (depth + 1) x, instr (depth + 1) y]
  | .call callee args => group depth ("call $" ++ callee) (instrs (depth + 1) args)
  | .drop x => group depth "drop" [instr (depth + 1) x]
  | .block label result body =>
    group depth ("block" ++ (label.map (" $" ++ ·)).getD "" ++ typed "result" result) (instrs (depth + 1) body)
  | .ifThen c x => group depth "if" [instr (depth + 1) c, group (depth + 1) "then" [instr (depth + 2) x]]
  | .ifElse c x y =>
    group depth "if (result i32)"
      [instr (depth + 1) c, group (depth + 1) "then" [instr (depth + 2) x],
        group (depth + 1) "else" [instr (depth + 2) y]]
  | .br label => "(br $" ++ label ++ ")"

def instrs (depth : Nat) : List Instr → List String
  | [] => []
  | x :: xs => instr depth x :: instrs depth xs

end

def signature (params : List ResultType) (result : ResultType) : String :=
  String.join (params.map (typed "param")) ++ typed "result" result

def hostFunction (f : HostFunction) : String :=
  "(import \"" ++ f.source ++ "\" \"" ++ f.base ++ "\" (func $" ++ f.name ++ signature f.params f.result ++ "))"

def global (g : Global) : String :=
  "(global $" ++ g.name ++ " (mut " ++ g.init.type.name ++ ") (" ++ valueText g.init ++ "))"

def byteText (b : UInt8) : String := String.ofList ('\\' :: Text.hexDigits 2 b.toNat)

def segment (s : Segment) : String :=
  "(data (i32.const " ++ toString s.offset ++ ") \"" ++ String.join (s.data.map byteText) ++ "\")"

def exportItem : ExportItem → String
  | .function name => "(export \"" ++ name ++ "\" (func $" ++ name ++ "))"
  | .memory name => "(export \"" ++ name ++ "\" (memory 0))"

def function (f : Function) : String :=
  group 1 ("func $" ++ f.name ++ signature f.params f.result ++ String.join (f.vars.map (typed "local")))
    [instr 2 f.body]

end Listing

open Listing

def Module.listing (m : Module) : String :=
  let pages := toString m.pages
  group 0 "module"
    (m.imports.map hostFunction ++ m.globals.map global ++ ["(memory " ++ pages ++ " " ++ pages ++ ")"] ++
      m.segments.map segment ++ m.exports.map exportItem ++
      (m.start.map fun name => "(start $" ++ name ++ ")").toList ++ m.functions.map function)

end Keel.Wasm
