import Keel.Wasm.Module

/-! The binary form of a module. -/

namespace Keel

-- Powers are the core library's, whatever other powers are in scope.
attribute [local instance (high)] instPowNat

namespace Floating

variable {f : Format}

def fields (exponentBits : Nat) (x : Floating f) : Nat :=
  let fractionBits := f.precision - 1
  let place (negative : Bool) (exponent fraction : Nat) : Nat :=
    (negative.toNat * 2 ^ exponentBits + exponent) * 2 ^ fractionBits + fraction
  match x with
  | .finite negative m e =>
    if m < 2 ^ fractionBits then place negative 0 m
    else place negative (e - f.minExponent + 1).toNat (m - 2 ^ fractionBits)
  | .infinite negative => place negative (2 ^ exponentBits - 1) 0
  | .nan => place false (2 ^ exponentBits - 1) (2 ^ (fractionBits - 1))

end Floating

namespace Wasm

namespace Encoding

abbrev Bytes := List UInt8

def unsignedDigits : Nat → Nat → Bytes
  | 0, n => [UInt8.ofNat n]
  | fuel + 1, n =>
    if n < 128 then [UInt8.ofNat n] else UInt8.ofNat (n % 128 + 128) :: unsignedDigits fuel (n / 128)

def unsigned (n : Nat) : Bytes := unsignedDigits n.log2 n

def signedDigits : Nat → Int → Bytes
  | 0, i => [UInt8.ofNat (i % 128).toNat]
  | fuel + 1, i =>
    if -64 ≤ i ∧ i < 64 then [UInt8.ofNat (i % 128).toNat]
    else UInt8.ofNat ((i % 128).toNat + 128) :: signedDigits fuel (i / 128)

def signed (i : Int) : Bytes := signedDigits (i.natAbs.log2 + 1) i

def littleEndian (count n : Nat) : Bytes := (List.range count).map fun i => UInt8.ofNat (n / 256 ^ i % 256)

def sized (bytes : Bytes) : Bytes := unsigned bytes.length ++ bytes

def vector (items : List Bytes) : Bytes := unsigned items.length ++ items.flatten

def nameBytes (s : String) : Bytes := sized s.toUTF8.data.toList

def sectionOf (id : UInt8) (items : List Bytes) : Bytes :=
  if items.isEmpty then [] else id :: sized (vector items)

def numType : NumType → UInt8
  | .i32 => 0x7f
  | .i64 => 0x7e
  | .f32 => 0x7d
  | .f64 => 0x7c

def blockType : ResultType → UInt8
  | none => 0x40
  | some t => numType t

def value : Value → Bytes
  | .i32 b => 0x41 :: signed b.toInt
  | .i64 b => 0x42 :: signed b.toInt
  | .f32 x => 0x43 :: littleEndian 4 (x.fields 8)
  | .f64 x => 0x44 :: littleEndian 8 (x.fields 11)

def arithCode : NumType → ArithOp → UInt8
  | .i32, .add => 0x6a
  | .i32, .sub => 0x6b
  | .i32, .mul => 0x6c
  | .i32, .div => 0x6d
  | .i64, .add => 0x7c
  | .i64, .sub => 0x7d
  | .i64, .mul => 0x7e
  | .i64, .div => 0x7f
  | .f32, .add => 0x92
  | .f32, .sub => 0x93
  | .f32, .mul => 0x94
  | .f32, .div => 0x95
  | .f64, .add => 0xa0
  | .f64, .sub => 0xa1
  | .f64, .mul => 0xa2
  | .f64, .div => 0xa3

def compareCode : NumType → CompareOp → UInt8
  | .i32, .eq => 0x46
  | .i32, .ne => 0x47
  | .i32, .lt => 0x48
  | .i32, .gt => 0x4a
  | .i32, .le => 0x4c
  | .i32, .ge => 0x4e
  | .i64, .eq => 0x51
  | .i64, .ne => 0x52
  | .i64, .lt => 0x53
  | .i64, .gt => 0x55
  | .i64, .le => 0x57
  | .i64, .ge => 0x59
  | .f32, .eq => 0x5b
  | .f32, .ne => 0x5c
  | .f32, .lt => 0x5d
  | .f32, .gt => 0x5e
  | .f32, .le => 0x5f
  | .f32, .ge => 0x60
  | .f64, .eq => 0x61
  | .f64, .ne => 0x62
  | .f64, .lt => 0x63
  | .f64, .gt => 0x64
  | .f64, .le => 0x65
  | .f64, .ge => 0x66

def binaryCode : BinaryOp → UInt8
  | .arith t op => arithCode t op
  | .compare t op => compareCode t op
  | .shiftLeft => 0x74
  | .shiftRight => 0x75

def conversionCode : Conversion → UInt8
  | .i32WrapI64 => 0xa7
  | .i32TruncF32 => 0xa8
  | .i32TruncF64 => 0xaa
  | .i64ExtendI32 => 0xac
  | .i64TruncF32 => 0xae
  | .i64TruncF64 => 0xb0
  | .f32ConvertI32 => 0xb2
  | .f32ConvertI64 => 0xb4
  | .f32DemoteF64 => 0xb6
  | .f64ConvertI32 => 0xb7
  | .f64ConvertI64 => 0xb9
  | .f64PromoteF32 => 0xbb

def indexOf (names : List String) (name : String) : Bytes := unsigned (names.idxOf name)

def globalNames (m : Module) : List String := m.globals.map Global.name

mutual

def instr (m : Module) (labels : List (Option String)) : Instr → Bytes
  | .nop => [0x01]
  | .const v => value v
  | .localGet i => 0x20 :: unsigned i
  | .localSet i x => instr m labels x ++ 0x21 :: unsigned i
  | .localTee i x => instr m labels x ++ 0x22 :: unsigned i
  | .globalGet name => 0x23 :: indexOf (globalNames m) name
  | .globalSet name x => instr m labels x ++ 0x24 :: indexOf (globalNames m) name
  | .convert op x => instr m labels x ++ [conversionCode op]
  | .binary op x y => instr m labels x ++ instr m labels y ++ [binaryCode op]
  | .call callee args => instrs m labels args ++ 0x10 :: indexOf m.functionNames callee
  | .drop x => instr m labels x ++ [0x1a]
  | .block label result body => 0x02 :: blockType result :: instrs m (label :: labels) body ++ [0x0b]
  | .ifThen c x => instr m labels c ++ 0x04 :: blockType none :: instr m (none :: labels) x ++ [0x0b]
  | .ifElse c x y =>
    instr m labels c ++ 0x04 :: blockType (some .i32) :: instr m (none :: labels) x ++
      0x05 :: instr m (none :: labels) y ++ [0x0b]
  | .br label => 0x0c :: unsigned (labels.idxOf (some label))

def instrs (m : Module) (labels : List (Option String)) : List Instr → Bytes
  | [] => []
  | x :: xs => instr m labels x ++ instrs m labels xs

end

def typeList (types : List ResultType) : Bytes := vector ((types.filterMap id).map fun t => [numType t])

def functionType (params : List ResultType) (result : ResultType) : Bytes :=
  0x60 :: typeList params ++ typeList [result]

def functionTypes (m : Module) : List Bytes :=
  (m.imports.map fun f => functionType f.params f.result) ++ m.functions.map fun f => functionType f.params f.result

def hostFunctions (m : Module) : List Bytes :=
  m.imports.zipIdx.map fun (f, i) => nameBytes f.source ++ nameBytes f.base ++ 0x00 :: unsigned i

def global (g : Global) : Bytes := [numType g.init.type, 0x01] ++ value g.init ++ [0x0b]

def exportItem (m : Module) : ExportItem → Bytes
  | .function name => nameBytes name ++ 0x00 :: indexOf m.functionNames name
  | .memory name => nameBytes name ++ [0x02, 0x00]

def function (m : Module) (f : Function) : Bytes :=
  let vars := (f.vars.filterMap id).map fun t => [0x01, numType t]
  sized (vector vars ++ instr m [] f.body ++ [0x0b])

def segment (s : Segment) : Bytes :=
  0x00 :: value (.i32 (BitVec.ofNat 32 s.offset)) ++ 0x0b :: sized s.data

def startSection (m : Module) : Bytes :=
  match m.start with
  | none => []
  | some name => 0x08 :: sized (indexOf m.functionNames name)

end Encoding

open Encoding

def Module.encoding (m : Module) : List UInt8 :=
  let places := (List.range m.functions.length).map fun i => unsigned (m.imports.length + i)
  [0x00, 0x61, 0x73, 0x6d, 0x01, 0x00, 0x00, 0x00] ++
    sectionOf 1 (Encoding.functionTypes m) ++ sectionOf 2 (hostFunctions m) ++ sectionOf 3 places ++
    sectionOf 5 [0x01 :: unsigned m.pages ++ unsigned m.pages] ++ sectionOf 6 (m.globals.map global) ++
    sectionOf 7 (m.exports.map (exportItem m)) ++ startSection m ++
    sectionOf 10 (m.functions.map (function m)) ++ sectionOf 11 (m.segments.map segment)

end Wasm

end Keel
