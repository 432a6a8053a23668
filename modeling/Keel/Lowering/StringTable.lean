import Keel.Wasm.Module

/-! String constants in memory, each once, each with a zero byte behind it. -/

namespace Keel.Lowering

structure StringTable where
  /-- Each string with its address, in the order of addresses. -/
  entries : List (String × Nat)
  finish : Nat
  deriving DecidableEq, Repr

namespace StringTable

def empty : StringTable := ⟨[], 8⟩

def bytes (value : String) : List UInt8 := value.toUTF8.data.toList ++ [0]

def intern (table : StringTable) (value : String) : Nat × StringTable :=
  match table.entries.lookup value with
  | some address => (address, table)
  | none => (table.finish, ⟨table.entries ++ [(value, table.finish)], table.finish + (bytes value).length⟩)

def segments (table : StringTable) : List Wasm.Segment :=
  table.entries.map fun (value, address) => ⟨address, bytes value⟩

def pages (table : StringTable) : Nat :=
  max 1 ((table.finish + (Wasm.pageSize - 1)) / Wasm.pageSize)

end StringTable

end Keel.Lowering
