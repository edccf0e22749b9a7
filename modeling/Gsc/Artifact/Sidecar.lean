import Gsc.Artifact.Basic
import Gsc.Data.JsonReader

/-! # Metadata as JSON

The description of a buffer is kept in a file beside it.
-/

namespace Gsc

def FunctionEntry.toJson (e : FunctionEntry) : Json :=
  .object [("name", .text e.name), ("offset", .int e.offset.toNat), ("size", .int e.size.toNat)]

def FunctionEntry.ofJson? (j : Json) : Option FunctionEntry :=
  match j.asRecord? ["name", "offset", "size"] with
  | some [some name, some offset, some size] => do
    let name ← name.asText?
    let offset ← offset.asNat? UInt32.size
    let size ← size.asNat? UInt32.size
    return ⟨name, offset.toUInt32, size.toUInt32⟩
  | _ => none

namespace Metadata

def toJson (m : Metadata) : Json :=
  .object
    [("name", .text m.name), ("len", .int m.length.toNat),
      ("bytecode_len", .int m.bytecodeLength.toNat),
      ("compressed_len", .int m.compressedLength.toNat),
      ("bytecode_offset", .int m.bytecodeOffset.toNat), ("stack_offset", .int m.stackOffset.toNat),
      ("functions", .list (m.functions.map FunctionEntry.toJson))]

/-- The functions of a description, which may be left out. -/
def functionsOf? : Option Json → Option (List FunctionEntry)
  | none => some []
  | some (.list items) => items.mapM FunctionEntry.ofJson?
  | some _ => none

def ofJson? (j : Json) : Option Metadata :=
  let keys := ["name", "len", "bytecode_len", "compressed_len", "bytecode_offset", "stack_offset",
    "functions"]
  match j.asRecord? keys with
  | some [some name, some length, some bytecode, some compressed, some bytecodeAt, some stackAt,
      functions] => do
    let word (v : Json) : Option UInt64 := (v.asNat? UInt64.size).map Nat.toUInt64
    return ⟨← name.asText?, ← word length, ← word bytecode, ← word compressed, ← word bytecodeAt,
      ← word stackAt, ← functionsOf? functions⟩
  | _ => none

end Metadata

end Gsc
