import Gsc.Data.Bytes

/-! # Bits of a byte string

The bits of a byte come lowest first. A number is written lowest bit first too.
-/

namespace Gsc.Deflate

/-- What is left to read: the rest of a byte and the bytes behind it. -/
structure Bits where
  pending : List Bool
  bytes : Bytes
  deriving DecidableEq, Repr

namespace Bits

def ofBytes (bytes : Bytes) : Bits := ⟨[], bytes⟩

def ofByte (b : UInt8) : List Bool := (List.range 8).map b.toNat.testBit

def size (bits : Bits) : Nat := bits.pending.length + 8 * bits.bytes.length

def next? : Bits → Option (Bool × Bits)
  | ⟨b :: pending, bytes⟩ => some (b, ⟨pending, bytes⟩)
  | ⟨[], b :: bytes⟩ => some (b.toNat.testBit 0, ⟨(ofByte b).tail, bytes⟩)
  | ⟨[], []⟩ => none

def take? : Nat → Bits → Option (Nat × Bits)
  | 0, bits => some (0, bits)
  | count + 1, bits =>
    match next? bits with
    | none => none
    | some (b, bits) =>
      match take? count bits with
      | none => none
      | some (n, bits) => some (b.toNat + 2 * n, bits)

end Bits

end Gsc.Deflate
