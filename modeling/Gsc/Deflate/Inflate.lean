import Gsc.Deflate.Huffman

/-! # Inflating

Compressed data is a row of blocks. A block holds bytes as they are, or symbols of two Huffman
codes: bytes, and copies of what was put out before. Reading stops as soon as a limit of bytes is
reached.
-/

namespace Gsc.Deflate

/-- The byte so far back. In front of the first byte there are zeros. -/
def byteBack (distance : Nat) (out : Array UInt8) : UInt8 :=
  if distance ≤ out.size then out.getD (out.size - distance) 0 else 0

/-- Copy so many bytes from so far back. The copy may read what it has just written. -/
def copyBack (distance : Nat) : Nat → Array UInt8 → Array UInt8
  | 0, out => out
  | count + 1, out => copyBack distance count (out.push (byteBack distance out))

/-- The least length of a length symbol from 257 on, and how many bits are added to it. -/
def lengthCodes : List (Nat × Nat) :=
  [(3, 0), (4, 0), (5, 0), (6, 0), (7, 0), (8, 0), (9, 0), (10, 0), (11, 1), (13, 1), (15, 1),
    (17, 1), (19, 2), (23, 2), (27, 2), (31, 2), (35, 3), (43, 3), (51, 3), (59, 3), (67, 4),
    (83, 4), (99, 4), (115, 4), (131, 5), (163, 5), (195, 5), (227, 5), (258, 0)]

/-- The least distance of a distance symbol, and how many bits are added to it. -/
def distanceCodes : List (Nat × Nat) :=
  [(1, 0), (2, 0), (3, 0), (4, 0), (5, 1), (7, 1), (9, 2), (13, 2), (17, 3), (25, 3), (33, 4),
    (49, 4), (65, 5), (97, 5), (129, 6), (193, 6), (257, 7), (385, 7), (513, 8), (769, 8),
    (1025, 9), (1537, 9), (2049, 10), (3073, 10), (4097, 11), (6145, 11), (8193, 12), (12289, 12),
    (16385, 13), (24577, 13)]

def extended? (table : List (Nat × Nat)) (symbol : Nat) (bits : Bits) : Option (Nat × Bits) := do
  let (least, count) ← table[symbol]?
  let (added, bits) ← bits.take? count
  return (least + added, bits)

def readSymbols (literals distances : CodeTree) (limit : Nat) :
    Nat → Array UInt8 → Bits → Option (Array UInt8 × Bits)
  | 0, _, _ => none
  | fuel + 1, out, bits =>
    if limit ≤ out.size then some (out, bits)
    else
      match literals.read? bits with
      | none => none
      | some (symbol, bits) =>
        if symbol < 256 then
          readSymbols literals distances limit fuel (out.push symbol.toUInt8) bits
        else if symbol = 256 then some (out, bits)
        else do
          let (length, bits) ← extended? lengthCodes (symbol - 257) bits
          let (symbol, bits) ← distances.read? bits
          let (distance, bits) ← extended? distanceCodes symbol bits
          readSymbols literals distances limit fuel (copyBack distance length out) bits

/-- Code lengths up to a count, packed by a code of their own. -/
def readLengths (code : CodeTree) (count : Nat) :
    Nat → Array Nat → Bits → Option (List Nat × Bits)
  | 0, _, _ => none
  | fuel + 1, lengths, bits =>
    if count < lengths.size then none
    else if lengths.size = count then some (lengths.toList, bits)
    else do
      let (symbol, bits) ← code.read? bits
      if symbol < 16 then readLengths code count fuel (lengths.push symbol) bits
      else if symbol = 16 then do
        let last ← lengths.back?
        let (added, bits) ← bits.take? 2
        readLengths code count fuel (lengths ++ Array.replicate (3 + added) last) bits
      else do
        let (least, width) := if symbol = 17 then (3, 3) else (11, 7)
        let (added, bits) ← bits.take? width
        readLengths code count fuel (lengths ++ Array.replicate (least + added) 0) bits

/-- The order in which the lengths of the packing code are given. -/
def lengthOrder : List Nat := [16, 17, 18, 0, 8, 7, 9, 6, 10, 5, 11, 4, 12, 3, 13, 2, 14, 1, 15]

def readNumbers (width : Nat) : Nat → Bits → Option (List Nat × Bits)
  | 0, bits => some ([], bits)
  | count + 1, bits => do
    let (n, bits) ← bits.take? width
    let (rest, bits) ← readNumbers width count bits
    return (n :: rest, bits)

def readCodes (bits : Bits) : Option ((CodeTree × CodeTree) × Bits) := do
  let (literals, bits) ← bits.take? 5
  let (distances, bits) ← bits.take? 5
  let (packed, bits) ← bits.take? 4
  if 286 < literals + 257 ∨ 30 < distances + 1 then none
  let (given, bits) ← readNumbers 3 (packed + 4) bits
  let pairs := lengthOrder.zip given
  let code ← CodeTree.ofLengths? ((List.range 19).map fun s => (pairs.lookup s).getD 0)
  let count := literals + 257 + (distances + 1)
  let (lengths, bits) ← readLengths code count (count + 1) #[] bits
  let first ← CodeTree.ofLengths? (lengths.take (literals + 257))
  let second ← CodeTree.ofLengths? (lengths.drop (literals + 257))
  return ((first, second), bits)

/-- The codes that need not be given. -/
def fixedCodes : Option (CodeTree × CodeTree) := do
  let literals ← CodeTree.ofLengths? (List.replicate 144 8 ++ List.replicate 112 9
    ++ List.replicate 24 7 ++ List.replicate 8 8)
  let distances ← CodeTree.ofLengths? (List.replicate 32 5)
  return (literals, distances)

/-- A block of bytes as they are. It starts at a whole byte. -/
def readStored (limit : Nat) (out : Array UInt8) (bits : Bits) : Option (Array UInt8 × Bits) := do
  let (head, bytes) ← Bytes.split? 4 bits.bytes
  let length := Bytes.toNat (head.take 2)
  if Bytes.toNat (head.drop 2) ≠ 65535 - length then none
  match Bytes.split? length bytes with
  | some (stored, rest) => return (out ++ stored, .ofBytes rest)
  | none => if limit ≤ out.size + bytes.length then return (out ++ bytes, .ofBytes []) else none

/-- A block, behind the bit that tells whether it is the last one. -/
def readBlock (limit : Nat) (out : Array UInt8) (bits : Bits) :
    Option (Array UInt8 × Bits) := do
  let (kind, bits) ← bits.take? 2
  match kind with
  | 0 => readStored limit out bits
  | 1 => do
    let (literals, distances) ← fixedCodes
    readSymbols literals distances limit (bits.size + 1) out bits
  | 2 => do
    let ((literals, distances), bits) ← readCodes bits
    readSymbols literals distances limit (bits.size + 1) out bits
  | _ => none

def readBlocks (limit : Nat) : Nat → Array UInt8 → Bits → Option (Array UInt8 × Bits)
  | 0, _, _ => none
  | fuel + 1, out, bits =>
    match bits.next? with
    | none => none
    | some (last, bits) =>
      match readBlock limit out bits with
      | none => none
      | some (out, bits) =>
        if last ∨ limit ≤ out.size then some (out, bits) else readBlocks limit fuel out bits

/-- What compressed data stands for, or at least its first `limit` bytes, and what is left behind
it. -/
def inflate (limit : Nat) (bytes : Bytes) : Option (Array UInt8 × Bits) :=
  let bits := Bits.ofBytes bytes
  readBlocks limit (bits.size + 1) #[] bits

end Gsc.Deflate
