import Gsc.Data.Fault
import Gsc.Deflate.Inflate

/-! # Compressed streams

A stream is a header of two bytes, compressed data, and a checksum of what the data stands for.
Writing keeps the data as it is, in blocks.
-/

namespace Gsc

namespace Deflate

/-- Add a byte to a checksum. Its halves are the sum of the bytes and the sum of those sums. -/
def Checksum.step (sums : Nat × Nat) (b : UInt8) : Nat × Nat :=
  let low := (sums.1 + b.toNat) % 65521
  (low, (sums.2 + low) % 65521)

def checksum (bytes : Bytes) : Nat :=
  let (low, high) := bytes.foldl Checksum.step (1, 0)
  65536 * high + low

def trailer (bytes : Bytes) : Bytes := (Bytes.ofNat 4 (checksum bytes)).reverse

def blockLimit : Nat := 65535

def storedBlock (last : Bool) (bytes : Bytes) : Bytes :=
  (if last then 1 else 0)
    :: (Bytes.ofNat 2 bytes.length ++ Bytes.ofNat 2 (65535 - bytes.length) ++ bytes)

def store (bytes : Bytes) : Bytes :=
  if bytes.length ≤ blockLimit then storedBlock true bytes
  else storedBlock false (bytes.take blockLimit) ++ store (bytes.drop blockLimit)
termination_by bytes.length
decreasing_by
  simp only [List.length_drop, blockLimit] at *
  omega

/-- A stream that keeps bytes as they are. -/
def storedStream (bytes : Bytes) : Bytes := [0x78, 0xda] ++ store bytes ++ trailer bytes

/-- Whether two bytes start a stream: data is compressed by the one method there is, over a window
of at most 32768 bytes and with no text given beforehand, and the check bits fit. -/
def isHeader (method flags : Nat) : Bool :=
  method % 16 = 8 ∧ method / 16 ≤ 7 ∧ (256 * method + flags) % 31 = 0 ∧ flags / 32 % 2 = 0

/-- What a stream stands for, or at least its first `limit` bytes. What stands behind the checksum
does not count. -/
def read? (limit : Nat) (stream : Bytes) : Option Bytes :=
  match stream with
  | method :: flags :: body =>
    if isHeader method.toNat flags.toNat then
      match inflate limit body with
      | none => none
      | some (out, bits) =>
        let out := out.toList
        if limit ≤ out.length then some out
        else if bits.bytes.take 4 = trailer out then some out
        else none
    else none
  | _ => none

end Deflate

/-- The compressed form of bytes, with an encoder of streams. Nothing is compressed to nothing. -/
def compressWith (encode : Bytes → Bytes) (bytes : Bytes) : Bytes :=
  if bytes.isEmpty then [] else encode bytes

/-- A stack region in compressed form, with the length it has otherwise. -/
structure CompressedStack where
  bytes : Bytes
  length : Nat
  deriving DecidableEq, Repr

def CompressedStack.ofStack (encode : Bytes → Bytes) (stack : Bytes) : CompressedStack :=
  ⟨compressWith encode stack, stack.length⟩

/-- Why a stream does not give the bytes that are expected. -/
inductive DecompressError where
  | corrupt
  | lengthMismatch (expected actual : Nat)
  deriving DecidableEq, Repr

def DecompressError.message : DecompressError → String
  | corrupt => "corrupt zlib stream: corrupt deflate stream"
  | lengthMismatch expected actual =>
    "stack inflated to " ++ toString actual ++ " bytes, expected " ++ toString expected

/-- No buffer can be reserved for more bytes. -/
def capacityLimit : Nat := 9223372036854775807

/-- The bytes of a stream, which has to stand for `length` of them. Room for all of them is reserved
first. -/
def decompress (stream : Bytes) (length : UInt64) : Except (Fault DecompressError) Bytes :=
  if stream.isEmpty ∧ length = 0 then .ok []
  else if capacityLimit < length.toNat then .error (.panic "capacity overflow")
  else do
    let limit ← checkedSum UInt64.size length.toNat 1
    match Deflate.read? limit stream with
    | none => .error (.error .corrupt)
    | some bytes =>
      if bytes.length = length.toNat then .ok bytes
      else .error (.error (.lengthMismatch length.toNat (min bytes.length limit)))

end Gsc
