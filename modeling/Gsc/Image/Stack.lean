import Gsc.Image.StringPool

/-! # Stack regions

The part of an image that tells where its functions lie. It is a count, a row of three words for
each function, and the pool of all strings that the code names.
-/

namespace Gsc

structure FunctionEntry where
  name : String
  offset : UInt32
  size : UInt32
  deriving DecidableEq, Repr

/-- A row of the function table, with the offset of the name in the pool. -/
structure StackRow where
  offset : UInt32
  size : UInt32
  nameOffset : UInt32
  deriving DecidableEq, Repr

namespace Stack

def headerSize (count : Nat) : Nat := 4 + 12 * count

def word (n : UInt32) : Bytes := Bytes.ofNat 4 n.toNat

def row (e : FunctionEntry) (nameOffset : UInt32) : Bytes :=
  word e.offset ++ word e.size ++ word nameOffset

/-- The region of functions whose names lie at the given offsets of a pool. -/
def write (functions : List FunctionEntry) (nameOffsets : List UInt32) (pool : StringPool) :
    Bytes :=
  Bytes.ofNat 4 functions.length ++ (List.zipWith row functions nameOffsets).flatten ++ pool.bytes

end Stack

inductive StackError where
  | truncated (needed available : Nat)
  | badStringOffset (offset : UInt32)
  | unterminated (offset : UInt32)
  | invalidUtf8 (offset : UInt32)
  deriving DecidableEq, Repr

def StackError.message : StackError → String
  | truncated needed available =>
    "stack region truncated: need " ++ toString needed ++ " bytes, have " ++ toString available
  | badStringOffset offset =>
    "string offset " ++ toString offset.toNat ++ " is outside the string pool"
  | unterminated offset =>
    "string at offset " ++ toString offset.toNat ++ " is not NUL-terminated"
  | invalidUtf8 offset => "string at offset " ++ toString offset.toNat ++ " is not valid UTF-8"

namespace Stack

def count (stack : Bytes) : Except StackError Nat :=
  match stack.word? 0 with
  | some n => .ok n
  | none => .error (.truncated 4 stack.length)

def rowAt (bytes : Bytes) : StackRow where
  offset := (Bytes.toNat (bytes.take 4)).toUInt32
  size := (Bytes.toNat ((bytes.drop 4).take 4)).toUInt32
  nameOffset := (Bytes.toNat ((bytes.drop 8).take 4)).toUInt32

def rowsAt : Nat → Bytes → List StackRow
  | 0, _ => []
  | count + 1, bytes => rowAt bytes :: rowsAt count (bytes.drop 12)

def readRows (stack : Bytes) : Except StackError (List StackRow) :=
  match count stack with
  | .error e => .error e
  | .ok n =>
    if stack.length < headerSize n then .error (.truncated (headerSize n) stack.length)
    else .ok (rowsAt n (stack.drop 4))

def readString (stack : Bytes) (offset : UInt32) : Except StackError String :=
  match count stack with
  | .error e => .error e
  | .ok n =>
    if offset.toNat < headerSize n then .error (.badStringOffset offset)
    else
      match stack.drop offset.toNat with
      | [] => .error (.badStringOffset offset)
      | b :: rest =>
        if (b :: rest).contains 0 then
          match Utf8.toString? ((b :: rest).takeWhile (· ≠ 0)) with
          | some s => .ok s
          | none => .error (.invalidUtf8 offset)
        else .error (.unterminated offset)

end Stack

end Gsc
