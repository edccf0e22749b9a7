import Gsc.Deflate.Stream
import Gsc.Image.Stack
import Gsc.Text.Basic

/-! # Artifacts

An artifact is what a host takes over: one buffer with the bytecode in front and the compressed
stack region behind it, and a record of where each part lies.
-/

namespace Gsc

/-- A script ready for a host. `length` is the length of its stack region before compression. -/
structure Artifact where
  name : String
  length : Nat
  bytecode : Bytes
  compressed : Bytes
  functions : List FunctionEntry
  deriving DecidableEq, Repr

/-- The description of a buffer. Its numbers are machine words, and may be anything. -/
structure Metadata where
  name : String
  length : UInt64
  bytecodeLength : UInt64
  compressedLength : UInt64
  bytecodeOffset : UInt64
  stackOffset : UInt64
  functions : List FunctionEntry
  deriving DecidableEq, Repr

inductive PackField where
  | stack
  | bytecode
  | compressedStack
  | buffer
  deriving DecidableEq, Repr

def PackField.name : PackField → String
  | stack => "stack"
  | bytecode => "bytecode"
  | compressedStack => "compressed stack"
  | buffer => "buffer"

inductive PackError where
  | tooLarge (field : PackField) (length : Nat)
  | layoutMismatch (expected actual : Nat)
  | decompress (error : DecompressError)
  deriving DecidableEq, Repr

def PackError.message : PackError → String
  | tooLarge field length =>
    field.name ++ " of " ++ toString length ++ " bytes exceeds the 2147483647 byte limit"
  | layoutMismatch expected actual =>
    "buffer is " ++ toString actual ++ " bytes, metadata describes " ++ toString expected
  | decompress error => error.message

namespace Artifact

def fieldLimit : Nat := 2147483647

def checkField (field : PackField) (length : Nat) : Except PackError Unit :=
  if length ≤ fieldLimit then .ok () else .error (.tooLarge field length)

def buffer (a : Artifact) : Bytes := a.bytecode ++ a.compressed

def isEmpty (a : Artifact) : Bool := a.bytecode.isEmpty && a.compressed.isEmpty

def bytecodeOffset (_ : Artifact) : Nat := 0

def stackOffset (a : Artifact) : Nat := a.bytecode.length

/-- The first function with a name, which may be asked for in any case. -/
def function? (a : Artifact) (name : String) : Option FunctionEntry :=
  a.functions.find? (·.name = Text.lower name)

def stack (a : Artifact) : Except (Fault DecompressError) Bytes :=
  decompress a.compressed a.length.toUInt64

def metadata (a : Artifact) : Metadata where
  name := a.name
  length := a.length.toUInt64
  bytecodeLength := a.bytecode.length.toUInt64
  compressedLength := a.compressed.length.toUInt64
  bytecodeOffset := a.bytecodeOffset.toUInt64
  stackOffset := a.stackOffset.toUInt64
  functions := a.functions

/-- Put the parts of an artifact together. The compressed stack is taken as it is. -/
def pack (name : String) (bytecode compressed : Bytes) (length : Nat)
    (functions : List FunctionEntry) : Except PackError Artifact := do
  checkField .stack length
  checkField .bytecode bytecode.length
  checkField .compressedStack compressed.length
  checkField .buffer (bytecode.length + compressed.length)
  return ⟨name, length, bytecode, compressed, functions⟩

/-- What stands in a buffer from an offset on. -/
def sliceFrom (buffer : Bytes) (start : Nat) : Except (Fault PackError) Bytes :=
  if start ≤ buffer.length then .ok (buffer.drop start)
  else
    .error (.panic ("range start index " ++ toString start ++ " out of range for slice of length "
      ++ toString buffer.length))

def ofParts (m : Metadata) (buffer : Bytes) : Except (Fault PackError) Artifact := do
  let expected ← checkedSum UInt64.size m.bytecodeLength.toNat m.compressedLength.toNat
  if buffer.length ≠ expected ∨ m.bytecodeOffset ≠ 0 ∨ m.stackOffset ≠ m.bytecodeLength then
    throw (.error (.layoutMismatch expected buffer.length))
  (checkField .stack m.length.toNat).mapError .error
  (checkField .buffer buffer.length).mapError .error
  let start := m.bytecodeLength.toNat
  let compressed ← sliceFrom buffer start
  let artifact : Artifact := ⟨m.name, m.length.toNat, buffer.take start, compressed, m.functions⟩
  let _ ← artifact.stack.mapError (Fault.map .decompress)
  return artifact

/-- An artifact as a host sees it: one buffer, and lengths in signed words. -/
structure View where
  name : String
  length : Int32
  bytecodeLength : Int32
  compressedLength : Int32
  buffer : Bytes
  deriving DecidableEq, Repr

def view (a : Artifact) : View where
  name := a.name
  length := Int32.ofNat a.length
  bytecodeLength := Int32.ofNat a.bytecode.length
  compressedLength := Int32.ofNat a.compressed.length
  buffer := a.buffer

def View.bytecode (v : View) : Bytes := v.buffer.take v.bytecodeLength.toInt.toNat

def View.compressed (v : View) : Bytes := v.buffer.drop v.bytecodeLength.toInt.toNat

end Artifact

end Gsc
