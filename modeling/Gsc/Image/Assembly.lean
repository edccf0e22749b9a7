import Gsc.Image.OpcodeTable
import Gsc.Image.Stack
import Gsc.Machine.Program

/-! # Assembly

The image of a program: its code as bytes and the stack region that describes it. An instruction
is the byte of its opcode and its operands, a string being the offset of its pooled copy and a
jump the distance from the end of the instruction to the target.
-/

namespace Gsc

structure Image where
  bytecode : Bytes
  stack : Bytes
  functions : List FunctionEntry
  deriving DecidableEq, Repr

inductive Region where
  | bytecode
  | stack
  deriving DecidableEq, Repr

def Region.name : Region → String
  | bytecode => "bytecode"
  | stack => "stack"

inductive AssembleError where
  | nulInString (text : String)
  | unboundLabel (function : String) (label : Nat)
  | operandMismatch (function : String) (opcode : Opcode) (found : List OperandKind)
  | tooLarge (region : Region) (size : Nat)
  deriving DecidableEq, Repr

def OperandKind.showList (kinds : List OperandKind) : String :=
  "[" ++ ", ".intercalate (kinds.map OperandKind.name) ++ "]"

def AssembleError.message : AssembleError → String
  | nulInString text => "string " ++ Text.quote text ++ " contains a NUL byte"
  | unboundLabel function label =>
    "label L" ++ toString label ++ " in function '" ++ function ++ "' is never bound"
  | operandMismatch function opcode found =>
    opcode.mnemonic ++ " in function '" ++ function ++ "' expects operands "
      ++ OperandKind.showList opcode.operands ++ ", found " ++ OperandKind.showList found
  | tooLarge region size =>
    region.name ++ " region is " ++ toString size
      ++ " bytes, which exceeds the 2147483647 byte limit"

def regionLimit : Nat := 2147483647

namespace Assembly

def checkSize (region : Region) (size : Nat) : Except (Fault AssembleError) UInt32 :=
  if size ≤ regionLimit then .ok size.toUInt32 else .error (.error (.tooLarge region size))

def refused (s : String) : StringPool.Refusal → AssembleError
  | .nul => .nulInString s
  | .full size => .tooLarge .stack size

def intern (pool : StringPool) (s : String) :
    Except (Fault AssembleError) (UInt32 × StringPool) :=
  match pool.intern s with
  | (.ok offset, pool) => .ok (offset, pool)
  | (.error fault, _) => .error (fault.map (refused s))

def internAll (pool : StringPool) :
    List String → Except (Fault AssembleError) (List UInt32 × StringPool)
  | [] => .ok ([], pool)
  | s :: rest => do
    let (offset, pool) ← intern pool s
    let (offsets, pool) ← internAll pool rest
    return (offset :: offsets, pool)

def sizeOf : List Instruction → Nat
  | [] => 0
  | i :: rest => i.opcode.encodedSize + sizeOf rest

/-- The offset of the instruction with an index. The index behind the last one counts too. -/
def offset? (code : List Instruction) (index : Nat) : Option Nat :=
  if index ≤ code.length then some (sizeOf (code.take index)) else none

def distance (r : Routine) (stop label : Nat) : Except (Fault AssembleError) Int :=
  match (r.target? label).bind (offset? r.code) with
  | none => .error (.error (.unboundLabel r.name label))
  | some target =>
    let distance : Int := (target : Int) - stop
    if -2147483648 ≤ distance ∧ distance ≤ 2147483647 then .ok distance
    else .error (.error (.tooLarge .bytecode (sizeOf r.code)))

/-- An operand of an instruction that ends at offset `stop`. -/
def encodeOperand (r : Routine) (stop : Nat) (pool : StringPool) :
    Operand → Except (Fault AssembleError) (Bytes × StringPool)
  | .byte v => .ok ([v], pool)
  | .short v => .ok (Bytes.ofNat 2 v.toNat, pool)
  | .int v => .ok (Bytes.ofNat 4 v.toUInt32.toNat, pool)
  | .float v => .ok (Bytes.ofNat 4 v.bits.toNat, pool)
  | .text s => do
    let (offset, pool) ← intern pool s
    return (Stack.word offset, pool)
  | .label label => do
    let distance ← distance r stop label
    return (Bytes.ofNat 4 (Int32.ofInt distance).toUInt32.toNat, pool)

def encodeOperands (r : Routine) (stop : Nat) (pool : StringPool) :
    List Operand → Except (Fault AssembleError) (Bytes × StringPool)
  | [] => .ok ([], pool)
  | operand :: rest => do
    let (front, pool) ← encodeOperand r stop pool operand
    let (back, pool) ← encodeOperands r stop pool rest
    return (front ++ back, pool)

def encodeCode (t : OpcodeTable) (r : Routine) (offset : Nat) (pool : StringPool) :
    List Instruction → Except (Fault AssembleError) (Bytes × StringPool)
  | [] => .ok ([], pool)
  | i :: rest => do
    let stop := offset + i.opcode.encodedSize
    let (front, pool) ← encodeOperands r stop pool i.operands
    let (back, pool) ← encodeCode t r stop pool rest
    return (t.byte i.opcode :: front ++ back, pool)

/-- The first instruction whose operands are not those of its opcode is an error. -/
def checkCode (function : String) : List Instruction → Except (Fault AssembleError) Unit
  | [] => .ok ()
  | i :: rest =>
    let found := i.operands.map Operand.kind
    if i.opcode.operands = found then checkCode function rest
    else .error (.error (.operandMismatch function i.opcode found))

def encodeRoutine (t : OpcodeTable) (pool : StringPool) (r : Routine) :
    Except (Fault AssembleError) (Bytes × StringPool) := do
  checkCode r.name r.code
  encodeCode t r 0 pool r.code

def encodeRoutines (t : OpcodeTable) (offset : Nat) (pool : StringPool) :
    List Routine → Except (Fault AssembleError) (Bytes × List FunctionEntry × StringPool)
  | [] => .ok ([], [], pool)
  | r :: rest => do
    let (front, pool) ← encodeRoutine t pool r
    let start ← checkSize .bytecode offset
    let size ← checkSize .bytecode front.length
    let (back, entries, pool) ← encodeRoutines t (offset + front.length) pool rest
    return (front ++ back, ⟨r.name, start, size⟩ :: entries, pool)

end Assembly

open Assembly in
/-- The image of a program. The names of its functions come first in the pool. -/
def Program.assemble (p : Program) (t : OpcodeTable) : Except (Fault AssembleError) Image := do
  let header ← checkSize .stack (Stack.headerSize p.routines.length)
  let (names, pool) ← internAll (.empty header) (p.routines.map (·.name))
  let (bytecode, functions, pool) ← encodeRoutines t 0 pool p.routines
  let _ ← checkSize .bytecode bytecode.length
  let stack := Stack.write functions names pool
  let _ ← checkSize .stack stack.length
  return ⟨bytecode, stack, functions⟩

end Gsc
