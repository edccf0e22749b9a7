import Gsc.Image.OpcodeTable
import Gsc.Image.Stack
import Gsc.Machine.Program

/-! # Disassembly

Bytecode is read back instruction by instruction. Strings are looked up in the stack region, and a
jump has to stay within the bytecode.
-/

namespace Gsc

/-- An operand as it was read: a string with its offset, a jump with its distance. -/
inductive DecodedOperand where
  | byte (value : UInt8)
  | short (value : UInt16)
  | int (value : Int32)
  | float (value : Binary32)
  | text (offset : UInt32) (value : String)
  | jump (distance : Int32) (target : Nat)
  deriving DecidableEq, Repr

structure DecodedInstruction where
  offset : Nat
  opcode : Opcode
  operands : List DecodedOperand
  deriving DecidableEq, Repr

structure DecodedFunction where
  name : String
  offset : UInt32
  size : UInt32
  code : List DecodedInstruction
  deriving DecidableEq, Repr

inductive DisassembleError where
  | unknownOpcode (offset : Nat) (byte : UInt8)
  | truncated (offset : Nat) (opcode : Opcode)
  | jumpOutOfRange (offset : Nat) (target : Int)
  | functionOutOfRange (name : String) (offset size : UInt32)
  | stack (error : StackError)
  deriving DecidableEq, Repr

def DisassembleError.message : DisassembleError → String
  | unknownOpcode offset byte =>
    "unknown opcode byte 0x" ++ Text.hex 2 byte.toNat ++ " at offset " ++ toString offset
  | truncated offset opcode =>
    "instruction " ++ opcode.mnemonic ++ " at offset " ++ toString offset ++ " is truncated"
  | jumpOutOfRange offset target =>
    "jump at offset " ++ toString offset ++ " targets " ++ toString target
      ++ ", outside the bytecode"
  | functionOutOfRange name offset size =>
    "function '" ++ name ++ "' (" ++ toString offset.toNat ++ "+" ++ toString size.toNat
      ++ ") lies outside the bytecode"
  | stack error => "invalid stack region: " ++ error.message

namespace Disassembly

structure Setting where
  table : OpcodeTable
  stack : Bytes
  length : Nat

def decodeOperand (s : Setting) (start stop : Nat) (kind : OperandKind) (raw : Bytes) :
    Except DisassembleError DecodedOperand :=
  let value := Bytes.toNat raw
  match kind with
  | .byte => .ok (.byte value.toUInt8)
  | .short => .ok (.short value.toUInt16)
  | .int => .ok (.int value.toUInt32.toInt32)
  | .float => .ok (.float ⟨value.toUInt32⟩)
  | .text =>
    match Stack.readString s.stack value.toUInt32 with
    | .ok text => .ok (.text value.toUInt32 text)
    | .error e => .error (.stack e)
  | .jump =>
    let distance := value.toUInt32.toInt32
    let target : Int := stop + distance.toInt
    if 0 ≤ target ∧ target ≤ s.length then .ok (.jump distance target.toNat)
    else .error (.jumpOutOfRange start target)

def decodeOperands (s : Setting) (start stop : Nat) :
    List OperandKind → Bytes → Except DisassembleError (List DecodedOperand)
  | [], _ => .ok []
  | kind :: kinds, raw => do
    let operand ← decodeOperand s start stop kind (raw.take kind.width)
    let operands ← decodeOperands s start stop kinds (raw.drop kind.width)
    return operand :: operands

def decodeCode (s : Setting) (offset : Nat) (code : Bytes) :
    Except DisassembleError (List DecodedInstruction) :=
  match code with
  | [] => .ok []
  | byte :: rest =>
    match s.table.opcode? byte with
    | none => .error (.unknownOpcode offset byte)
    | some op =>
      match _h : Bytes.split? (OperandKind.totalWidth op.operands) rest with
      | none => .error (.truncated offset op)
      | some (raw, back) => do
        let stop := offset + op.encodedSize
        let operands ← decodeOperands s offset stop op.operands raw
        let code ← decodeCode s stop back
        return ⟨offset, op, operands⟩ :: code
termination_by code.length
decreasing_by
  have h := (Bytes.split?_eq_some_iff.1 ‹_›).1
  rw [h, List.length_cons, List.length_append]
  omega

def decodeFunction (s : Setting) (bytecode : Bytes) (row : StackRow) :
    Except DisassembleError DecodedFunction :=
  match Stack.readString s.stack row.nameOffset with
  | .error e => .error (.stack e)
  | .ok name =>
    if s.length < row.offset.toNat + row.size.toNat then
      .error (.functionOutOfRange name row.offset row.size)
    else
      let code := (bytecode.drop row.offset.toNat).take row.size.toNat
      (decodeCode s row.offset.toNat code).map (⟨name, row.offset, row.size, ·⟩)

def decodeFunctions (s : Setting) (bytecode : Bytes) :
    List StackRow → Except DisassembleError (List DecodedFunction)
  | [] => .ok []
  | row :: rows => do
    let function ← decodeFunction s bytecode row
    let functions ← decodeFunctions s bytecode rows
    return function :: functions

end Disassembly

open Disassembly

/-- All instructions of a bytecode, one behind the other. -/
def disassemble (t : OpcodeTable) (bytecode stack : Bytes) :
    Except DisassembleError (List DecodedInstruction) :=
  decodeCode ⟨t, stack, bytecode.length⟩ 0 bytecode

def disassembleFunctions (t : OpcodeTable) (bytecode stack : Bytes) :
    Except DisassembleError (List DecodedFunction) :=
  match Stack.readRows stack with
  | .error e => .error (.stack e)
  | .ok rows => decodeFunctions ⟨t, stack, bytecode.length⟩ bytecode rows

/-! ## Listings -/

def DecodedOperand.show : DecodedOperand → String
  | byte v => toString v.toNat
  | short v => toString v.toNat
  | int v => toString v.toInt
  | float v => DecimalLayout.listing.render v
  | text _ s => Text.quote s
  | jump _ target => "@" ++ Text.hex 4 target

def DecodedInstruction.show (i : DecodedInstruction) : String :=
  Text.hex 4 i.offset ++ "  " ++ listed i.opcode.mnemonic (i.operands.map DecodedOperand.show)

end Gsc
