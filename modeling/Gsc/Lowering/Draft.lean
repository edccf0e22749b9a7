import Gsc.Lowering.Defect
import Gsc.Machine.Program

/-! # Drafts of a routine

A draft grows while a function is lowered: instructions, labels, slots and findings are only added,
and a label changes once, when it is bound.
-/

namespace Gsc

/-- Where `break` and `continue` go in a loop. -/
structure LoopLabels where
  breakTo : Nat
  continueTo : Nat
  deriving DecidableEq, Repr

/-- A routine under construction. -/
structure Draft where
  code : Array Instruction
  labels : Array (Option Nat)
  /-- The labels in the order in which they were bound. -/
  bound : Array Nat
  slots : Slots
  /-- The loops around, the innermost first. -/
  loops : List LoopLabels
  /-- How many loops over arrays have been given slots of their own. -/
  arrayLoops : Nat
  findings : Array Finding

namespace Draft

def empty : Draft := ⟨#[], #[], #[], .empty, [], 0, #[]⟩

def emitWith (d : Draft) (opcode : Opcode) (operands : List Operand) : Draft :=
  { d with code := d.code.push ⟨opcode, operands⟩ }

def emit (d : Draft) (opcode : Opcode) : Draft := d.emitWith opcode []

def emitSlot (d : Draft) (opcode : Opcode) (slot : Nat) : Draft :=
  d.emitWith opcode [.byte slot.toUInt8]

def jump (d : Draft) (opcode : Opcode) (label : Nat) : Draft := d.emitWith opcode [.label label]

def callBuiltin (d : Draft) (name : String) (count : UInt8) : Draft :=
  d.emitWith .callBuiltin [.text name, .byte count]

def nextLabel (d : Draft) : Nat := d.labels.size

def addLabel (d : Draft) : Draft := { d with labels := d.labels.push none }

/-- Bind a label to the place of the next instruction. -/
def bind (d : Draft) (label : Nat) : Draft :=
  { d with
    labels := d.labels.setIfInBounds label (some d.code.size)
    bound := d.bound.push label }

def enterLoop (d : Draft) (labels : LoopLabels) : Draft := { d with loops := labels :: d.loops }

def leaveLoop (d : Draft) : Draft := { d with loops := d.loops.tail }

def report (d : Draft) (defect : Defect) (span : Span) : Draft :=
  { d with findings := d.findings.push ⟨defect, span⟩ }

/-- The slot of a name, defined if need be; slot 0 stands in when none is left. -/
def defineSlot (d : Draft) (name : String) (span : Span) : Nat × Draft :=
  match d.slots.define? name with
  | some (slot, slots) => (slot, { d with slots := slots })
  | none => (0, d.report .tooManyLocals span)

/-- Push an integer with the shortest instruction that can. -/
def pushInt (d : Draft) (value : Int64) (span : Span) : Draft :=
  let v := value.toInt
  if v = 0 then d.emit .getZero
  else if 0 < v ∧ v ≤ 255 then d.emitWith .getByte [.byte v.toNat.toUInt8]
  else if -255 ≤ v ∧ v < 0 then d.emitWith .getNegByte [.byte (-v).toNat.toUInt8]
  else if 0 < v ∧ v ≤ 65535 then d.emitWith .getUnsignedShort [.short v.toNat.toUInt16]
  else if -65535 ≤ v ∧ v < 0 then d.emitWith .getNegUnsignedShort [.short (-v).toNat.toUInt16]
  else if -2147483648 ≤ v ∧ v ≤ 2147483647 then d.emitWith .getInteger [.int (Int32.ofInt v)]
  else d.report (.integerTooWide v) span

end Draft

end Gsc
