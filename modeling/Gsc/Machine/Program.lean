import Gsc.Data.Dump
import Gsc.Machine.Opcode

/-! # Programs

A program is a list of routines, each a list of instructions with symbolic jump targets.
-/

namespace Gsc

/-- An operand: a plain value, a string, or the number of a label. -/
inductive Operand where
  | byte (value : UInt8)
  | short (value : UInt16)
  | int (value : Int32)
  | float (value : Binary32)
  | text (value : String)
  | label (number : Nat)
  deriving DecidableEq, Repr

def Operand.kind : Operand → OperandKind
  | byte _ => .byte
  | short _ => .short
  | int _ => .int
  | float _ => .float
  | text _ => .text
  | label _ => .jump

structure Instruction where
  opcode : Opcode
  operands : List Operand
  deriving DecidableEq, Repr

/-- The code of one function. A label is bound to the index of the instruction it precedes. -/
structure Routine where
  name : String
  params : Nat
  locals : List String
  code : List Instruction
  labels : List (Option Nat)
  deriving DecidableEq, Repr

def Routine.target? (r : Routine) (label : Nat) : Option Nat := (r.labels[label]?).join

structure Program where
  name : String
  includes : List String
  animtree : Option String
  routines : List Routine
  deriving DecidableEq, Repr

def Program.routine? (p : Program) (name : String) : Option Routine :=
  p.routines.find? (·.name = name)

/-! ## Listings -/

def Operand.show : Operand → String
  | byte v => toString v.toNat
  | short v => toString v.toNat
  | int v => toString v.toInt
  | float v => DecimalLayout.listing.render v
  | text s => Text.quote s
  | label n => "L" ++ toString n

def listed (mnemonic : String) : List String → String
  | [] => mnemonic
  | operands => mnemonic ++ " " ++ ", ".intercalate operands

def Instruction.show (i : Instruction) : String :=
  listed i.opcode.mnemonic (i.operands.map Operand.show)

/-- The lines of the labels bound to an index, counted from label `number` on. -/
def labelLines (index : Nat) : Nat → List (Option Nat) → String
  | _, [] => ""
  | number, target :: rest =>
    (if target = some index then "  L" ++ toString number ++ ":\n" else "")
      ++ labelLines index (number + 1) rest

/-- The lines of instructions from an index on, each behind its labels, and the labels at the
end. -/
def codeLines (labels : List (Option Nat)) : Nat → List Instruction → String
  | index, [] => labelLines index 0 labels
  | index, i :: rest =>
    labelLines index 0 labels ++ "    " ++ i.show ++ "\n" ++ codeLines labels (index + 1) rest

def Routine.show (r : Routine) : String :=
  r.name ++ "(" ++ toString r.params ++ ") locals=" ++ toString r.locals.length ++ "\n"
    ++ codeLines r.labels 0 r.code

def Program.show (p : Program) : String :=
  "; script " ++ p.name ++ "\n"
    ++ String.join (p.includes.map fun path => "; include " ++ path ++ "\n")
    ++ String.join (p.routines.map fun r => "\n" ++ r.show)

/-! ## Dumps -/

def Operand.dump : Operand → Dump
  | byte v => .variant "U8" [.int v.toNat]
  | short v => .variant "U16" [.int v.toNat]
  | int v => .variant "I32" [.int v.toInt]
  | float v => .variant "F32" [.float v]
  | text s => .variant "Str" [.text s]
  | label n => .variant "Label" [.int n]

def Instruction.dump (i : Instruction) : Dump :=
  .record "Instruction"
    [("opcode", .variant i.opcode.mnemonic []), ("operands", .list (i.operands.map Operand.dump))]

def dumpTarget : Option Nat → Dump
  | none => .absent
  | some index => .present (.int index)

def Routine.dump (r : Routine) : Dump :=
  .record "Routine"
    [("name", .text r.name), ("params", .int r.params), ("locals", .list (r.locals.map .text)),
      ("instructions", .list (r.code.map Instruction.dump)),
      ("labels", .list (r.labels.map dumpTarget))]

def Program.dump (p : Program) : Dump :=
  .record "Program"
    [("name", .text p.name), ("includes", .list (p.includes.map .text)),
      ("animtree", match p.animtree with
        | none => .absent
        | some tree => .present (.text tree)),
      ("functions", .list (p.routines.map Routine.dump))]

end Gsc
