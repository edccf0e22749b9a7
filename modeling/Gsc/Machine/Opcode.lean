/-! # Opcodes

The instruction set of the script machine: opcodes, their mnemonics and the operands they take.
-/

namespace Gsc

inductive OperandKind where
  | byte
  | short
  | int
  | float
  | text
  | jump
  deriving DecidableEq, Repr

def OperandKind.name : OperandKind → String
  | byte => "U8"
  | short => "U16"
  | int => "I32"
  | float => "F32"
  | text => "Str"
  | jump => "Rel"

def OperandKind.width : OperandKind → Nat
  | byte => 1
  | short => 2
  | int | float | text | jump => 4

def OperandKind.totalWidth : List OperandKind → Nat
  | [] => 0
  | kind :: rest => kind.width + totalWidth rest

inductive Opcode where
  | createLocalVariables
  | finish
  | giveBack
  | getUndefined
  | getZero
  | getByte
  | getNegByte
  | getUnsignedShort
  | getNegUnsignedShort
  | getInteger
  | getFloat
  | getString
  | getIString
  | getVector
  | getLevel
  | getSelf
  | getGame
  | getAnim
  | getEmptyArray
  | getLocalFunction
  | getFarFunction
  | evalLocal
  | evalLocalRef
  | evalField
  | evalFieldRef
  | evalArray
  | evalArrayRef
  | evalSize
  | setVariable
  | inc
  | dec
  | plus
  | minus
  | multiply
  | divide
  | modulus
  | bitOr
  | bitExOr
  | bitAnd
  | shiftLeft
  | shiftRight
  | equality
  | inequality
  | lessThan
  | greaterThan
  | lessEqual
  | greaterEqual
  | boolNot
  | boolComplement
  | jump
  | jumpOnFalse
  | jumpOnTrueExpr
  | jumpOnFalseExpr
  | preScriptCall
  | callBuiltin
  | callBuiltinMethod
  | scriptLocalCall
  | scriptLocalMethodCall
  | scriptLocalThreadCall
  | scriptLocalMethodThreadCall
  | scriptFarCall
  | scriptFarMethodCall
  | scriptFarThreadCall
  | scriptFarMethodThreadCall
  | scriptPointerCall
  | scriptPointerMethodCall
  | scriptPointerThreadCall
  | scriptPointerMethodThreadCall
  | decTop
  | wait
  | waitTillFrameEnd
  | notify
  | endOn
  | waitTill
  | safeSetWaittillVariable
  | clearParams
  deriving DecidableEq, Repr

namespace Opcode

/-- Every opcode, in the order of its number. -/
def all : List Opcode :=
  [.createLocalVariables, .finish, .giveBack, .getUndefined, .getZero, .getByte, .getNegByte,
    .getUnsignedShort, .getNegUnsignedShort, .getInteger, .getFloat, .getString, .getIString,
    .getVector, .getLevel, .getSelf, .getGame, .getAnim, .getEmptyArray, .getLocalFunction,
    .getFarFunction, .evalLocal, .evalLocalRef, .evalField, .evalFieldRef, .evalArray,
    .evalArrayRef, .evalSize, .setVariable, .inc, .dec, .plus, .minus, .multiply, .divide,
    .modulus, .bitOr, .bitExOr, .bitAnd, .shiftLeft, .shiftRight, .equality, .inequality,
    .lessThan, .greaterThan, .lessEqual, .greaterEqual, .boolNot, .boolComplement, .jump,
    .jumpOnFalse, .jumpOnTrueExpr, .jumpOnFalseExpr, .preScriptCall, .callBuiltin,
    .callBuiltinMethod, .scriptLocalCall, .scriptLocalMethodCall, .scriptLocalThreadCall,
    .scriptLocalMethodThreadCall, .scriptFarCall, .scriptFarMethodCall, .scriptFarThreadCall,
    .scriptFarMethodThreadCall, .scriptPointerCall, .scriptPointerMethodCall,
    .scriptPointerThreadCall, .scriptPointerMethodThreadCall, .decTop, .wait,
    .waitTillFrameEnd, .notify, .endOn, .waitTill, .safeSetWaittillVariable, .clearParams]

def mnemonic : Opcode → String
  | createLocalVariables => "CreateLocalVariables"
  | finish => "End"
  | giveBack => "Return"
  | getUndefined => "GetUndefined"
  | getZero => "GetZero"
  | getByte => "GetByte"
  | getNegByte => "GetNegByte"
  | getUnsignedShort => "GetUnsignedShort"
  | getNegUnsignedShort => "GetNegUnsignedShort"
  | getInteger => "GetInteger"
  | getFloat => "GetFloat"
  | getString => "GetString"
  | getIString => "GetIString"
  | getVector => "GetVector"
  | getLevel => "GetLevel"
  | getSelf => "GetSelf"
  | getGame => "GetGame"
  | getAnim => "GetAnim"
  | getEmptyArray => "GetEmptyArray"
  | getLocalFunction => "GetLocalFunction"
  | getFarFunction => "GetFarFunction"
  | evalLocal => "EvalLocal"
  | evalLocalRef => "EvalLocalRef"
  | evalField => "EvalField"
  | evalFieldRef => "EvalFieldRef"
  | evalArray => "EvalArray"
  | evalArrayRef => "EvalArrayRef"
  | evalSize => "EvalSize"
  | setVariable => "SetVariable"
  | inc => "Inc"
  | dec => "Dec"
  | plus => "Plus"
  | minus => "Minus"
  | multiply => "Multiply"
  | divide => "Divide"
  | modulus => "Modulus"
  | bitOr => "BitOr"
  | bitExOr => "BitExOr"
  | bitAnd => "BitAnd"
  | shiftLeft => "ShiftLeft"
  | shiftRight => "ShiftRight"
  | equality => "Equality"
  | inequality => "Inequality"
  | lessThan => "LessThan"
  | greaterThan => "GreaterThan"
  | lessEqual => "LessEqual"
  | greaterEqual => "GreaterEqual"
  | boolNot => "BoolNot"
  | boolComplement => "BoolComplement"
  | jump => "Jump"
  | jumpOnFalse => "JumpOnFalse"
  | jumpOnTrueExpr => "JumpOnTrueExpr"
  | jumpOnFalseExpr => "JumpOnFalseExpr"
  | preScriptCall => "PreScriptCall"
  | callBuiltin => "CallBuiltin"
  | callBuiltinMethod => "CallBuiltinMethod"
  | scriptLocalCall => "ScriptLocalCall"
  | scriptLocalMethodCall => "ScriptLocalMethodCall"
  | scriptLocalThreadCall => "ScriptLocalThreadCall"
  | scriptLocalMethodThreadCall => "ScriptLocalMethodThreadCall"
  | scriptFarCall => "ScriptFarCall"
  | scriptFarMethodCall => "ScriptFarMethodCall"
  | scriptFarThreadCall => "ScriptFarThreadCall"
  | scriptFarMethodThreadCall => "ScriptFarMethodThreadCall"
  | scriptPointerCall => "ScriptPointerCall"
  | scriptPointerMethodCall => "ScriptPointerMethodCall"
  | scriptPointerThreadCall => "ScriptPointerThreadCall"
  | scriptPointerMethodThreadCall => "ScriptPointerMethodThreadCall"
  | decTop => "DecTop"
  | wait => "Wait"
  | waitTillFrameEnd => "WaitTillFrameEnd"
  | notify => "Notify"
  | endOn => "EndOn"
  | waitTill => "WaitTill"
  | safeSetWaittillVariable => "SafeSetWaittillVariable"
  | clearParams => "ClearParams"

def operands : Opcode → List OperandKind
  | createLocalVariables => [.byte, .byte]
  | getByte | getNegByte | evalLocal | evalLocalRef | scriptPointerThreadCall
  | scriptPointerMethodThreadCall | safeSetWaittillVariable => [.byte]
  | getUnsignedShort | getNegUnsignedShort => [.short]
  | getInteger => [.int]
  | getFloat => [.float]
  | getString | getIString | getLocalFunction | evalField | evalFieldRef
  | scriptLocalCall | scriptLocalMethodCall => [.text]
  | getFarFunction | scriptFarCall | scriptFarMethodCall => [.text, .text]
  | jump | jumpOnFalse | jumpOnTrueExpr | jumpOnFalseExpr => [.jump]
  | callBuiltin | callBuiltinMethod
  | scriptLocalThreadCall | scriptLocalMethodThreadCall => [.text, .byte]
  | scriptFarThreadCall | scriptFarMethodThreadCall => [.text, .text, .byte]
  | _ => []

def index (op : Opcode) : Nat := all.idxOf op

def ofMnemonic? (s : String) : Option Opcode := all.find? (·.mnemonic = s)

def encodedSize (op : Opcode) : Nat := 1 + OperandKind.totalWidth op.operands

def isJump (op : Opcode) : Bool := op.operands.contains .jump

theorem mem_all (op : Opcode) : op ∈ all := by
  cases op <;> decide

theorem index_getElem {i : Nat} (h : i < all.length) : all[i].index = i := by
  have number : ∀ i : Fin all.length, (all.get i).index = i := by decide
  exact number ⟨i, h⟩

theorem getElem?_index (op : Opcode) : all[op.index]? = some op := by
  obtain ⟨i, hi, rfl⟩ := List.getElem_of_mem op.mem_all
  rw [index_getElem hi, List.getElem?_eq_getElem hi]

end Opcode

end Gsc
