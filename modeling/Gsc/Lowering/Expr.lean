import Gsc.Lowering.Builtins
import Gsc.Lowering.Draft
import Gsc.Script.Basic

/-! # Lowering expressions

An expression becomes instructions that push its value. Operands are pushed from left to right,
subscripts before what they apply to, and arguments from last to first.
-/

namespace Gsc

structure Scope where
  functions : List String

def Scope.declares (scope : Scope) (name : String) : Bool := scope.functions.contains name

/-- The opcode of an operator that evaluates both operands. -/
def BinaryOp.opcode? : BinaryOp → Option Opcode
  | or | and => none
  | bitOr => some .bitOr
  | bitXor => some .bitExOr
  | bitAnd => some .bitAnd
  | eq => some .equality
  | neq => some .inequality
  | lt => some .lessThan
  | gt => some .greaterThan
  | lte => some .lessEqual
  | gte => some .greaterEqual
  | shl => some .shiftLeft
  | shr => some .shiftRight
  | add => some .plus
  | sub => some .minus
  | mul => some .multiply
  | div => some .divide
  | mod => some .modulus

/-- The instruction of a call, and whether a marker goes before its arguments. -/
structure CallPlan where
  marker : Bool
  opcode : Opcode
  operands : List Operand

namespace CallPlan

/-- One of four opcodes, by whether the call starts a thread and whether it is made on an object. -/
def select (thread onObject : Bool) (plain method threaded threadedMethod : Opcode) : Opcode :=
  match thread, onObject with
  | false, false => plain
  | false, true => method
  | true, false => threaded
  | true, true => threadedMethod

/-- A call of a script function; a thread is told how many arguments it gets. -/
def script (thread : Bool) (count : UInt8) (opcode : Opcode) (operands : List Operand) :
    CallPlan :=
  ⟨!thread, opcode, if thread then operands ++ [.byte count] else operands⟩

/-- How to call something with `count` arguments, or why it cannot be called. -/
def make (scope : Scope) (onObject thread : Bool) (count : UInt8) :
    Callee → Except Defect CallPlan
  | .named name =>
    if scope.declares name then
      .ok (script thread count
        (select thread onObject .scriptLocalCall .scriptLocalMethodCall .scriptLocalThreadCall
          .scriptLocalMethodThreadCall) [.text name])
    else if !isBuiltin onObject name then .error (.unknownFunction name)
    else if thread then .error (.builtinThread name)
    else
      .ok ⟨false, if onObject then .callBuiltinMethod else .callBuiltin,
        [.text name, .byte count]⟩
  | .far path name =>
    .ok (script thread count
      (select thread onObject .scriptFarCall .scriptFarMethodCall .scriptFarThreadCall
        .scriptFarMethodThreadCall) [.text path, .text name])
  | .pointer _ =>
    .ok (script thread count
      (select thread onObject .scriptPointerCall .scriptPointerMethodCall .scriptPointerThreadCall
        .scriptPointerMethodThreadCall) [])

def start (plan : CallPlan) (d : Draft) : Draft :=
  if plan.marker then d.emit .preScriptCall else d

def finish (plan : CallPlan) (d : Draft) : Draft := d.emitWith plan.opcode plan.operands

end CallPlan

mutual

def Expr.lower (scope : Scope) : Expr → Draft → Draft
  | .int span value, d => d.pushInt value span
  | .float _ value, d => d.emitWith .getFloat [.float value]
  | .text _ value, d => d.emitWith .getString [.text value]
  | .localized _ key, d => d.emitWith .getIString [.text key]
  | .undefined _, d => d.emit .getUndefined
  | .bool _ true, d => d.emitWith .getByte [.byte 1]
  | .bool _ false, d => d.emit .getZero
  | .level _, d => d.emit .getLevel
  | .self _, d => d.emit .getSelf
  | .game _, d => d.emit .getGame
  | .anim _, d => d.emit .getAnim
  | .emptyArray _, d => d.emit .getEmptyArray
  | .vector _ x y z, d => (z.lower scope (y.lower scope (x.lower scope d))).emit .getVector
  | .ident span name, d =>
    match d.slots.find? name with
    | some slot => d.emitSlot .evalLocal slot
    | none => d.report (.usedBeforeAssigned name) span
  | .functionRef span none name, d =>
    if scope.declares name then d.emitWith .getLocalFunction [.text name]
    else d.report (.unknownReference name) span
  | .functionRef _ (some path) name, d =>
    d.emitWith .getFarFunction [.text path, .text name]
  | .field _ base name, d =>
    if name = "size" then (base.lower scope d).emit .evalSize
    else (base.lower scope d).emitWith .evalField [.text name]
  | .index _ base i, d => (base.lower scope (i.lower scope d)).emit .evalArray
  | .call span object thread callee args, d =>
    if argumentLimit < args.length then d.report .tooManyArguments span
    else
      match CallPlan.make scope object.isSome thread args.length.toUInt8 callee with
      | .error defect => d.report defect span
      | .ok plan =>
        plan.finish
          (callee.lowerTarget scope
            (lowerObject scope object (lowerArgs scope args (plan.start d))))
  | .unary span .neg (.int _ value), d => d.pushInt (-value) span
  | .unary _ .neg (.float _ value), d => d.emitWith .getFloat [.float value.neg]
  | .unary _ .neg operand, d => (operand.lower scope (d.emit .getZero)).emit .minus
  | .unary _ .not operand, d => (operand.lower scope d).emit .boolNot
  | .unary _ .bitNot operand, d => (operand.lower scope d).emit .boolComplement
  | .binary _ left .and right, d =>
    let done := d.nextLabel
    (right.lower scope ((left.lower scope d.addLabel).jump .jumpOnFalseExpr done)).bind done
  | .binary _ left .or right, d =>
    let done := d.nextLabel
    (right.lower scope ((left.lower scope d.addLabel).jump .jumpOnTrueExpr done)).bind done
  | .binary _ left op right, d =>
    let d := right.lower scope (left.lower scope d)
    match op.opcode? with
    | some opcode => d.emit opcode
    | none => d
  | .ternary _ condition thenExpr elseExpr, d =>
    let other := d.nextLabel
    let done := d.addLabel.nextLabel
    let d := (condition.lower scope d.addLabel.addLabel).jump .jumpOnFalse other
    let d := (thenExpr.lower scope d).jump .jump done
    (elseExpr.lower scope (d.bind other)).bind done

def Callee.lowerTarget (scope : Scope) : Callee → Draft → Draft
  | .pointer target, d => target.lower scope d
  | .named _, d => d
  | .far _ _, d => d

def lowerObject (scope : Scope) : Option Expr → Draft → Draft
  | none, d => d
  | some object, d => object.lower scope d

/-- Push arguments, the last one first. -/
def lowerArgs (scope : Scope) : List Expr → Draft → Draft
  | [], d => d
  | arg :: rest, d => arg.lower scope (lowerArgs scope rest d)

end

/-- Push a reference to what an expression names; with `defining`, a new name gets a slot. -/
def Expr.lowerRef (scope : Scope) (defining : Bool) : Expr → Draft → Draft
  | .ident span name, d =>
    if defining then
      let (slot, d) := d.defineSlot name span
      d.emitSlot .evalLocalRef slot
    else
      match d.slots.find? name with
      | some slot => d.emitSlot .evalLocalRef slot
      | none => d.report (.usedBeforeAssigned name) span
  | .field span base name, d =>
    if name = "size" then d.report .sizeAssigned span
    else (base.lower scope d).emitWith .evalFieldRef [.text name]
  | .index _ base i, d => (base.lowerRef scope defining (i.lower scope d)).emit .evalArrayRef
  | target, d => d.report .invalidTarget target.span

end Gsc
