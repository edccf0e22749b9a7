import Gsc.Lowering.Expr

/-! # Lowering statements

Conditions and loops become jumps to labels. A loop over an array keeps the array and the current
key in two slots of its own, whose names no script can spell.
-/

namespace Gsc

/-- A condition that needs no test: a number other than zero, or `true`. -/
def Expr.isAlwaysTrue : Expr → Bool
  | .int _ value => value ≠ 0
  | .bool _ value => value
  | _ => false

namespace Draft

/-- Leave a loop unless its condition holds. -/
def guard (d : Draft) (scope : Scope) (exit : Nat) : Option Expr → Draft
  | none => d
  | some condition =>
    if condition.isAlwaysTrue then d
    else (condition.lower scope d).jump .jumpOnFalse exit

def store (d : Draft) (slot : Nat) : Draft := (d.emitSlot .evalLocalRef slot).emit .setVariable

/-- Give the variables of a `waittill` their values. -/
def receive (d : Draft) : List (Located String) → Draft
  | [] => d
  | v :: rest =>
    let (slot, d) := d.defineSlot v.value v.span
    (d.emitSlot .safeSetWaittillVariable slot).receive rest

end Draft

/-- Assign a value, or the result of an operator on the old and the new value. -/
def AssignOp.lower (scope : Scope) (span : Span) (target value : Expr) :
    AssignOp → Draft → Draft
  | .assign, d => (target.lowerRef scope true (value.lower scope d)).emit .setVariable
  | .compound op, d =>
    let d := value.lower scope (target.lower scope d)
    let d := match op.opcode? with
      | some opcode => d.emit opcode
      | none => d.report (.notAssignable op) span
    (target.lowerRef scope false d).emit .setVariable

/-- The slots of a loop over an array: the array itself and the current key. -/
structure ArraySlots where
  array : Nat
  key : Nat

namespace ArraySlots

def define (d : Draft) (span : Span) : ArraySlots × Draft :=
  let number := toString d.arrayLoops
  let d := { d with arrayLoops := d.arrayLoops + 1 }
  let (array, d) := d.defineSlot ("$array" ++ number) span
  let (key, d) := d.defineSlot ("$key" ++ number) span
  (⟨array, key⟩, d)

/-- Keep the array, which is on the stack, and its first key. -/
def first (slots : ArraySlots) (d : Draft) : Draft :=
  let d := (d.store slots.array).emitSlot .evalLocal slots.array
  (d.callBuiltin "getfirstarraykey" 1).store slots.key

/-- Leave the loop if there is no key; otherwise push the element of the key. -/
def element (slots : ArraySlots) (exit : Nat) (d : Draft) : Draft :=
  let d := (d.emitSlot .evalLocal slots.key).callBuiltin "isdefined" 1
  let d := (d.jump .jumpOnFalse exit).emitSlot .evalLocal slots.key
  (d.emitSlot .evalLocal slots.array).emit .evalArray

def advance (slots : ArraySlots) (d : Draft) : Draft :=
  let d := (d.emitSlot .evalLocal slots.key).emitSlot .evalLocal slots.array
  (d.callBuiltin "getnextarraykey" 2).store slots.key

end ArraySlots

mutual

def Stmt.lower (scope : Scope) : Stmt → Draft → Draft
  | .block _ body, d => lowerBody scope body d
  | .ifElse _ condition thenBranch none, d =>
    let other := d.nextLabel
    let d := (condition.lower scope d.addLabel).jump .jumpOnFalse other
    (thenBranch.lower scope d).bind other
  | .ifElse _ condition thenBranch (some elseBranch), d =>
    let other := d.nextLabel
    let d := (condition.lower scope d.addLabel).jump .jumpOnFalse other
    let d := thenBranch.lower scope d
    let done := d.nextLabel
    let d := (d.addLabel.jump .jump done).bind other
    (elseBranch.lower scope d).bind done
  | .whileLoop _ condition body, d =>
    let start := d.nextLabel
    let exit := d.nextLabel + 1
    let d := (d.addLabel.addLabel.bind start).guard scope exit (some condition)
    let d := (body.lower scope (d.enterLoop ⟨exit, start⟩)).leaveLoop
    (d.jump .jump start).bind exit
  | .forLoop _ init condition step body, d =>
    let d := lowerClause scope init d
    let start := d.nextLabel
    let next := d.nextLabel + 1
    let exit := d.nextLabel + 2
    let d := (d.addLabel.addLabel.addLabel.bind start).guard scope exit condition
    let d := (body.lower scope (d.enterLoop ⟨exit, next⟩)).leaveLoop
    let d := lowerClause scope step (d.bind next)
    (d.jump .jump start).bind exit
  | .foreach _ item collection body, d =>
    let (slots, d) := ArraySlots.define d collection.span
    let d := slots.first (collection.lower scope d)
    let start := d.nextLabel
    let next := d.nextLabel + 1
    let exit := d.nextLabel + 2
    let d := slots.element exit (d.addLabel.addLabel.addLabel.bind start)
    let (slot, d) := d.defineSlot item.value item.span
    let d := (body.lower scope ((d.store slot).enterLoop ⟨exit, next⟩)).leaveLoop
    ((slots.advance (d.bind next)).jump .jump start).bind exit
  | .ret _ none, d => d.emit .finish
  | .ret _ (some value), d => (value.lower scope d).emit .giveBack
  | .wait _ duration, d => (duration.lower scope d).emit .wait
  | .waitFrame _, d => d.emit .waitTillFrameEnd
  | .breakLoop span, d =>
    match d.loops.head? with
    | some labels => d.jump .jump labels.breakTo
    | none => d.report .breakOutsideLoop span
  | .continueLoop span, d =>
    match d.loops.head? with
    | some labels => d.jump .jump labels.continueTo
    | none => d.report .continueOutsideLoop span
  | .waitTill _ object event targets, d =>
    (((object.lower scope (event.lower scope d)).emit .waitTill).receive targets).emit
      .clearParams
  | .notify span object event args, d =>
    let d := if argumentLimit < args.length then d.report .tooManyNotifyArguments span else d
    let d := lowerArgs scope args (d.emit .preScriptCall)
    (object.lower scope (event.lower scope d)).emit .notify
  | .endOn _ object event, d => (object.lower scope (event.lower scope d)).emit .endOn
  | .assign span target op value, d => op.lower scope span target value d
  | .incDec _ target increment, d =>
    (target.lowerRef scope false d).emit (if increment then .inc else .dec)
  | .expr _ (.call span object thread callee args), d =>
    ((Expr.call span object thread callee args).lower scope d).emit .decTop
  | .expr _ value, d => d.report .notACall value.span
  | .empty _, d => d

def lowerBody (scope : Scope) : List Stmt → Draft → Draft
  | [], d => d
  | s :: rest, d => lowerBody scope rest (s.lower scope d)

def lowerClause (scope : Scope) : Option Stmt → Draft → Draft
  | none, d => d
  | some s, d => s.lower scope d

end

end Gsc
