import Gsc.Proofs.Lowering.Growth

/-! # The code of a script

`CodeAt` says which instructions of a routine are the code of an expression or a statement: those
from one index up to another. Jumps lead to indices and slots hold names, so that nothing is left of
the drafts that the routine came from.
-/

namespace Gsc

/-! ## Instructions -/

def Routine.JumpAt (r : Routine) (i : Nat) (opcode : Opcode) (target : Nat) : Prop :=
  ∃ l, r.code[i]? = some ⟨opcode, [.label l]⟩ ∧ r.target? l = some target

def Routine.SlotAt (r : Routine) (i : Nat) (opcode : Opcode) (name : String) : Prop :=
  ∃ slot : UInt8, r.code[i]? = some ⟨opcode, [.byte slot]⟩ ∧ r.locals[slot.toNat]? = some name

def Routine.StoreAt (r : Routine) (i : Nat) (name : String) : Prop :=
  r.SlotAt i .evalLocalRef name ∧ r.code[i + 1]? = some ⟨.setVariable, []⟩

/-- The single instruction of an expression that has no parts to evaluate. -/
def Expr.atom? : Expr → Option Instruction
  | .float _ v => some ⟨.getFloat, [.float v]⟩
  | .text _ v => some ⟨.getString, [.text v]⟩
  | .localized _ key => some ⟨.getIString, [.text key]⟩
  | .undefined _ => some ⟨.getUndefined, []⟩
  | .bool _ true => some ⟨.getByte, [.byte 1]⟩
  | .bool _ false => some ⟨.getZero, []⟩
  | .level _ => some ⟨.getLevel, []⟩
  | .self _ => some ⟨.getSelf, []⟩
  | .game _ => some ⟨.getGame, []⟩
  | .anim _ => some ⟨.getAnim, []⟩
  | .emptyArray _ => some ⟨.getEmptyArray, []⟩
  | .functionRef _ none name => some ⟨.getLocalFunction, [.text name]⟩
  | .functionRef _ (some path) name => some ⟨.getFarFunction, [.text path, .text name]⟩
  | .unary _ .neg (.float _ v) => some ⟨.getFloat, [.float v.neg]⟩
  | _ => none

def CallPlan.MarkerAt (plan : CallPlan) (r : Routine) (i j : Nat) : Prop :=
  if plan.marker then r.code[i]? = some ⟨.preScriptCall, []⟩ ∧ j = i + 1 else j = i

/-! ## Expressions -/

mutual

/-- The instructions from `i` up to `j` push the value of an expression. -/
inductive Expr.CodeAt (scope : Scope) (r : Routine) : Expr → Nat → Nat → Prop where
  | int {span : Span} {i : Nat} {value : Int64} {ins : Instruction} :
      ins.constant? = some value.toInt → r.code[i]? = some ins →
      Expr.CodeAt scope r (.int span value) i (i + 1)
  | negInt {span s : Span} {i : Nat} {value : Int64} {ins : Instruction} :
      ins.constant? = some (-value.toInt) → r.code[i]? = some ins →
      Expr.CodeAt scope r (.unary span .neg (.int s value)) i (i + 1)
  | atom {i : Nat} {e : Expr} {ins : Instruction} :
      e.atom? = some ins → r.code[i]? = some ins → Expr.CodeAt scope r e i (i + 1)
  | vector {span : Span} {i j k l : Nat} {x y z : Expr} :
      x.CodeAt scope r i j → y.CodeAt scope r j k → z.CodeAt scope r k l →
      r.code[l]? = some ⟨.getVector, []⟩ → Expr.CodeAt scope r (.vector span x y z) i (l + 1)
  | ident {span : Span} {i : Nat} {name : String} :
      r.SlotAt i .evalLocal name → Expr.CodeAt scope r (.ident span name) i (i + 1)
  | size {span : Span} {i j : Nat} {base : Expr} :
      base.CodeAt scope r i j → r.code[j]? = some ⟨.evalSize, []⟩ →
      Expr.CodeAt scope r (.field span base "size") i (j + 1)
  | field {span : Span} {i j : Nat} {base : Expr} {name : String} :
      base.CodeAt scope r i j → r.code[j]? = some ⟨.evalField, [.text name]⟩ →
      Expr.CodeAt scope r (.field span base name) i (j + 1)
  | index {span : Span} {i j k : Nat} {base e : Expr} :
      e.CodeAt scope r i j → base.CodeAt scope r j k → r.code[k]? = some ⟨.evalArray, []⟩ →
      Expr.CodeAt scope r (.index span base e) i (k + 1)
  | call {span : Span} {i j k m n : Nat} {object : Option Expr} {thread : Bool} {callee : Callee}
      {args : List Expr} {plan : CallPlan} :
      args.length ≤ argumentLimit →
      CallPlan.make scope object.isSome thread args.length.toUInt8 callee = .ok plan →
      plan.MarkerAt r i j → ArgsAt scope r args j k → ObjectAt scope r object k m →
      callee.TargetAt scope r m n → r.code[n]? = some ⟨plan.opcode, plan.operands⟩ →
      Expr.CodeAt scope r (.call span object thread callee args) i (n + 1)
  | neg {span : Span} {i j : Nat} {e : Expr} :
      r.code[i]? = some ⟨.getZero, []⟩ → e.CodeAt scope r (i + 1) j →
      r.code[j]? = some ⟨.minus, []⟩ → Expr.CodeAt scope r (.unary span .neg e) i (j + 1)
  | not {span : Span} {i j : Nat} {e : Expr} :
      e.CodeAt scope r i j → r.code[j]? = some ⟨.boolNot, []⟩ →
      Expr.CodeAt scope r (.unary span .not e) i (j + 1)
  | bitNot {span : Span} {i j : Nat} {e : Expr} :
      e.CodeAt scope r i j → r.code[j]? = some ⟨.boolComplement, []⟩ →
      Expr.CodeAt scope r (.unary span .bitNot e) i (j + 1)
  | and {span : Span} {i j k : Nat} {left right : Expr} :
      left.CodeAt scope r i j → r.JumpAt j .jumpOnFalseExpr k → right.CodeAt scope r (j + 1) k →
      Expr.CodeAt scope r (.binary span left .and right) i k
  | or {span : Span} {i j k : Nat} {left right : Expr} :
      left.CodeAt scope r i j → r.JumpAt j .jumpOnTrueExpr k → right.CodeAt scope r (j + 1) k →
      Expr.CodeAt scope r (.binary span left .or right) i k
  | binary {span : Span} {i j k : Nat} {left right : Expr} {op : BinaryOp} {opcode : Opcode} :
      op.opcode? = some opcode → left.CodeAt scope r i j → right.CodeAt scope r j k →
      r.code[k]? = some ⟨opcode, []⟩ → Expr.CodeAt scope r (.binary span left op right) i (k + 1)
  | ternary {span : Span} {i j k l : Nat} {condition thenExpr elseExpr : Expr} :
      condition.CodeAt scope r i j → r.JumpAt j .jumpOnFalse (k + 1) →
      thenExpr.CodeAt scope r (j + 1) k → r.JumpAt k .jump l →
      elseExpr.CodeAt scope r (k + 1) l →
      Expr.CodeAt scope r (.ternary span condition thenExpr elseExpr) i l

inductive Callee.TargetAt (scope : Scope) (r : Routine) : Callee → Nat → Nat → Prop where
  | named {i : Nat} {name : String} : Callee.TargetAt scope r (.named name) i i
  | far {i : Nat} {path name : String} : Callee.TargetAt scope r (.far path name) i i
  | pointer {i j : Nat} {e : Expr} : e.CodeAt scope r i j → Callee.TargetAt scope r (.pointer e) i j

inductive ObjectAt (scope : Scope) (r : Routine) : Option Expr → Nat → Nat → Prop where
  | none {i : Nat} : ObjectAt scope r none i i
  | some {i j : Nat} {e : Expr} : e.CodeAt scope r i j → ObjectAt scope r (some e) i j

/-- The arguments of a call, of which the last comes first. -/
inductive ArgsAt (scope : Scope) (r : Routine) : List Expr → Nat → Nat → Prop where
  | nil {i : Nat} : ArgsAt scope r [] i i
  | cons {i j k : Nat} {e : Expr} {rest : List Expr} :
      ArgsAt scope r rest i j → e.CodeAt scope r j k → ArgsAt scope r (e :: rest) i k

end

/-- The instructions from `i` up to `j` push a reference to what an expression names. -/
inductive Expr.RefAt (scope : Scope) (r : Routine) : Expr → Nat → Nat → Prop where
  | ident {span : Span} {i : Nat} {name : String} :
      r.SlotAt i .evalLocalRef name → Expr.RefAt scope r (.ident span name) i (i + 1)
  | field {span : Span} {i j : Nat} {base : Expr} {name : String} :
      base.CodeAt scope r i j → r.code[j]? = some ⟨.evalFieldRef, [.text name]⟩ →
      Expr.RefAt scope r (.field span base name) i (j + 1)
  | index {span : Span} {i j k : Nat} {base e : Expr} :
      e.CodeAt scope r i j → base.RefAt scope r j k → r.code[k]? = some ⟨.evalArrayRef, []⟩ →
      Expr.RefAt scope r (.index span base e) i (k + 1)

/-! ## Statements -/

/-- Where `break` and `continue` lead in the innermost loop. -/
structure LoopTargets where
  breakTo : Nat
  continueTo : Nat

/-- The test in front of a loop's body, which may leave the loop. -/
inductive GuardAt (scope : Scope) (r : Routine) (exit : Nat) : Option Expr → Nat → Nat → Prop where
  | none {i : Nat} : GuardAt scope r exit none i i
  | always {e : Expr} {i : Nat} : e.isAlwaysTrue = true → GuardAt scope r exit (some e) i i
  | test {e : Expr} {i j : Nat} :
      e.CodeAt scope r i j → r.JumpAt j .jumpOnFalse exit → GuardAt scope r exit (some e) i (j + 1)

inductive ReceiveAt (r : Routine) : List (Located String) → Nat → Nat → Prop where
  | nil {i : Nat} : ReceiveAt r [] i i
  | cons {v : Located String} {rest : List (Located String)} {i j : Nat} :
      r.SlotAt i .safeSetWaittillVariable v.value → ReceiveAt r rest (i + 1) j →
      ReceiveAt r (v :: rest) i j

/-- A loop over an array keeps the array and its first key. -/
structure FirstAt (r : Routine) (array key : String) (i : Nat) : Prop where
  keepArray : r.StoreAt i array
  pushArray : r.SlotAt (i + 2) .evalLocal array
  call : r.code[i + 3]? = some ⟨.callBuiltin, [.text "getfirstarraykey", .byte 1]⟩
  keepKey : r.StoreAt (i + 4) key

/-- It ends when there is no key, and otherwise pushes the element. -/
structure ElementAt (r : Routine) (array key : String) (exit i : Nat) : Prop where
  testKey : r.SlotAt i .evalLocal key
  call : r.code[i + 1]? = some ⟨.callBuiltin, [.text "isdefined", .byte 1]⟩
  leave : r.JumpAt (i + 2) .jumpOnFalse exit
  pushKey : r.SlotAt (i + 3) .evalLocal key
  pushArray : r.SlotAt (i + 4) .evalLocal array
  element : r.code[i + 5]? = some ⟨.evalArray, []⟩

/-- It goes on with the key that follows. -/
structure AdvanceAt (r : Routine) (array key : String) (i : Nat) : Prop where
  pushKey : r.SlotAt i .evalLocal key
  pushArray : r.SlotAt (i + 1) .evalLocal array
  call : r.code[i + 2]? = some ⟨.callBuiltin, [.text "getnextarraykey", .byte 2]⟩
  keepKey : r.StoreAt (i + 3) key

mutual

/-- The instructions from `i` up to `j` carry a statement out. -/
inductive Stmt.CodeAt (scope : Scope) (r : Routine) :
    Option LoopTargets → Stmt → Nat → Nat → Prop where
  | block {span : Span} {loop : Option LoopTargets} {i j : Nat} {body : List Stmt} :
      BodyAt scope r loop body i j → Stmt.CodeAt scope r loop (.block span body) i j
  | ifThen {span : Span} {loop : Option LoopTargets} {i j k : Nat} {e : Expr} {yes : Stmt} :
      e.CodeAt scope r i j → r.JumpAt j .jumpOnFalse k → yes.CodeAt scope r loop (j + 1) k →
      Stmt.CodeAt scope r loop (.ifElse span e yes none) i k
  | ifElse {span : Span} {loop : Option LoopTargets} {i j k l : Nat} {e : Expr} {yes no : Stmt} :
      e.CodeAt scope r i j → r.JumpAt j .jumpOnFalse (k + 1) →
      yes.CodeAt scope r loop (j + 1) k → r.JumpAt k .jump l → no.CodeAt scope r loop (k + 1) l →
      Stmt.CodeAt scope r loop (.ifElse span e yes (some no)) i l
  | whileLoop {span : Span} {loop : Option LoopTargets} {i j k : Nat} {e : Expr} {body : Stmt} :
      GuardAt scope r (k + 1) (some e) i j → body.CodeAt scope r (some ⟨k + 1, i⟩) j k →
      r.JumpAt k .jump i → Stmt.CodeAt scope r loop (.whileLoop span e body) i (k + 1)
  | forLoop {span : Span} {loop : Option LoopTargets} {i j k l m : Nat} {init step : Option Stmt}
      {e : Option Expr} {body : Stmt} :
      ClauseAt scope r loop init i j → GuardAt scope r (m + 1) e j k →
      body.CodeAt scope r (some ⟨m + 1, l⟩) k l → ClauseAt scope r loop step l m →
      r.JumpAt m .jump j → Stmt.CodeAt scope r loop (.forLoop span init e step body) i (m + 1)
  | foreach {span : Span} {loop : Option LoopTargets} {i j k : Nat} {item : Located String}
      {e : Expr} {body : Stmt} {array key : String} :
      e.CodeAt scope r i j → FirstAt r array key j → ElementAt r array key (k + 6) (j + 6) →
      r.StoreAt (j + 12) item.value → body.CodeAt scope r (some ⟨k + 6, k⟩) (j + 14) k →
      AdvanceAt r array key k → r.JumpAt (k + 5) .jump (j + 6) →
      Stmt.CodeAt scope r loop (.foreach span item e body) i (k + 6)
  | finish {span : Span} {loop : Option LoopTargets} {i : Nat} :
      r.code[i]? = some ⟨.finish, []⟩ → Stmt.CodeAt scope r loop (.ret span none) i (i + 1)
  | giveBack {span : Span} {loop : Option LoopTargets} {i j : Nat} {e : Expr} :
      e.CodeAt scope r i j → r.code[j]? = some ⟨.giveBack, []⟩ →
      Stmt.CodeAt scope r loop (.ret span (some e)) i (j + 1)
  | wait {span : Span} {loop : Option LoopTargets} {i j : Nat} {e : Expr} :
      e.CodeAt scope r i j → r.code[j]? = some ⟨.wait, []⟩ →
      Stmt.CodeAt scope r loop (.wait span e) i (j + 1)
  | waitFrame {span : Span} {loop : Option LoopTargets} {i : Nat} :
      r.code[i]? = some ⟨.waitTillFrameEnd, []⟩ →
      Stmt.CodeAt scope r loop (.waitFrame span) i (i + 1)
  | breakLoop {span : Span} {i : Nat} {targets : LoopTargets} :
      r.JumpAt i .jump targets.breakTo →
      Stmt.CodeAt scope r (some targets) (.breakLoop span) i (i + 1)
  | continueLoop {span : Span} {i : Nat} {targets : LoopTargets} :
      r.JumpAt i .jump targets.continueTo →
      Stmt.CodeAt scope r (some targets) (.continueLoop span) i (i + 1)
  | waitTill {span : Span} {loop : Option LoopTargets} {i j k l : Nat} {object event : Expr}
      {targets : List (Located String)} :
      event.CodeAt scope r i j → object.CodeAt scope r j k → r.code[k]? = some ⟨.waitTill, []⟩ →
      ReceiveAt r targets (k + 1) l → r.code[l]? = some ⟨.clearParams, []⟩ →
      Stmt.CodeAt scope r loop (.waitTill span object event targets) i (l + 1)
  | notify {span : Span} {loop : Option LoopTargets} {i j k l : Nat} {object event : Expr}
      {args : List Expr} :
      r.code[i]? = some ⟨.preScriptCall, []⟩ → ArgsAt scope r args (i + 1) j →
      event.CodeAt scope r j k → object.CodeAt scope r k l → r.code[l]? = some ⟨.notify, []⟩ →
      Stmt.CodeAt scope r loop (.notify span object event args) i (l + 1)
  | endOn {span : Span} {loop : Option LoopTargets} {i j k : Nat} {object event : Expr} :
      event.CodeAt scope r i j → object.CodeAt scope r j k → r.code[k]? = some ⟨.endOn, []⟩ →
      Stmt.CodeAt scope r loop (.endOn span object event) i (k + 1)
  | assign {span : Span} {loop : Option LoopTargets} {i j k : Nat} {target value : Expr} :
      value.CodeAt scope r i j → target.RefAt scope r j k → r.code[k]? = some ⟨.setVariable, []⟩ →
      Stmt.CodeAt scope r loop (.assign span target .assign value) i (k + 1)
  | compound {span : Span} {loop : Option LoopTargets} {i j k l : Nat} {target value : Expr}
      {op : BinaryOp} {opcode : Opcode} :
      op.opcode? = some opcode → target.CodeAt scope r i j → value.CodeAt scope r j k →
      r.code[k]? = some ⟨opcode, []⟩ → target.RefAt scope r (k + 1) l →
      r.code[l]? = some ⟨.setVariable, []⟩ →
      Stmt.CodeAt scope r loop (.assign span target (.compound op) value) i (l + 1)
  | incDec {span : Span} {loop : Option LoopTargets} {i j : Nat} {target : Expr}
      {increment : Bool} :
      target.RefAt scope r i j → r.code[j]? = some ⟨if increment then .inc else .dec, []⟩ →
      Stmt.CodeAt scope r loop (.incDec span target increment) i (j + 1)
  | expr {span : Span} {loop : Option LoopTargets} {i j : Nat} {e : Expr} :
      e.CodeAt scope r i j → r.code[j]? = some ⟨.decTop, []⟩ →
      Stmt.CodeAt scope r loop (.expr span e) i (j + 1)
  | empty {span : Span} {loop : Option LoopTargets} {i : Nat} :
      Stmt.CodeAt scope r loop (.empty span) i i

inductive BodyAt (scope : Scope) (r : Routine) :
    Option LoopTargets → List Stmt → Nat → Nat → Prop where
  | nil {loop : Option LoopTargets} {i : Nat} : BodyAt scope r loop [] i i
  | cons {loop : Option LoopTargets} {i j k : Nat} {stmt : Stmt} {rest : List Stmt} :
      stmt.CodeAt scope r loop i j → BodyAt scope r loop rest j k →
      BodyAt scope r loop (stmt :: rest) i k

/-- A clause of a `for`, which stands outside the loop. -/
inductive ClauseAt (scope : Scope) (r : Routine) :
    Option LoopTargets → Option Stmt → Nat → Nat → Prop where
  | none {loop : Option LoopTargets} {i : Nat} : ClauseAt scope r loop none i i
  | some {loop : Option LoopTargets} {i j : Nat} {stmt : Stmt} :
      stmt.CodeAt scope r loop i j → ClauseAt scope r loop (some stmt) i j

end

/-! ## Functions -/

/-- The code of a function: its number of variables, its body and the end that follows. -/
structure Routine.CodeOf (r : Routine) (scope : Scope) (f : Function) (last : Nat) : Prop where
  entry : ∃ params : UInt8,
    r.code[0]? = some ⟨.createLocalVariables, [.byte params, .byte r.locals.length.toUInt8]⟩
  body : BodyAt scope r none f.body 1 last
  finish : r.code[last]? = some ⟨.finish, []⟩
  length : r.code.length = last + 1
  nodup : r.locals.Nodup
  room : r.locals.length ≤ Slots.limit

end Gsc
