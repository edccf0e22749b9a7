import Gsc.Data.Fault
import Gsc.Peg.Pratt
import Gsc.Script.Grammar
import Gsc.Script.Lexeme

/-! # From parse trees to scripts

Each function reads the trees of some rules. It takes the trees inside one after the other, and what
it does not find, or did not expect, is an error. In an expression the errors of operands go along
until the operator that joins them, which hands on the one to its left.
-/

namespace Gsc

open Gsc.Peg (ParseTree)

inductive ReadError where
  | unexpectedRule (expected found : String) (span : Span)
  | missing (what : String)
  | invalidNumber (text : String) (span : Span)
  deriving DecidableEq, Repr

/-- What may stand behind an operand. -/
inductive Suffix where
  | field (name : String)
  | index (value : Expr)
  | call (thread : Bool) (callee : Callee) (args : List Expr)

def Suffix.apply (suffix : Suffix) (base : Expr) (span : Span) : Expr :=
  let span := base.span.merge span
  match suffix with
  | .field name => .field span base name
  | .index value => .index span base value
  | .call thread callee args => .call span (some base) thread callee args

def UnaryOp.apply (op : UnaryOp) (span : Span) (operand : Expr) : Expr :=
  .unary (span.merge operand.span) op operand

def BinaryOp.apply (op : BinaryOp) (left right : Expr) : Expr :=
  .binary (left.span.merge right.span) left op right

namespace Script

abbrev Reading (α : Type) := Except (Fault ReadError) α

variable {α : Type}

def missing (what : String) : Reading α := .error (.error (.missing what))

def unexpected (expected : String) (t : ParseTree Rule) : Reading α :=
  .error (.error (.unexpectedRule expected t.rule.name t.span))

def next (what : String) : List α → Reading (α × List α)
  | [] => missing what
  | t :: rest => .ok (t, rest)

/-- The trees in a tree. -/
abbrev Inner (t : ParseTree Rule) := { u : ParseTree Rule // u ∈ t.children }

def inner (t : ParseTree Rule) : List (Inner t) := t.children.attach

/-- Words that only hold a statement together. -/
def isKeyword : Rule → Bool
  | .word .threadWord => false
  | .word _ => true
  | _ => false

/-- The trees in a tree without such words. -/
def content (t : ParseTree Rule) : List (Inner t) := (inner t).filter (!isKeyword ·.1.rule)

def name (t : ParseTree Rule) : Located String := ⟨Lexeme.lowercase t.text, t.span⟩

def parseNumber (t : ParseTree Rule) : Reading Expr :=
  match Lexeme.number? t.text t.span with
  | some e => .ok e
  | none => .error (.error (.invalidNumber (String.ofList t.text) t.span))

/-! ## Expressions -/

/-- Operators between two operands, which group to the left. -/
def betweens (ops : List BinaryOp) : List (Rule × Peg.Pratt.Affix) :=
  ops.map fun op => (.binary op, .between .left)

/-- The operators, from those that bind least to those that bind most. -/
def precedence : Peg.Pratt.Table Rule :=
  Peg.Pratt.Table.empty
    |>.op (betweens [.or])
    |>.op (betweens [.and])
    |>.op (betweens [.bitOr])
    |>.op (betweens [.bitXor])
    |>.op (betweens [.bitAnd])
    |>.op (betweens [.eq, .neq])
    |>.op (betweens [.lt, .gt, .lte, .gte])
    |>.op (betweens [.shl, .shr])
    |>.op (betweens [.add, .sub])
    |>.op (betweens [.mul, .div, .mod])
    |>.op [(.unary .neg, .before), (.unary .not, .before), (.unary .bitNot, .before)]
    |>.op [(.member, .behind), (.index, .behind), (.methodCall, .behind)]

/-- An error is a result that an operator may still hand on; a stop is none. -/
def settle : Reading α → Except String (Except ReadError α)
  | .ok a => .ok (.ok a)
  | .error (.error e) => .ok (.error e)
  | .error (.panic message) => .error message

def unsettle : Except String (Except ReadError α) → Reading α
  | .ok (.ok a) => .ok a
  | .ok (.error e) => .error (.error e)
  | .error message => .error (.panic message)

def applyBefore (t : ParseTree Rule) (operand : Expr) : Reading Expr :=
  match t.rule with
  | .unary op => .ok (op.apply t.span operand)
  | _ => unexpected "prefix operator" t

def applyBetween (t : ParseTree Rule) (left right : Expr) : Reading Expr :=
  match t.rule with
  | .binary op => .ok (op.apply left right)
  | _ => unexpected "infix operator" t

/-- Reading the elements of a row, which may be trees inside another one. -/
def callbacks {π : Type} (tree : π → ParseTree Rule) (operand : π → Reading Expr)
    (suffix : π → Reading Suffix) : Peg.Pratt.Callbacks π (Except ReadError Expr) where
  operand p := settle (operand p)
  before p rhs := settle do
    let rhs ← rhs.mapError .error
    applyBefore (tree p) rhs
  behind lhs p := settle do
    let lhs ← lhs.mapError .error
    return (← suffix p).apply lhs (tree p).span
  between lhs p rhs := settle do
    let lhs ← lhs.mapError .error
    let rhs ← rhs.mapError .error
    applyBetween (tree p) lhs rhs
  describe p := (tree p).describe Rule.name

/-- The row of an expression and the branches behind it, if there are any. -/
def splitChoice {π : Type} (tree : π → ParseTree Rule) (row : List π) : List π × Option π :=
  match row.getLast? with
  | some last =>
    if (tree last).rule = .ternarySuffix then (row.dropLast, some last) else (row, none)
  | none => (row, none)

structure CallParts where
  thread : Bool
  callee : Option Callee
  args : List Expr

mutual

def parseExpr (t : ParseTree Rule) : Reading Expr := do
  let (row, choice) := splitChoice (·.1) (inner t)
  let expr ← unsettle (Peg.Pratt.parse precedence (·.1.rule)
    (callbacks (·.1) (fun p => parsePrimary p.1) (fun p => parseSuffix p.1)) row)
  match choice with
  | none => return expr
  | some suffix =>
    let (first, rest) ← next "then expression" (inner suffix.1)
    let thenExpr ← parseExpr first.1
    let (second, _) ← next "else expression" rest
    let elseExpr ← parseExpr second.1
    return .ternary t.span expr thenExpr elseExpr
termination_by 2 * t.height
decreasing_by
  · have := ParseTree.height_lt_of_mem p.2
    omega
  · have := ParseTree.height_lt_of_mem p.2
    omega
  · have := ParseTree.height_lt_of_mem suffix.2
    have := ParseTree.height_lt_of_mem first.2
    omega
  · have := ParseTree.height_lt_of_mem suffix.2
    have := ParseTree.height_lt_of_mem second.2
    omega

def parseSuffix (t : ParseTree Rule) : Reading Suffix :=
  match t.rule with
  | .member => do
    let (field, _) ← next "field name" t.children
    return .field (name field).value
  | .index => do
    let (index, _) ← next "index expression" (inner t)
    return .index (← parseExpr index.1)
  | .methodCall => do
    let (thread, callee, args) ← parseCall t
    return .call thread callee args
  | _ => unexpected "postfix operator" t
termination_by 2 * t.height + 1
decreasing_by
  · have := ParseTree.height_lt_of_mem index.2
    omega
  · omega

def parseCall (t : ParseTree Rule) : Reading (Bool × Callee × List Expr) := do
  let parts ← (inner t).foldlM (fun parts part => parseCallPart parts part.1) ⟨false, none, []⟩
  match parts.callee with
  | some callee => return (parts.thread, callee, parts.args)
  | none => missing "callee"
termination_by 2 * t.height
decreasing_by
  have := ParseTree.height_lt_of_mem part.2
  omega

/-- What has been found with one more part of the call. -/
def parseCallPart (parts : CallParts) (t : ParseTree Rule) : Reading CallParts := do
  match t.rule with
  | .word .threadWord => return { parts with thread := true }
  | .namedCallee => return { parts with callee := some (.named (name t).value) }
  | .farCallee =>
    let (path, rest) ← next "script path" t.children
    let (function, _) ← next "function name" rest
    let callee := .far (Lexeme.normalizePath path.text) (name function).value
    return { parts with callee := some callee }
  | .pointerCallee =>
    let (target, _) ← next "function pointer" (inner t)
    return { parts with callee := some (.pointer (← parseExpr target.1)) }
  | .callArgs =>
    let args ← (inner t).mapM fun arg => parseExpr arg.1
    return { parts with args := parts.args ++ args }
  | _ => unexpected "call" t
termination_by 2 * t.height
decreasing_by
  · have := ParseTree.height_lt_of_mem target.2
    omega
  · have := ParseTree.height_lt_of_mem arg.2
    omega

def parsePrimary (t : ParseTree Rule) : Reading Expr :=
  match t.rule with
  | .funcCall => do
    let (thread, callee, args) ← parseCall t
    return .call t.span none thread callee args
  | .funcRef =>
    match t.children with
    | [function] => return .functionRef t.span none (name function).value
    | [path, function] =>
      return .functionRef t.span (some (Lexeme.normalizePath path.text)) (name function).value
    | _ => missing "function reference name"
  | .parenOrVector => do
    let (x, rest) ← next "expression" (inner t)
    let first ← parseExpr x.1
    match rest with
    | y :: z :: _ => return .vector t.span first (← parseExpr y.1) (← parseExpr z.1)
    | _ => return first.withSpan t.span
  | .emptyArray => return .emptyArray t.span
  | .number => parseNumber t
  | .string => return .text t.span (Lexeme.unquote t.text)
  | .localized => do
    let (literal, _) ← next "localized string" t.children
    return .localized t.span (Lexeme.unquote literal.text)
  | .literal l => return Lexeme.ofLiteral t.span l
  | .ident => return .ident t.span (name t).value
  | _ => unexpected "expression" t
termination_by 2 * t.height + 1
decreasing_by
  · omega
  · have := ParseTree.height_lt_of_mem x.2
    omega
  · have := ParseTree.height_lt_of_mem y.2
    omega
  · have := ParseTree.height_lt_of_mem z.2
    omega

end

/-! ## Statements -/

/-- An assignment, an increment or an expression, as a statement that takes up `span`. -/
def parseSimple (span : Span) (t : ParseTree Rule) : Reading Stmt :=
  match t.rule with
  | .assignExpr => do
    let (target, rest) ← next "assignment target" t.children
    let target ← parseExpr target
    let (sign, rest) ← next "assignment operator" rest
    match AssignOp.ofSymbol? (String.ofList sign.text) with
    | none => unexpected "assignment operator" sign
    | some op =>
      let (value, _) ← next "assigned value" rest
      return .assign span target op (← parseExpr value)
  | .incDecExpr => do
    let (target, rest) ← next "increment target" t.children
    let target ← parseExpr target
    let (sign, _) ← next "increment operator" rest
    return .incDec span target (sign.text = ['+', '+'])
  | .expr => return .expr span (← parseExpr t)
  | _ => unexpected "statement" t

def parseForClause (t : ParseTree Rule) : Reading (Option Stmt) :=
  match t.children with
  | [] => return none
  | simple :: _ => return some (← parseSimple simple.span simple)

def parseOptional {π : Type} (tree : π → ParseTree Rule) : List π → Reading (Option Expr)
  | [] => return none
  | p :: _ => return some (← parseExpr (tree p))

mutual

def parseStmt (t : ParseTree Rule) : Reading Stmt :=
  match t.rule with
  | .block => return .block t.span (← parseBlock t)
  | .ifStmt => do
    let (condition, rest) ← next "if condition" (content t)
    let condition ← parseExpr condition.1
    let (first, rest) ← next "if body" rest
    let thenBranch ← parseStmt first.1
    match rest with
    | [] => return .ifElse t.span condition thenBranch none
    | second :: _ => return .ifElse t.span condition thenBranch (some (← parseStmt second.1))
  | .whileStmt => do
    let (condition, rest) ← next "while condition" (content t)
    let condition ← parseExpr condition.1
    let (body, _) ← next "while body" rest
    return .whileLoop t.span condition (← parseStmt body.1)
  | .forStmt => do
    let (init, rest) ← next "for initializer" (content t)
    let init ← parseForClause init.1
    let (condition, rest) ← next "for condition" rest
    let condition ← parseOptional id condition.1.children
    let (step, rest) ← next "for step" rest
    let step ← parseForClause step.1
    let (body, _) ← next "for body" rest
    return .forLoop t.span init condition step (← parseStmt body.1)
  | .foreachStmt => do
    let (item, rest) ← next "foreach variable" (content t)
    let (collection, rest) ← next "foreach collection" rest
    let collection ← parseExpr collection.1
    let (body, _) ← next "foreach body" rest
    return .foreach t.span (name item.1) collection (← parseStmt body.1)
  | .returnStmt => return .ret t.span (← parseOptional (·.1) (content t))
  | .waitStmt => do
    let (duration, _) ← next "wait duration" (content t)
    return .wait t.span (← parseExpr duration.1)
  | .waitFrameStmt => return .waitFrame t.span
  | .breakStmt => return .breakLoop t.span
  | .continueStmt => return .continueLoop t.span
  | .emptyStmt => return .empty t.span
  | .waitTillStmt => do
    let (object, rest) ← next "waittill object" (content t)
    let object ← parseExpr object.1
    let (event, rest) ← next "waittill event" rest
    let event ← parseExpr event.1
    return .waitTill t.span object event (rest.map (name ·.1))
  | .notifyStmt => do
    let (object, rest) ← next "notify object" (content t)
    let object ← parseExpr object.1
    let (event, rest) ← next "notify event" rest
    let event ← parseExpr event.1
    return .notify t.span object event (← rest.mapM (parseExpr ·.1))
  | .endOnStmt => do
    let (object, rest) ← next "endon object" (content t)
    let object ← parseExpr object.1
    let (event, _) ← next "endon event" rest
    return .endOn t.span object (← parseExpr event.1)
  | .exprStmt => do
    let (simple, _) ← next "statement" t.children
    parseSimple t.span simple
  | _ => unexpected "statement" t
termination_by 2 * t.height + 1
decreasing_by
  · omega
  · have := ParseTree.height_lt_of_mem first.2
    omega
  · have := ParseTree.height_lt_of_mem second.2
    omega
  · have := ParseTree.height_lt_of_mem body.2
    omega
  · have := ParseTree.height_lt_of_mem body.2
    omega
  · have := ParseTree.height_lt_of_mem body.2
    omega

def parseBlock (t : ParseTree Rule) : Reading (List Stmt) := (inner t).mapM fun s => parseStmt s.1
termination_by 2 * t.height
decreasing_by
  have := ParseTree.height_lt_of_mem s.2
  omega

end

/-! ## Files -/

def parseFunction (t : ParseTree Rule) : Reading Function := do
  let (function, rest) ← next "function name" t.children
  let (params, rest) ← next "parameter list" rest
  let (body, _) ← next "function body" rest
  return ⟨(name function).value, function.span, params.children.map name, ← parseBlock body, t.span⟩

/-- Add an item of the file; of several animation trees the last one counts. -/
def addItem (script : Script) (t : ParseTree Rule) : Reading Script :=
  match t.rule with
  | .includeDirective => do
    let (path, _) ← next "include path" t.children
    let path : Located String := ⟨Lexeme.normalizePath path.text, path.span⟩
    return { script with includes := script.includes ++ [path] }
  | .animtreeDirective => do
    let (tree, _) ← next "animtree name" t.children
    return { script with animtree := some ⟨Lexeme.unquote tree.text, tree.span⟩ }
  | .functionDef => return { script with functions := script.functions ++ [← parseFunction t] }
  | .ending => return script
  | _ => unexpected "top-level item" t

def ofTrees (trees : List (ParseTree Rule)) : Reading Script := do
  let (file, _) ← next "file" trees
  file.children.foldlM addItem .empty

end Script

end Gsc
