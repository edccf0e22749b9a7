import Gsc.Data.Dump
import Gsc.Script.Basic

/-! # Dumps of scripts -/

namespace Gsc

open Dump (record variant variantRecord)

def Span.dump (s : Span) : Dump :=
  record "Span" [("start", .int s.start), ("end", .int s.stop)]

/-- An outline with the range it was read from. -/
def Span.attach (s : Span) (node : Dump) : Dump :=
  record "Spanned" [("node", node), ("span", s.dump)]

def dumpName (name : Located String) : Dump := name.span.attach (.text name.value)

def dumpOption : Option Dump → Dump
  | none => .absent
  | some d => .present d

def UnaryOp.dump : UnaryOp → Dump
  | neg => variant "Neg" []
  | not => variant "Not" []
  | bitNot => variant "BitNot" []

def BinaryOp.dump : BinaryOp → Dump
  | or => variant "Or" []
  | and => variant "And" []
  | bitOr => variant "BitOr" []
  | bitXor => variant "BitXor" []
  | bitAnd => variant "BitAnd" []
  | eq => variant "Eq" []
  | neq => variant "Neq" []
  | lt => variant "Lt" []
  | gt => variant "Gt" []
  | lte => variant "Lte" []
  | gte => variant "Gte" []
  | shl => variant "Shl" []
  | shr => variant "Shr" []
  | add => variant "Add" []
  | sub => variant "Sub" []
  | mul => variant "Mul" []
  | div => variant "Div" []
  | mod => variant "Mod" []

def AssignOp.dump : AssignOp → Dump
  | assign => variant "Assign" []
  | compound op => variant "Compound" [op.dump]

mutual

def Expr.dump : Expr → Dump
  | .int s v => s.attach (variant "Int" [.int v.toInt])
  | .float s v => s.attach (variant "Float" [.float v])
  | .text s v => s.attach (variant "String" [.text v])
  | .localized s k => s.attach (variant "IString" [.text k])
  | .undefined s => s.attach (variant "Undefined" [])
  | .bool s b => s.attach (variant "Bool" [.bool b])
  | .level s => s.attach (variant "Level" [])
  | .self s => s.attach (variant "SelfRef" [])
  | .game s => s.attach (variant "Game" [])
  | .anim s => s.attach (variant "Anim" [])
  | .emptyArray s => s.attach (variant "EmptyArray" [])
  | .vector s x y z => s.attach (variant "Vector" [.list [x.dump, y.dump, z.dump]])
  | .ident s n => s.attach (variant "Ident" [.text n])
  | .functionRef s path n =>
    s.attach (variantRecord "FunctionRef"
      [("path", dumpOption (path.map .text)), ("name", .text n)])
  | .field s base n => s.attach (variant "Field" [base.dump, .text n])
  | .index s base i => s.attach (variant "Index" [base.dump, i.dump])
  | .call s object thread callee args =>
    s.attach (variant "Call"
      [record "Call"
        [("object", dumpObject object), ("thread", .bool thread), ("callee", callee.dump),
          ("args", .list (dumpExprs args))]])
  | .unary s op e => s.attach (variant "Unary" [op.dump, e.dump])
  | .binary s l op r => s.attach (variant "Binary" [l.dump, op.dump, r.dump])
  | .ternary s c t e =>
    s.attach (variantRecord "Ternary"
      [("condition", c.dump), ("then_expr", t.dump), ("else_expr", e.dump)])

def Callee.dump : Callee → Dump
  | .named n => variant "Local" [.text n]
  | .far p n => variantRecord "Far" [("path", .text p), ("name", .text n)]
  | .pointer e => variant "Pointer" [e.dump]

def dumpObject : Option Expr → Dump
  | none => .absent
  | some e => .present e.dump

def dumpExprs : List Expr → List Dump
  | [] => []
  | e :: rest => e.dump :: dumpExprs rest

end

def dumpExpr? (e : Option Expr) : Dump := dumpOption (e.map Expr.dump)

mutual

def Stmt.dump : Stmt → Dump
  | .block s body => s.attach (variant "Block" [.list (dumpStmts body)])
  | .ifElse s c t e =>
    s.attach (variantRecord "If"
      [("condition", c.dump), ("then_branch", t.dump), ("else_branch", dumpStmt? e)])
  | .whileLoop s c b =>
    s.attach (variantRecord "While" [("condition", c.dump), ("body", b.dump)])
  | .forLoop s i c t b =>
    s.attach (variantRecord "For"
      [("init", dumpStmt? i), ("condition", dumpExpr? c), ("step", dumpStmt? t), ("body", b.dump)])
  | .foreach s v c b =>
    s.attach (variantRecord "Foreach"
      [("variable", dumpName v), ("collection", c.dump), ("body", b.dump)])
  | .ret s v => s.attach (variant "Return" [dumpExpr? v])
  | .wait s d => s.attach (variant "Wait" [d.dump])
  | .waitFrame s => s.attach (variant "WaitTillFrameEnd" [])
  | .breakLoop s => s.attach (variant "Break" [])
  | .continueLoop s => s.attach (variant "Continue" [])
  | .waitTill s o e vs =>
    s.attach (variantRecord "WaitTill"
      [("object", o.dump), ("event", e.dump), ("variables", .list (vs.map dumpName))])
  | .notify s o e args =>
    s.attach (variantRecord "Notify"
      [("object", o.dump), ("event", e.dump), ("args", .list (dumpExprs args))])
  | .endOn s o e => s.attach (variantRecord "EndOn" [("object", o.dump), ("event", e.dump)])
  | .assign s t op v =>
    s.attach (variantRecord "Assign" [("target", t.dump), ("op", op.dump), ("value", v.dump)])
  | .incDec s t i =>
    s.attach (variantRecord "IncDec" [("target", t.dump), ("increment", .bool i)])
  | .expr s e => s.attach (variant "Expr" [e.dump])
  | .empty s => s.attach (variant "Empty" [])

def dumpStmt? : Option Stmt → Dump
  | none => .absent
  | some s => .present s.dump

def dumpStmts : List Stmt → List Dump
  | [] => []
  | s :: rest => s.dump :: dumpStmts rest

end

def Function.dump (f : Function) : Dump :=
  record "FunctionDecl"
    [("name", .text f.name), ("name_span", f.nameSpan.dump),
      ("params", .list (f.params.map dumpName)), ("body", .list (dumpStmts f.body)),
      ("span", f.span.dump)]

def Script.dump (s : Script) : Dump :=
  record "File"
    [("includes", .list (s.includes.map dumpName)),
      ("animtree", dumpOption (s.animtree.map dumpName)),
      ("functions", .list (s.functions.map Function.dump))]

end Gsc
