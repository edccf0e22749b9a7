/-! # Operators of the script language -/

namespace Gsc

inductive UnaryOp where
  | neg
  | not
  | bitNot
  deriving DecidableEq, Repr

inductive BinaryOp where
  | or
  | and
  | bitOr
  | bitXor
  | bitAnd
  | eq
  | neq
  | lt
  | gt
  | lte
  | gte
  | shl
  | shr
  | add
  | sub
  | mul
  | div
  | mod
  deriving DecidableEq, Repr

def UnaryOp.symbol : UnaryOp → String
  | neg => "-"
  | not => "!"
  | bitNot => "~"

def BinaryOp.symbol : BinaryOp → String
  | or => "||"
  | and => "&&"
  | bitOr => "|"
  | bitXor => "^"
  | bitAnd => "&"
  | eq => "=="
  | neq => "!="
  | lt => "<"
  | gt => ">"
  | lte => "<="
  | gte => ">="
  | shl => "<<"
  | shr => ">>"
  | add => "+"
  | sub => "-"
  | mul => "*"
  | div => "/"
  | mod => "%"

/-- Plain assignment, or assignment of the result of an operator. -/
inductive AssignOp where
  | assign
  | compound (op : BinaryOp)
  deriving DecidableEq, Repr

def AssignOp.ofSymbol? : String → Option AssignOp
  | "=" => some .assign
  | "+=" => some (.compound .add)
  | "-=" => some (.compound .sub)
  | "*=" => some (.compound .mul)
  | "/=" => some (.compound .div)
  | "%=" => some (.compound .mod)
  | "|=" => some (.compound .bitOr)
  | "&=" => some (.compound .bitAnd)
  | "^=" => some (.compound .bitXor)
  | "<<=" => some (.compound .shl)
  | ">>=" => some (.compound .shr)
  | _ => none

end Gsc
