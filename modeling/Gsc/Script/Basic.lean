import Gsc.Number.Binary32
import Gsc.Script.Operator
import Gsc.Source.Basic

/-! # Scripts

The abstract form of a script: expressions, statements, functions. Every expression and statement
carries the range of the source it was read from. Names are stored in lowercase.
-/

namespace Gsc

mutual

inductive Expr where
  | int (span : Span) (value : Int64)
  | float (span : Span) (value : Binary32)
  | text (span : Span) (value : String)
  | localized (span : Span) (key : String)
  | undefined (span : Span)
  | bool (span : Span) (value : Bool)
  | level (span : Span)
  | self (span : Span)
  | game (span : Span)
  | anim (span : Span)
  | emptyArray (span : Span)
  | vector (span : Span) (x y z : Expr)
  | ident (span : Span) (name : String)
  | functionRef (span : Span) (path : Option String) (name : String)
  | field (span : Span) (base : Expr) (name : String)
  | index (span : Span) (base index : Expr)
  | call (span : Span) (object : Option Expr) (thread : Bool) (callee : Callee) (args : List Expr)
  | unary (span : Span) (op : UnaryOp) (operand : Expr)
  | binary (span : Span) (left : Expr) (op : BinaryOp) (right : Expr)
  | ternary (span : Span) (condition thenExpr elseExpr : Expr)

/-- What a call calls: a name of this script or of the engine, a function of another script, or a
function value. -/
inductive Callee where
  | named (name : String)
  | far (path name : String)
  | pointer (target : Expr)

end

namespace Expr

def span : Expr → Span
  | int s _ | float s _ | text s _ | localized s _ | undefined s | bool s _ | level s | self s
  | game s | anim s | emptyArray s | vector s _ _ _ | ident s _ | functionRef s _ _ | field s _ _
  | index s _ _ | call s _ _ _ _ | unary s _ _ | binary s _ _ _ | ternary s _ _ _ => s

/-- The same expression read from another range. -/
def withSpan (s : Span) : Expr → Expr
  | int _ v => int s v
  | float _ v => float s v
  | text _ v => text s v
  | localized _ k => localized s k
  | undefined _ => undefined s
  | bool _ b => bool s b
  | level _ => level s
  | self _ => self s
  | game _ => game s
  | anim _ => anim s
  | emptyArray _ => emptyArray s
  | vector _ x y z => vector s x y z
  | ident _ n => ident s n
  | functionRef _ p n => functionRef s p n
  | field _ b n => field s b n
  | index _ b i => index s b i
  | call _ o t c a => call s o t c a
  | unary _ op e => unary s op e
  | binary _ l op r => binary s l op r
  | ternary _ c t e => ternary s c t e

end Expr

inductive Stmt where
  | block (span : Span) (body : List Stmt)
  | ifElse (span : Span) (condition : Expr) (thenBranch : Stmt) (elseBranch : Option Stmt)
  | whileLoop (span : Span) (condition : Expr) (body : Stmt)
  | forLoop (span : Span) (init : Option Stmt) (condition : Option Expr) (step : Option Stmt)
      (body : Stmt)
  | foreach (span : Span) (item : Located String) (collection : Expr) (body : Stmt)
  | ret (span : Span) (value : Option Expr)
  | wait (span : Span) (duration : Expr)
  | waitFrame (span : Span)
  | breakLoop (span : Span)
  | continueLoop (span : Span)
  | waitTill (span : Span) (object event : Expr) (targets : List (Located String))
  | notify (span : Span) (object event : Expr) (args : List Expr)
  | endOn (span : Span) (object event : Expr)
  | assign (span : Span) (target : Expr) (op : AssignOp) (value : Expr)
  | incDec (span : Span) (target : Expr) (increment : Bool)
  | expr (span : Span) (value : Expr)
  | empty (span : Span)

namespace Stmt

def span : Stmt → Span
  | block s _ | ifElse s _ _ _ | whileLoop s _ _ | forLoop s _ _ _ _ | foreach s _ _ _ | ret s _
  | wait s _ | waitFrame s | breakLoop s | continueLoop s | waitTill s _ _ _ | notify s _ _ _
  | endOn s _ _ | assign s _ _ _ | incDec s _ _ | expr s _ | empty s => s

end Stmt

structure Function where
  name : String
  nameSpan : Span
  params : List (Located String)
  body : List Stmt
  span : Span

/-- A script file: its includes, its animation tree (the last one named) and its functions. -/
structure Script where
  includes : List (Located String)
  animtree : Option (Located String)
  functions : List Function

def Script.empty : Script := ⟨[], none, []⟩

end Gsc
