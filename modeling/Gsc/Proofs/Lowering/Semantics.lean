import Gsc.Script.Basic

/-! # What scripts mean

A semantics of the part of the language that works on local variables only: values, operators,
assignments, branches and loops. Values and operators are left to an interpretation. Statements are
executed along their structure; the fuel bounds how often any one loop goes round.
-/

namespace Gsc

universe u

/-- Values, a truth test and the operators on them, with what is known of integers. -/
structure Interpretation (V : Type u) where
  int : Int → V
  text : String → V
  undefined : V
  truth : V → Bool
  binary : BinaryOp → V → V → V
  not : V → V
  bitNot : V → V
  inc : V → V
  dec : V → V
  truth_int : ∀ n, truth (int n) = decide (n ≠ 0)
  sub_int : ∀ n, binary .sub (int 0) (int n) = int (-n)

abbrev Store (V : Type u) : Type u := String → V

def Store.set {V : Type u} (σ : Store V) (name : String) (v : V) : Store V :=
  fun other => if other = name then v else σ other

/-! ## The fragment -/

def Expr.isLocal : Expr → Bool
  | .int .. | .bool .. | .undefined _ | .text .. | .ident .. => true
  | .unary _ _ e => e.isLocal
  | .binary _ left _ right => left.isLocal && right.isLocal
  | .ternary _ condition yes no => condition.isLocal && yes.isLocal && no.isLocal
  | _ => false

def Expr.isIdent : Expr → Bool
  | .ident .. => true
  | _ => false

mutual

def Stmt.isLocal : Stmt → Bool
  | .block _ body => bodyIsLocal body
  | .ifElse _ condition yes no => condition.isLocal && yes.isLocal && clauseIsLocal no
  | .whileLoop _ condition body => condition.isLocal && body.isLocal
  | .forLoop _ init condition step body =>
      clauseIsLocal init && condition.all Expr.isLocal && clauseIsLocal step && body.isLocal
  | .ret _ value => value.all Expr.isLocal
  | .breakLoop _ | .continueLoop _ | .empty _ => true
  | .assign _ target _ value => target.isIdent && value.isLocal
  | .incDec _ target _ => target.isIdent
  | _ => false

def bodyIsLocal : List Stmt → Bool
  | [] => true
  | s :: rest => s.isLocal && bodyIsLocal rest

def clauseIsLocal : Option Stmt → Bool
  | none => true
  | some s => s.isLocal

end

/-! ## Execution -/

section Execution

variable {V : Type u} (I : Interpretation V)

/-- The value of an expression; expressions that are not local have none of their own. -/
def Expr.eval (σ : Store V) : Expr → V
  | .int _ n => I.int n.toInt
  | .bool _ b => I.int (if b then 1 else 0)
  | .undefined _ => I.undefined
  | .text _ s => I.text s
  | .ident _ name => σ name
  | .unary _ .neg e => I.binary .sub (I.int 0) (e.eval σ)
  | .unary _ .not e => I.not (e.eval σ)
  | .unary _ .bitNot e => I.bitNot (e.eval σ)
  | .binary _ left .and right => if I.truth (left.eval σ) then right.eval σ else left.eval σ
  | .binary _ left .or right => if I.truth (left.eval σ) then left.eval σ else right.eval σ
  | .binary _ left op right => I.binary op (left.eval σ) (right.eval σ)
  | .ternary _ condition yes no => if I.truth (condition.eval σ) then yes.eval σ else no.eval σ
  | _ => I.undefined

def holds (condition : Option Expr) (σ : Store V) : Bool :=
  match condition with
  | none => true
  | some e => I.truth (e.eval I σ)

inductive Completion (V : Type u) where
  | normal
  | leaving
  | continuing
  | returning (value : V)

abbrev Execution (V : Type u) := Option (Completion V × Store V)

def Execution.andThen (first : Execution V) (next : Store V → Execution V) : Execution V :=
  match first with
  | some (.normal, σ) => next σ
  | other => other

/-- Repeat a body and a step while a test holds, at most `n` times. -/
def repeatWhile (test : Store V → Bool) (body step : Store V → Execution V) :
    Nat → Store V → Execution V
  | 0, _ => none
  | n + 1, σ =>
    if test σ then
      match body σ with
      | none => none
      | some (.leaving, σ') => some (.normal, σ')
      | some (.returning v, σ') => some (.returning v, σ')
      | some (.normal, σ') => (step σ').andThen (repeatWhile test body step n)
      | some (.continuing, σ') => (step σ').andThen (repeatWhile test body step n)
    else some (.normal, σ)

mutual

/-- Execute a statement. The clauses of a `for` stand outside its loop, so that what leaves a loop
in them leaves the one around. -/
def Stmt.exec (fuel : Nat) : Stmt → Store V → Execution V
  | .block _ body, σ => execBody fuel body σ
  | .ifElse _ condition yes no, σ =>
    if I.truth (condition.eval I σ) then yes.exec fuel σ else execClause fuel no σ
  | .whileLoop _ condition body, σ =>
    repeatWhile (holds I (some condition)) (body.exec fuel) (fun σ => some (.normal, σ)) fuel σ
  | .forLoop _ init condition step body, σ =>
    (execClause fuel init σ).andThen
      (repeatWhile (holds I condition) (body.exec fuel) (execClause fuel step) fuel)
  | .ret _ none, σ => some (.returning I.undefined, σ)
  | .ret _ (some value), σ => some (.returning (value.eval I σ), σ)
  | .breakLoop _, σ => some (.leaving, σ)
  | .continueLoop _, σ => some (.continuing, σ)
  | .assign _ (.ident _ name) .assign value, σ =>
    some (.normal, σ.set name (value.eval I σ))
  | .assign _ (.ident _ name) (.compound op) value, σ =>
    some (.normal, σ.set name (I.binary op (σ name) (value.eval I σ)))
  | .incDec _ (.ident _ name) true, σ => some (.normal, σ.set name (I.inc (σ name)))
  | .incDec _ (.ident _ name) false, σ => some (.normal, σ.set name (I.dec (σ name)))
  | .empty _, σ => some (.normal, σ)
  | _, _ => none

def execBody (fuel : Nat) : List Stmt → Store V → Execution V
  | [], σ => some (.normal, σ)
  | s :: rest, σ => (s.exec fuel σ).andThen (execBody fuel rest)

def execClause (fuel : Nat) : Option Stmt → Store V → Execution V
  | none, σ => some (.normal, σ)
  | some s, σ => s.exec fuel σ

end

def Function.run (f : Function) (fuel : Nat) (σ : Store V) : Option (V × Store V) :=
  match execBody I fuel f.body σ with
  | some (.returning v, σ') => some (v, σ')
  | some (.normal, σ') => some (I.undefined, σ')
  | _ => none

end Execution

end Gsc
