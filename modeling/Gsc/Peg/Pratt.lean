import Gsc.Data.Dictionary

/-! # Precedence climbing

A table says of each operator where it stands and how tightly it binds. A row of operands and
operators is read from left to right: an operand takes whatever behind it binds more than the
operator in front of it. What becomes of operands and operators is left to callbacks. A row that is
out of order stops the program, and so may a callback.
-/

namespace Gsc.Peg.Pratt

inductive Assoc where
  | left
  | right
  deriving DecidableEq, Repr

/-- Where an operator stands: before its operand, behind it, or between two. -/
inductive Affix where
  | before
  | behind
  | between (assoc : Assoc)
  deriving DecidableEq, Repr

variable {R π τ : Type}

/-- Operators with their precedences, which go up by steps. -/
structure Table (R : Type) where
  prec : Nat
  ops : Dictionary R (Affix × Nat)

namespace Table

def step : Nat := 10

def empty : Table R := ⟨step, .empty⟩

variable [DecidableEq R]

/-- Operators that bind more than all so far, and as much as each other. -/
def op (t : Table R) (row : List (R × Affix)) : Table R where
  prec := t.prec + step
  ops := row.foldl (fun ops (r, affix) => ops.insert r (affix, t.prec + step)) t.ops

def get? (t : Table R) (r : R) : Option (Affix × Nat) := t.ops.get? r

end Table

/-- What becomes of operands and operators, and how they are named in a message. -/
structure Callbacks (π τ : Type) where
  operand : π → Except String τ
  before : π → τ → Except String τ
  behind : τ → π → Except String τ
  between : τ → π → τ → Except String τ
  describe : π → String

variable [DecidableEq R] (table : Table R) (rule : π → R) (c : Callbacks π τ)

def lbp : List π → Except String Nat
  | [] => .ok 0
  | p :: _ =>
    match table.get? (rule p) with
    | some (_, prec) => .ok prec
    | none => .error ("Expected operator, found " ++ c.describe p)

mutual

/-- An operand with all operators behind it that bind more than `rbp`. -/
def expr (rbp : Nat) (row : List π) :
    Except String (τ × { rest : List π // rest.length < row.length }) := do
  let (lhs, ⟨rest, _⟩) ← nud row
  let (value, ⟨rest, _⟩) ← climb rbp lhs rest
  return (value, ⟨rest, by omega⟩)
termination_by 2 * row.length + 1

def nud : (row : List π) →
    Except String (τ × { rest : List π // rest.length < row.length })
  | [] => .error "Pratt parsing expects non-empty Pairs"
  | p :: rest =>
    match table.get? (rule p) with
    | some (.before, prec) => do
      let (rhs, ⟨rest, _⟩) ← expr (prec - 1) rest
      let value ← c.before p rhs
      return (value, ⟨rest, by grind⟩)
    | none => do
      let value ← c.operand p
      return (value, ⟨rest, Nat.lt_succ_self _⟩)
    | some _ => .error ("Expected prefix or primary expression, found " ++ c.describe p)
termination_by row => 2 * row.length

def climb (rbp : Nat) (lhs : τ) (row : List π) :
    Except String (τ × { rest : List π // rest.length ≤ row.length }) := do
  if rbp < (← lbp table rule c row) then
    let (lhs, ⟨rest, _⟩) ← led lhs row
    let (value, ⟨rest, _⟩) ← climb rbp lhs rest
    return (value, ⟨rest, by omega⟩)
  else return (lhs, ⟨row, Nat.le_refl _⟩)
termination_by 2 * row.length + 1

/-- The operator behind an operand, with its right operand if it has one. -/
def led (lhs : τ) : (row : List π) →
    Except String (τ × { rest : List π // rest.length < row.length })
  | [] => .error "called `Option::unwrap()` on a `None` value"
  | p :: rest =>
    match table.get? (rule p) with
    | some (.between assoc, prec) => do
      let (rhs, ⟨rest, _⟩) ← expr (match assoc with | .left => prec | .right => prec - 1) rest
      let value ← c.between lhs p rhs
      return (value, ⟨rest, by grind⟩)
    | some (.behind, _) => do
      let value ← c.behind lhs p
      return (value, ⟨rest, Nat.lt_succ_self _⟩)
    | _ => .error ("Expected postfix or infix expression, found " ++ c.describe p)
termination_by row => 2 * row.length

end

def parse (row : List π) : Except String τ := do
  let (value, _) ← expr table rule c 0 row
  return value

end Gsc.Peg.Pratt
