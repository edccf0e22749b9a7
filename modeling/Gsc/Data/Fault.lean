/-! # Faults

A call that gives no value either reports an error or stops the program.
-/

namespace Gsc

inductive Fault (ε : Type) where
  | error (e : ε)
  | panic (message : String)
  deriving DecidableEq, Repr

variable {ε ε' α : Type}

def Fault.map (f : ε → ε') : Fault ε → Fault ε'
  | error e => .error (f e)
  | panic message => .panic message

def Fault.message (f : ε → String) : Fault ε → String
  | error e => f e
  | panic message => message

/-- A sum of machine words, which stops the program where it is none. -/
def checkedSum (bound a b : Nat) : Except (Fault ε) Nat :=
  if a + b < bound then .ok (a + b) else .error (.panic "attempt to add with overflow")

theorem checkedSum_of_lt {bound a b : Nat} (h : a + b < bound) :
    (checkedSum bound a b : Except (Fault ε) Nat) = .ok (a + b) := if_pos h

theorem checkedSum_of_le {bound a b : Nat} (h : bound ≤ a + b) :
    (checkedSum bound a b : Except (Fault ε) Nat)
      = .error (.panic "attempt to add with overflow") := if_neg (Nat.not_lt.2 h)

end Gsc
