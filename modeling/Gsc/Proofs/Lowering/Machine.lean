import Gsc.Proofs.Lowering.Growth
import Gsc.Proofs.Lowering.Semantics

/-! # The script machine

The machine runs the instructions of a routine one at a time, on a stack of values and references
and on the slots of the local variables. It carries out the instructions that local code is made of;
on all others, and where an operand is missing, it is stuck.
-/

namespace Gsc

universe u

/-- The operator that an opcode applies to two values. -/
def Opcode.operator? : Opcode → Option BinaryOp
  | plus => some .add
  | minus => some .sub
  | multiply => some .mul
  | divide => some .div
  | modulus => some .mod
  | bitOr => some .bitOr
  | bitExOr => some .bitXor
  | bitAnd => some .bitAnd
  | shiftLeft => some .shl
  | shiftRight => some .shr
  | equality => some .eq
  | inequality => some .neq
  | lessThan => some .lt
  | greaterThan => some .gt
  | lessEqual => some .lte
  | greaterEqual => some .gte
  | _ => none

namespace Machine

/-- What lies on the stack: a value, or a reference to a slot. -/
inductive Cell (V : Type u) where
  | value (v : V)
  | reference (slot : Nat)

structure State (V : Type u) where
  index : Nat
  stack : List (Cell V)
  slots : List V

inductive Outcome (V : Type u) where
  | running (s : State V)
  | finished (value : V) (slots : List V)

variable {V : Type u} (I : Interpretation V) (r : Routine)

def State.next (s : State V) (stack : List (Cell V)) : Option (Outcome V) :=
  some (.running { s with index := s.index + 1, stack := stack })

def State.assign (s : State V) (stack : List (Cell V)) (slots : List V) : Option (Outcome V) :=
  some (.running ⟨s.index + 1, stack, slots⟩)

def State.goto (s : State V) (label : Nat) (stack : List (Cell V)) : Option (Outcome V) :=
  (r.target? label).map fun target => .running { s with index := target, stack := stack }

def execute (s : State V) (ins : Instruction) : Option (Outcome V) :=
  match ins.constant?, ins.opcode.operator? with
  | some n, _ => s.next (.value (I.int n) :: s.stack)
  | none, some op =>
    match s.stack with
    | .value b :: .value a :: rest => s.next (.value (I.binary op a b) :: rest)
    | _ => none
  | none, none =>
    match ins, s.stack with
    | ⟨.createLocalVariables, [.byte _, .byte count]⟩, stack =>
      if s.slots.length = count.toNat then s.next stack else none
    | ⟨.finish, []⟩, _ => some (.finished I.undefined s.slots)
    | ⟨.giveBack, []⟩, .value v :: _ => some (.finished v s.slots)
    | ⟨.getUndefined, []⟩, stack => s.next (.value I.undefined :: stack)
    | ⟨.getString, [.text t]⟩, stack => s.next (.value (I.text t) :: stack)
    | ⟨.evalLocal, [.byte slot]⟩, stack =>
      (s.slots[slot.toNat]?).bind fun v => s.next (.value v :: stack)
    | ⟨.evalLocalRef, [.byte slot]⟩, stack => s.next (.reference slot.toNat :: stack)
    | ⟨.setVariable, []⟩, .reference slot :: .value v :: rest =>
      s.assign rest (s.slots.set slot v)
    | ⟨.inc, []⟩, .reference slot :: rest =>
      (s.slots[slot]?).bind fun v => s.assign rest (s.slots.set slot (I.inc v))
    | ⟨.dec, []⟩, .reference slot :: rest =>
      (s.slots[slot]?).bind fun v => s.assign rest (s.slots.set slot (I.dec v))
    | ⟨.boolNot, []⟩, .value v :: rest => s.next (.value (I.not v) :: rest)
    | ⟨.boolComplement, []⟩, .value v :: rest => s.next (.value (I.bitNot v) :: rest)
    | ⟨.jump, [.label l]⟩, stack => s.goto r l stack
    | ⟨.jumpOnFalse, [.label l]⟩, .value v :: rest =>
      if I.truth v then s.next rest else s.goto r l rest
    | ⟨.jumpOnTrueExpr, [.label l]⟩, .value v :: rest =>
      if I.truth v then s.goto r l (.value v :: rest) else s.next rest
    | ⟨.jumpOnFalseExpr, [.label l]⟩, .value v :: rest =>
      if I.truth v then s.next rest else s.goto r l (.value v :: rest)
    | _, _ => none

def step (s : State V) : Option (Outcome V) := (r.code[s.index]?).bind (execute I r s)

def run : Nat → State V → Option (V × List V)
  | 0, _ => none
  | n + 1, s =>
    match step I r s with
    | some (.running t) => run n t
    | some (.finished v slots) => some (v, slots)
    | none => none

def Finishes (slots : List V) (value : V) (slots' : List V) : Prop :=
  ∃ n, run I r n ⟨0, [], slots⟩ = some (value, slots')

/-! ## Steps -/

variable {I r}

theorem step_eq {s : State V} {ins : Instruction} (h : r.code[s.index]? = some ins) :
    step I r s = execute I r s ins := by
  rw [step, h]
  rfl

/-- From one state the machine gets to another in `k` steps. -/
def Reaches (I : Interpretation V) (r : Routine) (k : Nat) (s t : State V) : Prop :=
  ∀ n, run I r (k + n) s = run I r n t

theorem Reaches.refl (s : State V) : Reaches I r 0 s s := by
  intro n
  rw [Nat.zero_add]

theorem Reaches.trans {k l : Nat} {s t u : State V} (h : Reaches I r k s t)
    (h' : Reaches I r l t u) : Reaches I r (k + l) s u := by
  intro n
  rw [Nat.add_assoc, h, h']

theorem reaches_of_step {s t : State V} (h : step I r s = some (.running t)) :
    Reaches I r 1 s t := by
  intro n
  rw [Nat.add_comm, run, h]

/-- What has ended stays ended. -/
theorem run_add {n : Nat} {s : State V} {result : V × List V}
    (h : run I r n s = some result) (m : Nat) : run I r (n + m) s = some result := by
  induction n generalizing s with
  | zero => cases h
  | succ n ih =>
      rw [Nat.add_right_comm, run]
      rw [run] at h
      split at h
      · exact ih h
      · exact h
      · cases h

theorem run_eq_none_of_le {n m : Nat} {s : State V} (h : run I r n s = none) (hm : m ≤ n) :
    run I r m s = none := by
  cases hr : run I r m s with
  | none => rfl
  | some result =>
      have hn := run_add hr (n - m)
      rw [Nat.add_sub_cancel' hm, h] at hn
      cases hn

theorem run_unique {n m : Nat} {s : State V} {result result' : V × List V}
    (h : run I r n s = some result) (h' : run I r m s = some result') : result = result' := by
  have hn := run_add h m
  have hm := run_add h' n
  rw [Nat.add_comm, hn] at hm
  cases hm
  rfl

end Machine

end Gsc
