import Gsc.Peg.Pattern

/-! # What the matcher tried

`Attempts` keeps, for the furthest place at which a rule was tried in vain, the rules that were
expected there and the rules that were found although they must not stand there. A rule replaces
the attempts made inside it, unless there was exactly one.
-/

namespace Gsc.Peg

/-- The rules tried in vain at the furthest place. -/
structure Attempts (R : Type) where
  pos : Nat
  expected : List R
  unexpected : List R
  deriving Repr

namespace Attempts

variable {R : Type}

def empty : Attempts R := ⟨0, [], []⟩

def countAt (log : Attempts R) (pos : Nat) : Nat :=
  if log.pos = pos then log.expected.length + log.unexpected.length else 0

def add (log : Attempts R) (r : R) : Sense → Attempts R
  | .negative => { log with unexpected := log.unexpected ++ [r] }
  | _ => { log with expected := log.expected ++ [r] }

/-- The attempts at `pos` that were already there before a rule was entered. -/
def keep (log before : Attempts R) (pos : Nat) : Attempts R :=
  if log.pos = pos then
    if before.pos = pos then
      ⟨pos, log.expected.take before.expected.length, log.unexpected.take before.unexpected.length⟩
    else ⟨pos, [], []⟩
  else ⟨pos, [], []⟩

/--
Record that rule `r`, entered at `start` with the attempts `before`, was tried in vain. Where the
rule's parts left exactly one new attempt at `start`, that one stands for it.
-/
def note (log before : Attempts R) (r : R) (start : Nat) (mode : Mode) : Attempts R :=
  if mode.spacing = .atomic then log
  else if log.countAt start = before.countAt start + 1 then log
  else if start < log.pos then log
  else (log.keep before start).add r mode.sense

end Attempts

end Gsc.Peg
