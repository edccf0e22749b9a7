/-! # Local variable slots

A function's variables are numbered in the order in which they are first defined.
-/

namespace Gsc

structure Slots where
  names : Array String
  deriving DecidableEq, Repr

namespace Slots

/-- Slot numbers are single bytes, so that a function has at most this many variables. -/
def limit : Nat := 255

def empty : Slots := ⟨#[]⟩

def size (slots : Slots) : Nat := slots.names.size

def find? (slots : Slots) (name : String) : Option Nat := slots.names.idxOf? name

/-- The slot of a name, which is a new one if the name has none; `none` if no slot is left. -/
def define? (slots : Slots) (name : String) : Option (Nat × Slots) :=
  match slots.find? name with
  | some slot => some (slot, slots)
  | none => if slots.size < limit then some (slots.size, ⟨slots.names.push name⟩) else none

end Slots

end Gsc
