import Gsc.Deflate.Bits

/-! # Huffman codes

A code is given by the length of each symbol's code word. Among words of one length the symbols
are in order, and shorter words stand to the left of longer ones.
-/

namespace Gsc.Deflate

/-- A code as a tree. A zero bit goes to the left. -/
inductive CodeTree where
  | unused
  | symbol (value : Nat)
  | fork (left right : CodeTree)
  deriving DecidableEq, Repr

namespace CodeTree

def read? : CodeTree → Bits → Option (Nat × Bits)
  | unused, _ => none
  | symbol value, bits => some (value, bits)
  | fork left right, bits =>
    match bits.next? with
    | none => none
    | some (false, bits) => left.read? bits
    | some (true, bits) => right.read? bits

def isComplete : CodeTree → Bool
  | unused => false
  | symbol _ => true
  | fork left right => left.isComplete && right.isComplete

/-- Trees of one level, two by two below those of the level above. -/
def pairUp : List CodeTree → List CodeTree
  | [] => []
  | [t] => [fork t unused]
  | t :: u :: rest => fork t u :: pairUp rest

def symbolsOf (lengths : List Nat) (length : Nat) : List CodeTree :=
  (lengths.zipIdx.filter (·.1 = length)).map fun (_, value) => symbol value

/-- No word is longer. -/
def maxLength : Nat := 15

/-- The trees of a level, so many above the lowest. -/
def levelAbove (lengths : List Nat) : Nat → List CodeTree
  | 0 => symbolsOf lengths maxLength
  | k + 1 => symbolsOf lengths (maxLength - (k + 1)) ++ pairUp (levelAbove lengths k)

/-- The tree of a code. There is none if the words do not fit, or if they leave room although
there are several. -/
def ofLengths? (lengths : List Nat) : Option CodeTree :=
  let used := (lengths.filter (· ≠ 0)).length
  match pairUp (levelAbove lengths (maxLength - 1)) with
  | [] => some unused
  | [t] => if t.isComplete ∨ used ≤ 1 then some t else none
  | _ => none

end CodeTree

end Gsc.Deflate
