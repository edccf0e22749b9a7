import Gsc.Data.Dictionary
import Gsc.Data.Fault
import Gsc.Text.Utf8

/-! # String pools

The strings of a script one behind the other, each as its bytes and a zero byte, with a dictionary
of where each of them begins.
-/

namespace Gsc

/-- Strings that are found from `base` on. The offsets in the cache count from the first of them. -/
structure StringPool where
  bytes : Bytes
  cache : Dictionary String UInt32
  base : UInt32
  deriving DecidableEq

namespace StringPool

inductive Refusal where
  | nul
  | full (size : Nat)
  deriving DecidableEq, Repr

def empty (base : UInt32) : StringPool := ⟨[], .empty, base⟩

def size (p : StringPool) : Nat := p.bytes.length

def entry (s : String) : Bytes := Utf8.ofString s ++ [0]

def hasNul (s : String) : Bool := s.toList.contains (Char.ofNat 0)

def offset (p : StringPool) (place : UInt32) : Except (Fault Refusal) UInt32 :=
  (checkedSum UInt32.size p.base.toNat place.toNat).map Nat.toUInt32

/-- The offset of a string, which is added behind all others if it is new. -/
def intern (p : StringPool) (s : String) : Except (Fault Refusal) UInt32 × StringPool :=
  match p.cache.get? s with
  | some place => (p.offset place, p)
  | none =>
    if hasNul s then (.error (.error .nul), p)
    else if UInt32.size ≤ p.size then (.error (.error (.full p.size)), p)
    else
      let place := p.size.toUInt32
      let p := { p with bytes := p.bytes ++ entry s, cache := p.cache.insert s place }
      (p.offset place, p)

end StringPool

end Gsc
