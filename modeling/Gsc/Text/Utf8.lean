import Gsc.Data.Bytes

/-! # UTF-8

Decoding goes character by character. Where no character stands, the longest run of bytes that
could begin one counts as a single fault.
-/

namespace Gsc.Utf8

/-- The bytes of a text. -/
def encode (chars : List Char) : Bytes := chars.flatMap String.utf8EncodeChar

/-- The bytes of a text. -/
def ofString (s : String) : Bytes := encode s.toList

/-- What a first byte announces: its share of the code point, how many bytes follow, and between
which bounds the next one lies. -/
structure Lead where
  value : Nat
  count : Nat
  low : Nat
  high : Nat
  deriving DecidableEq, Repr

/-- Surrogates, code points above `0x10ffff` and forms longer than need be are ruled out by the
bounds of the second byte. -/
def lead? (b : Nat) : Option Lead :=
  if b < 0x80 then some ⟨b, 0, 0x80, 0xbf⟩
  else if b < 0xc2 then none
  else if b < 0xe0 then some ⟨b - 0xc0, 1, 0x80, 0xbf⟩
  else if b = 0xe0 then some ⟨0, 2, 0xa0, 0xbf⟩
  else if b = 0xed then some ⟨0xd, 2, 0x80, 0x9f⟩
  else if b < 0xf0 then some ⟨b - 0xe0, 2, 0x80, 0xbf⟩
  else if b = 0xf0 then some ⟨0, 3, 0x90, 0xbf⟩
  else if b < 0xf4 then some ⟨b - 0xf0, 3, 0x80, 0xbf⟩
  else if b = 0xf4 then some ⟨4, 3, 0x80, 0x8f⟩
  else none

/-- Read the bytes that a first one announced. At a byte out of bounds it stops in front of it. -/
def follow : Lead → Bytes → Option Nat × Bytes
  | ⟨value, 0, _, _⟩, rest => (some value, rest)
  | ⟨_, _ + 1, _, _⟩, [] => (none, [])
  | ⟨value, count + 1, low, high⟩, b :: rest =>
    if low ≤ b.toNat ∧ b.toNat ≤ high then
      follow ⟨64 * value + (b.toNat - 0x80), count, 0x80, 0xbf⟩ rest
    else (none, b :: rest)

/-- The code point at the front, `none` for a fault, and the bytes behind it. -/
def next (b : UInt8) (rest : Bytes) : Option Nat × Bytes :=
  match lead? b.toNat with
  | some lead => follow lead rest
  | none => (none, rest)

theorem length_follow (lead : Lead) (bytes : Bytes) :
    (follow lead bytes).2.length ≤ bytes.length := by
  fun_induction follow lead bytes with
  | case1 => exact Nat.le_refl _
  | case2 => exact Nat.le_refl _
  | case3 value count low high b rest bound ih => exact Nat.le_succ_of_le ih
  | case4 => exact Nat.le_refl _

theorem length_next (b : UInt8) (rest : Bytes) : (next b rest).2.length ≤ rest.length := by
  unfold next
  split
  · exact length_follow _ _
  · exact Nat.le_refl _

/-- The characters of a byte string, `none` for each fault. -/
def decodeAll : Bytes → List (Option Char)
  | [] => []
  | b :: rest => (next b rest).1.map Char.ofNat :: decodeAll (next b rest).2
termination_by bytes => bytes.length
decreasing_by exact Nat.lt_succ_of_le (length_next b rest)

/-- The text of a byte string without faults. -/
def decode? (bytes : Bytes) : Option (List Char) := (decodeAll bytes).mapM id

/-- The text of a byte string with a replacement character for each fault. -/
def decodeLossy (bytes : Bytes) : List Char :=
  (decodeAll bytes).map (·.getD (Char.ofNat 0xfffd))

/-- How many bytes stand in front of the first fault. -/
def validLength (bytes : Bytes) : Nat :=
  (encode ((decodeAll bytes).takeWhile Option.isSome |>.filterMap id)).length

/-- The string of a byte string without faults. -/
def toString? (bytes : Bytes) : Option String := (decode? bytes).map String.ofList

end Gsc.Utf8
