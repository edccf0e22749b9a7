import Gsc.Deflate.Stream

/-! # The format of compressed streams

When a stream stands for bytes, said without reading it: which rows of bits are code words, which
words and blocks give which bytes, and what surrounds the blocks. Nothing here has a limit or
depends on how a reader goes about it.
-/

namespace Gsc.Deflate

/-! ## Bits -/

def numberOf : List Bool → Nat
  | [] => 0
  | b :: bits => b.toNat + 2 * numberOf bits

def bitsOf (bytes : Bytes) : List Bool := bytes.flatMap Bits.ofByte

/-- A number in so many bits, the highest first. -/
def wordBits : Nat → Nat → List Bool
  | 0, _ => []
  | width + 1, n => wordBits width (n / 2) ++ [n.testBit 0]

/-! ## Code words -/

/-- How many symbols have words of a length; length zero stands for no word. -/
def wordCount (lengths : List Nat) (length : Nat) : Nat :=
  if length = 0 then 0 else lengths.count length

/-- The number of the first word of a length. It is the successor of the last word of the length
before, with one bit more. -/
def firstWord (lengths : List Nat) : Nat → Nat
  | 0 => 0
  | length + 1 => 2 * (firstWord lengths length + wordCount lengths length)

/-- The word of a symbol. Words of one length are numbered in the order of their symbols. -/
def codeWord? (lengths : List Nat) (symbol : Nat) : Option (List Bool) :=
  match lengths[symbol]? with
  | none | some 0 => none
  | some length =>
    some (wordBits length (firstWord lengths length + (lengths.take symbol).count length))

example : (List.range 8).map (codeWord? [3, 3, 3, 3, 3, 2, 4, 4]) =
    [(3, 2), (3, 3), (3, 4), (3, 5), (3, 6), (2, 0), (4, 14), (4, 15)].map
      fun (width, n) => some (wordBits width n) := by
  decide

/-- Lengths of a code: no word is too long, and the words use up all rows of bits unless there is
at most one of them. -/
structure IsCode (lengths : List Nat) : Prop where
  bounded : ∀ n ∈ lengths, n ≤ CodeTree.maxLength
  full : firstWord lengths (CodeTree.maxLength + 1) = 65536
    ∨ (lengths.filter (· ≠ 0)).length ≤ 1

/-! ## Symbols -/

/-- A number given by a symbol of a table and the bits added to it. -/
inductive Extended (table : List (Nat × Nat)) (symbol : Nat) (added : List Bool) : Nat → Prop
  | intro {least : Nat} (h : table[symbol]? = some (least, added.length)) :
      Extended table symbol added (least + numberOf added)

/-- Bytes with a copy behind them: every byte of it is the one that stands `distance` before, which
may belong to the copy itself. -/
structure Copied (distance length : Nat) (out next : Bytes) : Prop where
  positive : 0 < distance
  inside : distance ≤ out.length
  keeps : out <+: next
  length_eq : next.length = out.length + length
  same : ∀ i, out.length ≤ i → i < next.length → next[i]? = next[i - distance]?

/-- The words from here to the end of a block, when `out` stands before them and `last` in the end.
-/
inductive Symbols (literals distances : List Nat) : Bytes → List Bool → Bytes → Prop
  | stop {out : Bytes} {word : List Bool} (h : codeWord? literals 256 = some word) :
      Symbols literals distances out word out
  | literal {out last : Bytes} {word rest : List Bool} (b : UInt8)
      (h : codeWord? literals b.toNat = some word)
      (hrest : Symbols literals distances (out ++ [b]) rest last) :
      Symbols literals distances out (word ++ rest) last
  | copy {out next last : Bytes} {word added word' added' rest : List Bool}
      {symbol symbol' length distance : Nat}
      (h : codeWord? literals (257 + symbol) = some word)
      (hlength : Extended lengthCodes symbol added length)
      (h' : codeWord? distances symbol' = some word')
      (hdistance : Extended distanceCodes symbol' added' distance)
      (hcopy : Copied distance length out next)
      (hrest : Symbols literals distances next rest last) :
      Symbols literals distances out (word ++ (added ++ (word' ++ (added' ++ rest)))) last

/-! ## Codes in front of a block -/

/-- Words of the packing code that go on a row of lengths up to `all`. -/
inductive PackedLengths (code : List Nat) : List Nat → List Bool → List Nat → Prop
  | done {all : List Nat} : PackedLengths code all [] all
  | one {lengths all : List Nat} {word rest : List Bool} {n : Nat}
      (h : codeWord? code n = some word) (hn : n < 16)
      (hrest : PackedLengths code (lengths ++ [n]) rest all) :
      PackedLengths code lengths (word ++ rest) all
  | again {lengths all : List Nat} {word added rest : List Bool} {n : Nat}
      (h : codeWord? code 16 = some word) (hadded : added.length = 2)
      (hn : lengths.getLast? = some n)
      (hrest : PackedLengths code (lengths ++ List.replicate (3 + numberOf added) n) rest all) :
      PackedLengths code lengths (word ++ (added ++ rest)) all
  | zeros {lengths all : List Nat} {word added rest : List Bool} {symbol least width : Nat}
      (hsymbol : (symbol, least, width) ∈ [(17, 3, 3), (18, 11, 7)])
      (h : codeWord? code symbol = some word) (hadded : added.length = width)
      (hrest : PackedLengths code (lengths ++ List.replicate (least + numberOf added) 0) rest all) :
      PackedLengths code lengths (word ++ (added ++ rest)) all

def packingLengths (given : List Nat) : List Nat :=
  (List.range 19).map fun symbol => ((lengthOrder.zip given).lookup symbol).getD 0

/-- The bits that give the two codes of a block: how many lengths each of the three codes has, the
lengths of the packing code, and by it those of the other two. -/
inductive GivenCodes (literals distances : List Nat) : List Bool → Prop
  | intro {first second third packed : List Bool} {given : List (List Bool)}
      (hfirst : first.length = 5) (hsecond : second.length = 5) (hthird : third.length = 4)
      (hliterals : literals.length = numberOf first + 257) (hmost : literals.length ≤ 286)
      (hdistances : distances.length = numberOf second + 1) (hmost' : distances.length ≤ 30)
      (hgiven : given.length = numberOf third + 4) (hwidth : ∀ bits ∈ given, bits.length = 3)
      (hcode : IsCode (packingLengths (given.map numberOf)))
      (hpacked : PackedLengths (packingLengths (given.map numberOf)) [] packed
        (literals ++ distances))
      (hl : IsCode literals) (hd : IsCode distances) :
      GivenCodes literals distances (first ++ (second ++ (third ++ (given.flatten ++ packed))))

/-- The lengths of the codes that need not be given. -/
def fixedLiterals : List Nat :=
  List.replicate 144 8 ++ List.replicate 112 9 ++ List.replicate 24 7 ++ List.replicate 8 8

def fixedDistances : List Nat := List.replicate 32 5

/-! ## Blocks -/

def framed (bytes : Bytes) : Bytes :=
  Bytes.ofNat 2 bytes.length ++ Bytes.ofNat 2 (65535 - bytes.length) ++ bytes

/-- A block from position `pos` of the bits on, behind the bit that tells whether it is the last
one. Plain bytes begin at a whole byte. -/
inductive Block (pos : Nat) (out : Bytes) : List Bool → Bytes → Prop
  | stored {bytes : Bytes} {padding : List Bool} (hpadding : padding.length < 8)
      (haligned : (pos + 2 + padding.length) % 8 = 0) (hlength : bytes.length ≤ blockLimit) :
      Block pos out ([false, false] ++ (padding ++ bitsOf (framed bytes))) (out ++ bytes)
  | fixed {bits : List Bool} {next : Bytes}
      (h : Symbols fixedLiterals fixedDistances out bits next) :
      Block pos out ([true, false] ++ bits) next
  | coded {literals distances : List Nat} {codes bits : List Bool} {next : Bytes}
      (hcodes : GivenCodes literals distances codes)
      (h : Symbols literals distances out bits next) :
      Block pos out ([false, true] ++ (codes ++ bits)) next

/-- Blocks from position `pos` on up to the last one, when `out` stands before them and `last` in
the end. -/
inductive Blocks : Nat → Bytes → List Bool → Bytes → Prop
  | last {pos : Nat} {out last : Bytes} {bits : List Bool} (h : Block (pos + 1) out bits last) :
      Blocks pos out (true :: bits) last
  | more {pos : Nat} {out next last : Bytes} {bits rest : List Bool}
      (h : Block (pos + 1) out bits next) (hrest : Blocks (pos + 1 + bits.length) next rest last) :
      Blocks pos out (false :: (bits ++ rest)) last

/-! ## Streams -/

/-- A stream that stands for bytes: a header, blocks filled up to whole bytes, and the checksum. -/
inductive IsStream (bytes : Bytes) : Bytes → Prop
  | intro {method flags : UInt8} {data : Bytes} {bits padding : List Bool}
      (hheader : isHeader method.toNat flags.toNat = true) (hdata : bitsOf data = bits ++ padding)
      (hpadding : padding.length < 8) (hblocks : Blocks 0 [] bits bytes) :
      IsStream bytes (method :: flags :: (data ++ trailer bytes))

structure Encoder where
  encode : Bytes → Bytes
  isStream : ∀ bytes, IsStream bytes (encode bytes)

end Gsc.Deflate
