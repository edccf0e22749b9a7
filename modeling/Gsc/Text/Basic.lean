/-! # Characters and texts

Case, white space, numbers in hexadecimal digits, and the front of a text by byte offset. Only the
ASCII letters have two cases here.
-/

namespace Gsc.Text

/-- Whether a character lies in one of some closed ranges of code points. -/
def inRanges (ranges : Array (Nat × Nat)) (c : Char) : Bool :=
  ranges.any fun (first, last) => first ≤ c.toNat && c.toNat ≤ last

/-- The characters in front of byte offset `stop`, of a text that begins at offset `pos`. -/
def charsUntil (stop : Nat) : Nat → List Char → List Char
  | _, [] => []
  | pos, c :: rest => if pos < stop then c :: charsUntil stop (pos + c.utf8Size) rest else []

def lowercase (chars : List Char) : List Char := chars.map Char.toLower

def lower (s : String) : String := String.ofList (lowercase s.toList)

def isBlank (c : Char) : Bool :=
  let n := c.toNat
  (0x9 ≤ n && n ≤ 0xd) || n = 0x20 || n = 0x85 || n = 0xa0 || n = 0x1680
    || (0x2000 ≤ n && n ≤ 0x200a) || n = 0x2028 || n = 0x2029 || n = 0x202f || n = 0x205f
    || n = 0x3000

def trim (chars : List Char) : List Char :=
  ((chars.dropWhile isBlank).reverse.dropWhile isBlank).reverse

/-! ## Hexadecimal text -/

/-- The hexadecimal digits of a number, in lowercase and without leading zeros. -/
def hexDigits (n : Nat) : List Char := Nat.toDigits 16 n

def padLeft (width : Nat) (fill : Char) (chars : List Char) : List Char :=
  List.replicate (width - chars.length) fill ++ chars

/-- The hexadecimal digits of a number, with zeros in front up to a width. -/
def hex (width n : Nat) : String := String.ofList (padLeft width '0' (hexDigits n))

/-- A number filled up with blanks on the left to a width. -/
def decimal (width n : Nat) : String := String.ofList (padLeft width ' ' (Nat.toDigits 10 n))

def byteHex (b : UInt8) : List Char := padLeft 2 '0' (hexDigits b.toNat)

def digitValue? (c : Char) : Option Nat :=
  if c.isDigit then some (c.toNat - '0'.toNat)
  else if 'a' ≤ c ∧ c ≤ 'f' then some (c.toNat - 'a'.toNat + 10)
  else if 'A' ≤ c ∧ c ≤ 'F' then some (c.toNat - 'A'.toNat + 10)
  else none

def hexValue? (chars : List Char) : Option Nat :=
  chars.foldlM (fun value c => (digitValue? c).map (16 * value + ·)) 0

def ofBytes (bytes : List UInt8) : String := String.ofList (bytes.flatMap byteHex)

def toBytes? : List Char → Option (List UInt8)
  | [] => some []
  | high :: low :: rest =>
    match digitValue? high, digitValue? low, toBytes? rest with
    | some h, some l, some bytes => some ((16 * h + l).toUInt8 :: bytes)
    | _, _, _ => none
  | [_] => none

end Gsc.Text
