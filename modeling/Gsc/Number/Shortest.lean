import Gsc.Number.Binary32

/-! # The shortest decimal of a single precision number

Of the decimals that read back as a number, the shortest are taken, and of those the nearest to it.
A `DecimalLayout` says how digits and exponent are laid out.
-/

namespace Gsc

/-- The digits `mantissa` times ten to the power `exponent`. -/
structure ShortDecimal where
  mantissa : Nat
  exponent : Int
  deriving DecidableEq, Repr

/-- Which of two decimals is taken for a number halfway between them. -/
inductive Tie where
  | upper
  | even
  deriving DecidableEq, Repr

/-- Whether a number halfway above a decimal with this mantissa is written as that decimal. -/
def Tie.down (mantissa : Nat) : Tie → Bool
  | upper => false
  | even => mantissa % 2 = 0

namespace Binary32

/-- Mantissa and exponent of a finite positive number: it is `mantissa * 2 ^ exponent`. -/
def decode (magnitude : Nat) : Nat × Int :=
  let field : Nat := magnitude / hiddenBit
  let fraction := magnitude % hiddenBit
  if field = 0 then (fraction, -149) else (hiddenBit + fraction, (field : Int) - 150)

/--
The range of reals that read back as the number: its two ends and the number itself, as multiples
of a common unit `num / den`. The lower neighbour of a power of two is half as far away.
-/
structure Interval where
  low : Nat
  value : Nat
  high : Nat
  closed : Bool
  num : Nat
  den : Nat

/-- The reals nearer to a number than to its neighbours. -/
def interval (magnitude : Nat) : Interval :=
  let (m, e) := decode magnitude
  let (num, den) : Nat × Nat :=
    if 2 ≤ e then (Nat.pow 2 (e - 2).toNat, 1) else (1, Nat.pow 2 (2 - e).toNat)
  let below := if m = hiddenBit ∧ -149 < e then 1 else 2
  { low := 4 * m - below, value := 4 * m, high := 4 * m + 2, closed := m % 2 = 0, num, den }

/-- Whether `k * 10 ^ p` lies in the interval. -/
def Interval.contains (i : Interval) (k : Nat) (p : Int) : Bool :=
  let unit := i.num * Nat.pow 10 (-p).toNat
  let point := k * Nat.pow 10 p.toNat * i.den
  if i.closed then i.low * unit ≤ point && point ≤ i.high * unit
  else i.low * unit < point && point < i.high * unit

/-- The multiple of `10 ^ p` below the number, and the remainder and divisor of that division. -/
def Interval.floor (i : Interval) (p : Int) : Nat × Nat × Nat :=
  let top := i.value * i.num * Nat.pow 10 (-p).toNat
  let bottom := i.den * Nat.pow 10 p.toNat
  (top / bottom, top % bottom, bottom)

/-- The multiple of `10 ^ p` in the interval that is nearest to the number. -/
def Interval.nearest? (i : Interval) (tie : Tie) (p : Int) : Option Nat :=
  let (k, remainder, divisor) := i.floor p
  match i.contains k p, i.contains (k + 1) p with
  | true, true =>
    some (if 2 * remainder < divisor ∨ (2 * remainder = divisor ∧ tie.down k) then k else k + 1)
  | true, false => some k
  | false, true => some (k + 1)
  | false, false => none

/-- Try ever finer powers of ten, `tries` of them. -/
def Interval.search (i : Interval) (tie : Tie) : Nat → Int → ShortDecimal
  | 0, p => ⟨(i.floor p).1, p⟩
  | tries + 1, p =>
    match i.nearest? tie p with
    | some k => ⟨k, p⟩
    | none => i.search tie tries (p - 1)

/-- The shortest decimal that reads back as a finite positive number. -/
def shortest (tie : Tie) (magnitude : Nat) : ShortDecimal :=
  let i := interval magnitude
  i.search tie 96 (if i.num = 1 then 8 else 39)

end Binary32

/-- How the digits of a number are laid out. -/
structure DecimalLayout where
  /-- The least power of ten of the first digit that is written with a point only. -/
  leastPower : Int
  /-- The greatest such power. -/
  greatestPower : Int
  /-- What stands in front of a power of ten that is not negative. -/
  plus : String
  tie : Tie
  nan : String
  infinity : String
  negativeInfinity : String

namespace DecimalLayout

/-- The digits of a mantissa without zeros at its end, and how many zeros there were. -/
def trimmed (mantissa : Nat) : List Char × Nat :=
  let digits := Nat.toDigits 10 mantissa
  let kept := (digits.reverse.dropWhile (· = '0')).reverse
  (kept, digits.length - kept.length)

/-- Digits around a point that stands `power + 1` digits from the left, with at least one digit on
each side. -/
def positional (digits : List Char) (power : Int) : List Char :=
  if power < 0 then ['0', '.'] ++ List.replicate (-power - 1).toNat '0' ++ digits
  else
    let whole := power.toNat + 1
    if digits.length ≤ whole then
      digits ++ List.replicate (whole - digits.length) '0' ++ ['.', '0']
    else digits.take whole ++ ['.'] ++ digits.drop whole

/-- A first digit, the others behind a point, and the power of ten. -/
def scientific (layout : DecimalLayout) (digits : List Char) (power : Int) : List Char :=
  let fraction := digits.drop 1
  digits.take 1 ++ (if fraction.isEmpty then [] else '.' :: fraction)
    ++ 'e' :: (if power < 0 then [] else layout.plus.toList) ++ (toString power).toList

def magnitudeText (layout : DecimalLayout) (magnitude : Nat) : List Char :=
  let short := Binary32.shortest layout.tie magnitude
  let (digits, zeros) := trimmed short.mantissa
  let power := short.exponent + zeros + digits.length - 1
  if layout.leastPower ≤ power ∧ power ≤ layout.greatestPower then positional digits power
  else layout.scientific digits power

def render (layout : DecimalLayout) (x : Binary32) : String :=
  if Binary32.infinityBits < x.magnitude then layout.nan
  else if x.magnitude = Binary32.infinityBits then
    if x.isNegative then layout.negativeInfinity else layout.infinity
  else
    let body := if x.magnitude = 0 then "0.0".toList else layout.magnitudeText x.magnitude
    String.ofList (if x.isNegative then '-' :: body else body)

end DecimalLayout

/-- Listings write a number with a point from `1e-4` up to below `1e16`. -/
def DecimalLayout.listing : DecimalLayout := ⟨-4, 15, "", .upper, "NaN", "inf", "-inf"⟩

end Gsc
