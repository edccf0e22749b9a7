/-! # Single precision numbers

A `Binary32` is the bit pattern of an IEEE single. Reading a decimal rounds the exact ratio to the
nearest representable value, ties to the even mantissa.
-/

namespace Gsc

/-- An IEEE single precision number, by its bits. -/
structure Binary32 where
  bits : UInt32
  deriving DecidableEq, Repr, Inhabited

namespace Binary32

/-- The bits of positive infinity, above those of every finite magnitude. -/
def infinityBits : Nat := 0x7f800000

/-- The leading bit of a mantissa, `2 ^ 23`. -/
def hiddenBit : Nat := 0x800000

def neg (x : Binary32) : Binary32 := ⟨x.bits ^^^ 0x80000000⟩

def isNegative (x : Binary32) : Bool := x.bits.toNat / 2147483648 = 1

def magnitude (x : Binary32) : Nat := x.bits.toNat % 2147483648

/-- The quotient rounded to the nearest integer, ties to the even one. -/
def roundHalfEven (num den : Nat) : Nat :=
  let q := num / den
  let r := num % den
  if 2 * r < den then q
  else if den < 2 * r then q + 1
  else if q % 2 = 0 then q else q + 1

/-- The ratio divided by `2 ^ e`, as a ratio. -/
def scaleRatio (num den : Nat) (e : Int) : Nat × Nat :=
  if 0 ≤ e then (num, den * Nat.pow 2 e.toNat) else (num * Nat.pow 2 (-e).toNat, den)

/-- The exponent at which the quotient has 24 bits, but no less than the least one. -/
def exponentOf (num den : Nat) : Int :=
  let guess : Int := (num.log2 : Int) - den.log2 - 23
  let (n, d) := scaleRatio num den guess
  max (-149) (if n < hiddenBit * d then guess - 1 else guess)

/--
The number nearest to `num / den`, for a positive `den`. The exponent field and the mantissa are
added, so that a mantissa rounded up to `2 ^ 24` carries into the exponent.
-/
def ofRatio (num den : Nat) : Binary32 :=
  if num = 0 then ⟨0⟩
  else
    let e := exponentOf num den
    let (n, d) := scaleRatio num den e
    let bits := (e + 149).toNat * hiddenBit + roundHalfEven n d
    ⟨(min bits infinityBits).toUInt32⟩

def digitsValue (digits : List Char) : Nat :=
  digits.foldl (fun value c => 10 * value + (c.toNat - '0'.toNat)) 0

/-- The number nearest to a decimal, given by its digits before and after the point. -/
def ofDecimal (whole fraction : List Char) : Binary32 :=
  ofRatio (digitsValue (whole ++ fraction)) (Nat.pow 10 fraction.length)

end Binary32

end Gsc
