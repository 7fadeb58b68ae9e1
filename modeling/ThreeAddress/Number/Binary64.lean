/-!
# Double-precision values

A value of the language's `float` type is a 64-bit word: a sign, an eleven-bit exponent
field and a fifty-two-bit fraction. Everything below is integer arithmetic on that word, so
that a statement about a float is a statement about natural numbers.
-/

namespace ThreeAddress

/-- A double-precision value, given by its word. -/
structure Binary64 where
  /-- The word itself. -/
  bits : UInt64
  deriving DecidableEq

namespace Binary64

/-- Whether the sign bit is set; a zero has a sign as well. -/
def isNegative (x : Binary64) : Bool :=
  x.bits.toNat.testBit 63

/-- The exponent field: `0` for zeros and subnormal values, `2047` for infinities and NaNs. -/
def exponentField (x : Binary64) : Nat :=
  (x.bits.toNat >>> 52) % 2048

/-- The bit above the fraction, which a normal value has without writing it. -/
def hiddenBit : Nat := 0x10000000000000

/-- The fifty-two bits below the exponent field. -/
def fraction (x : Binary64) : Nat :=
  x.bits.toNat % hiddenBit

/-- Not a number: the largest exponent field over a fraction that is not zero. -/
def isNaN (x : Binary64) : Bool :=
  decide (x.exponentField = 2047 ∧ x.fraction ≠ 0)

/-- An infinity of either sign. -/
def isInfinite (x : Binary64) : Bool :=
  decide (x.exponentField = 2047 ∧ x.fraction = 0)

/-- The integral significand: the fraction, under the hidden bit if the value is normal. -/
def significand (x : Binary64) : Nat :=
  if x.exponentField = 0 then x.fraction else hiddenBit + x.fraction

/-- The binary exponent of the significand's last digit: the magnitude of a finite value is
`significand * 2 ^ exponent`. -/
def exponent (x : Binary64) : Int :=
  (max x.exponentField 1 : Nat) - 1075

/-- Whether the next smaller magnitude lies half a step away, which happens at the powers of
two above the subnormal range. -/
def isBinadeStart (x : Binary64) : Bool :=
  decide (x.fraction = 0 ∧ 1 < x.exponentField)

/-- The magnitude with its fractional part dropped. -/
def wholePart (x : Binary64) : Nat :=
  match x.exponent with
  | .ofNat places => x.significand <<< places
  | .negSucc places => x.significand >>> (places + 1)

/-- Conversion to an integer, towards zero; a value out of range becomes the nearest bound
and a NaN becomes zero. -/
def toInt64 (x : Binary64) : Int64 :=
  if x.isNaN then 0
  else if x.isNegative then Int64.ofInt (max (-(x.wholePart : Int)) Int64.minValue.toInt)
  else Int64.ofInt (min (x.wholePart : Int) Int64.maxValue.toInt)

/-- Division by a power of two to the nearest quotient, a tie going to the even one. -/
def roundedShift (value places : Nat) : Nat :=
  let divisor := 1 <<< places
  let quotient := value / divisor
  let remainder := value % divisor
  if 2 * remainder < divisor then quotient
  else if 2 * remainder = divisor ∧ quotient % 2 = 0 then quotient
  else quotient + 1

/-- The word of the positive value nearest to a natural number below `2 ^ 64`. The significand
is the number shifted to fifty-three bits; one that rounds up to `2 ^ 53` carries into the
exponent field, which is what the next value's word looks like. -/
def magnitudeWord (value : Nat) : Nat :=
  if value = 0 then 0
  else
    let top := value.log2
    if top ≤ 52 then (top + 1022) * hiddenBit + value <<< (52 - top)
    else (top + 1022) * hiddenBit + roundedShift value (top - 52)

/-- The value nearest to an integer, a tie going to the even significand. -/
def ofInt64 (value : Int64) : Binary64 :=
  let sign := if value.toInt < 0 then 1 <<< 63 else 0
  ⟨UInt64.ofNat (sign + magnitudeWord value.toInt.natAbs)⟩

/-- The value of a character's code point, which is always exact. -/
def ofChar (c : Char) : Binary64 :=
  ⟨UInt64.ofNat (magnitudeWord c.toNat)⟩

end Binary64

end ThreeAddress
