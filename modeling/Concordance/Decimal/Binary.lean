/-!
# Binary floating-point numbers

A finite positive number of 64 bits is a mantissa below `2 ^ 53` times a power
of two.  This module takes such numbers apart, and finds the one nearest to a
fraction, a tie going to the even mantissa.
-/

namespace Concordance

namespace Decimal

def twoTo (exponent : Nat) : Nat := Nat.pow 2 exponent

def tenTo (exponent : Nat) : Nat := Nat.pow 10 exponent

/-- The least mantissa of a number that is not among the smallest: `2 ^ 52`. -/
def leastMantissa : Nat := 4503599627370496

/-- The sign bit of a word: `2 ^ 63`. -/
def signBit : Nat := 9223372036854775808

/-- The number `mantissa * 2 ^ exponent`. -/
structure Binary where
  mantissa : Nat
  exponent : Int
  /-- Whether the next number below lies only half as far as the one above. -/
  closerBelow : Bool

/-- What the bits of a floating-point number stand for, its sign aside. -/
inductive Magnitude where
  | notANumber
  | infinite
  | zero
  | finite (number : Binary)

/-- Whether the sign bit is set. -/
def isNegative (bits : Nat) : Bool := signBit ≤ bits

/-- The number that some bits stand for, its sign aside. -/
def magnitude (bits : Nat) : Magnitude :=
  let fraction : Nat := bits % leastMantissa
  let scale : Nat := bits / leastMantissa % 2048
  if scale = 2047 then if fraction = 0 then .infinite else .notANumber
  else if scale = 0 then
    if fraction = 0 then .zero else .finite ⟨fraction, -1074, false⟩
  else .finite ⟨leastMantissa + fraction, (scale : Int) - 1075, fraction == 0 && scale != 1⟩

/-- The exponent of the greatest power of two that is at most a positive
fraction. -/
def floorLog2 (numerator denominator : Nat) : Int :=
  let guess : Int := (numerator.log2 : Int) - (denominator.log2 : Int)
  if denominator * twoTo guess.toNat ≤ numerator * twoTo (-guess).toNat then guess
  else guess - 1

/-- A quotient rounded to the nearest whole number, a tie to the even one. -/
def roundHalfEven (numerator denominator : Nat) : Nat :=
  let quotient := numerator / denominator
  let remainder := numerator % denominator
  if denominator < 2 * remainder ∨ (denominator = 2 * remainder ∧ quotient % 2 = 1) then
    quotient + 1
  else quotient

/-- The bits of infinity. -/
def infinityBits : Nat := 2047 * leastMantissa

/-- The bits of the floating-point number nearest to a fraction. -/
def nearestBits (numerator denominator : Nat) : Nat :=
  if numerator = 0 then 0
  else
    let exponent := max (floorLog2 numerator denominator - 52) (-1074)
    let mantissa :=
      roundHalfEven (numerator * twoTo (-exponent).toNat) (denominator * twoTo exponent.toNat)
    min infinityBits ((exponent + 1074).toNat * leastMantissa + mantissa)

/-- The floating-point number nearest to a fraction. -/
def nearest (numerator denominator : Nat) : Float :=
  Float.ofBits (nearestBits numerator denominator).toUInt64

end Decimal

end Concordance
