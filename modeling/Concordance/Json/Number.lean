import Concordance.Decimal.Reader
import Concordance.Json.Basic

/-!
# Numbers in JSON

A number without a fraction and an exponent is a whole number if it fits 64
bits.  Every other number is a floating-point number: as many leading digits as
fit 64 bits are converted, and the result is scaled by one power of ten after
the other.  A number too large for this has no value.
-/

namespace Concordance

namespace Json

/-- What a number stands for. -/
inductive Number where
  /-- A whole number below `2 ^ 64`. -/
  | natural (value : Nat)
  /-- A whole number from `-2 ^ 63` up to but not including zero. -/
  | negative (value : Int)
  | real (value : Float)

namespace Number

/-- Whole numbers are collected in 64 bits. -/
def wordLimit : Nat := 18446744073709551616

/-- The leading digits behind a number that fit 64 bits with it, and the number
of digits left over. -/
def collect : Nat → List Char → Nat × List Char
  | value, [] => (value, [])
  | value, digit :: digits =>
    let next := value * 10 + (digit.toNat - 48)
    if next < wordLimit then collect next digits else (value, digit :: digits)

/-- The leading digits of a numeral as one number, with the power of ten by
which it has to be scaled. -/
def significand (numeral : Numeral) : Nat × Int :=
  let (whole, wholeLeft) := collect 0 numeral.whole
  let (all, fractionLeft) := collect whole numeral.fraction
  (all, (wholeLeft.length : Int) + fractionLeft.length - numeral.fraction.length)

/-- A power of ten as a floating-point number. -/
def powerOfTen (exponent : Nat) : Float := Decimal.nearest (Decimal.tenTo exponent) 1

/-- The greatest power of ten that is a finite number. -/
def greatestPower : Nat := 308

/-- Scale a number by a power of ten, by the greatest power at a time. -/
def scale : Nat → Float → Int → Option Float
  | 0, float, _ => some float
  | limit + 1, float, exponent =>
    if exponent.natAbs ≤ greatestPower then
      if 0 ≤ exponent then
        let scaled := float * powerOfTen exponent.natAbs
        if scaled.isInf then none else some scaled
      else some (float / powerOfTen exponent.natAbs)
    else if float == 0 then some float
    else if 0 ≤ exponent then none
    else scale limit (float / powerOfTen greatestPower) (exponent + greatestPower)

/-- Exponents are collected in 32 bits with a sign. -/
def exponentLimit : Nat := 2147483648

def signed (minus : Bool) (float : Float) : Float := if minus then -float else float

/-- A scaled number without its sign.  Numbers that stay above zero are gone
after three divisions by the greatest power of ten. -/
def scaled? (significand : Nat) (exponent : Int) : Option Float :=
  scale 4 significand.toUInt64.toFloat exponent

/-- The floating-point number that a numeral stands for. -/
def real? (numeral : Numeral) : Option Float := do
  let (value, power) := significand numeral
  match numeral.exponent with
  | none => (scaled? value power).map (signed numeral.negative)
  | some (minus, digits) =>
    let exponent := Decimal.digitsValue 0 digits
    if exponent < exponentLimit then
      let shift : Int := if minus then -(exponent : Int) else exponent
      (scaled? value (power + shift)).map (signed numeral.negative)
    else if value ≠ 0 ∧ !minus then none
    else some (signed numeral.negative 0)

/-- What a numeral stands for.  Minus zero is a floating-point number. -/
def ofNumeral? (numeral : Numeral) : Option Number :=
  let value := Decimal.digitsValue 0 numeral.whole
  if numeral.fraction.isEmpty && numeral.exponent.isNone && value < wordLimit then
    if !numeral.negative then some (.natural value)
    else if value = 0 ∨ Decimal.signBit < value then
      some (.real (-value.toUInt64.toFloat))
    else some (.negative (-(value : Int)))
  else (real? numeral).map .real

end Number

end Json

end Concordance
