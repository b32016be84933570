import Concordance.Decimal.Binary

/-!
# Reading numbers

Whole numbers are digits with an optional sign and must fit their word.
Floating-point numbers are a sign, digits with at most one point among them
and an optional exponent, or one of the words for infinity and not a number.
-/

namespace Concordance

namespace Decimal

/-- The value of some digits behind a number. -/
def digitsValue (before : Nat) (digits : List Char) : Nat :=
  digits.foldl (fun value digit => value * 10 + (digit.toNat - 48)) before

/-- The whole number spelled by at least one digit and nothing else. -/
def natural? (text : List Char) : Option Nat :=
  if text.isEmpty || !text.all Char.isDigit then none else some (digitsValue 0 text)

/-- A sign off the front of a text, and whether it is a minus. -/
def takeSign : List Char → Bool × List Char
  | '-' :: rest => (true, rest)
  | '+' :: rest => (false, rest)
  | text => (false, text)

/-- The whole number below `2 ^ 64` spelled by a text; a plus may stand first. -/
def unsigned64? (text : List Char) : Option Nat := do
  let digits :=
    match text with
    | '+' :: rest => rest
    | other => other
  let value ← natural? digits
  if value < 18446744073709551616 then some value else none

/-- The whole number of 64 bits with a sign spelled by a text. -/
def signed64? (text : List Char) : Option Int := do
  let (negative, digits) := takeSign text
  let value ← natural? digits
  let number : Int := if negative then -(value : Int) else value
  if -(signBit : Int) ≤ number ∧ number < signBit then some number else none

/-- The floating-point number nearest to `significand * 10 ^ exponent`. -/
def ofScaled (significand : Nat) (exponent : Int) : Float :=
  let digits := (Nat.toDigits 10 significand).length
  if significand = 0 ∨ (digits : Int) + exponent < -330 then 0
  else if 310 < (digits : Int) + exponent then Float.ofBits infinityBits.toUInt64
  else nearest (significand * tenTo exponent.toNat) (tenTo (-exponent).toNat)

/-- The exponent behind a number, if the text is one or is empty. -/
def exponent? : List Char → Option Int
  | [] => some 0
  | mark :: rest =>
    if mark = 'e' ∨ mark = 'E' then do
      let (negative, digits) := takeSign rest
      let value ← natural? digits
      some (if negative then -(value : Int) else value)
    else none

/-- The number spelled by a text without a sign. -/
def unsignedFloat? (text : List Char) : Option Float := do
  let word := String.ofList (text.map Char.toLower)
  if word == "inf" || word == "infinity" then
    some (Float.ofBits infinityBits.toUInt64)
  else if word == "nan" then some (0 / 0)
  else
    let whole := text.takeWhile Char.isDigit
    let rest := text.dropWhile Char.isDigit
    let (fraction, rest) :=
      match rest with
      | '.' :: behind => (behind.takeWhile Char.isDigit, behind.dropWhile Char.isDigit)
      | other => ([], other)
    if whole.isEmpty && fraction.isEmpty then none
    else
      let exponent ← exponent? rest
      some (ofScaled (digitsValue 0 (whole ++ fraction)) (exponent - fraction.length))

/-- The floating-point number spelled by a text. -/
def float? (text : List Char) : Option Float := do
  let (negative, rest) := takeSign text
  let number ← unsignedFloat? rest
  some (if negative then -number else number)

end Decimal

end Concordance
