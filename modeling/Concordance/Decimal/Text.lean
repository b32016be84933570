import Concordance.Decimal.Shortest

/-!
# Texts of floating-point numbers

Texts show the digits of the shortest decimal.  A style says which of two
equally near decimals that is, which numbers are written with a point in place
and which with an exponent, what follows a whole number, and how the numbers
without digits are written.
-/

namespace Concordance

namespace Decimal

structure Style where
  /-- Which of two equally near decimals is written. -/
  tie : Tie
  /-- Whether numbers whose first digit stands for this power of ten are
  written without an exponent. -/
  positional : Int → Bool
  /-- What follows a whole number. -/
  wholeMark : String
  notANumber : String
  infinity : String

/-- Numbers in messages and in the texts of nodes never have an exponent. -/
def plainStyle : Style :=
  { tie := .greater
    positional := fun _ => true
    wholeMark := ""
    notANumber := "NaN"
    infinity := "inf" }

/-- Numbers in JSON have an exponent below `1e-5` and from `1e16` on, and a
whole number keeps a digit behind its point. -/
def jsonStyle : Style :=
  { tie := .even
    positional := fun power => -5 ≤ power && power ≤ 15
    wholeMark := ".0"
    notANumber := "null"
    infinity := "null" }

def zeros (count : Nat) : String := String.ofList (List.replicate count '0')

/-- Digits with a decimal point behind the first `point` of them. -/
def positionalText (style : Style) (digits : List Char) (point : Int) : String :=
  if point ≤ 0 then "0." ++ zeros (-point).toNat ++ String.ofList digits
  else if (digits.length : Int) ≤ point then
    String.ofList digits ++ zeros (point.toNat - digits.length) ++ style.wholeMark
  else
    String.ofList (digits.take point.toNat) ++ "." ++
      String.ofList (digits.drop point.toNat)

/-- The first digit, a point and the others, and the power of ten of the first. -/
def exponentText (digits : List Char) (power : Int) : String :=
  let fraction :=
    if digits.length ≤ 1 then "" else "." ++ String.ofList (digits.drop 1)
  let sign := if power < 0 then "-" else "+"
  String.ofList (digits.take 1) ++ fraction ++ "e" ++ sign ++ toString power.natAbs

def magnitudeText (style : Style) : Magnitude → String
  | .notANumber => style.notANumber
  | .infinite => style.infinity
  | .zero => "0" ++ style.wholeMark
  | .finite number =>
    let decimal := shortest style.tie number
    let digits := Nat.toDigits 10 decimal.significand
    let point := (digits.length : Int) + decimal.exponent
    if style.positional (point - 1) then positionalText style digits point
    else exponentText digits (point - 1)

/-- The text of a floating-point number. -/
def text (style : Style) (number : Float) : String :=
  let bits := number.toBits.toNat
  match magnitude bits with
  | .notANumber => style.notANumber
  | other => (if isNegative bits then "-" else "") ++ magnitudeText style other

end Decimal

end Concordance
