import Concordance.Decimal.Reader
import Concordance.Decimal.Text

/-!
# Parameters

A node of a query carries named parameters.  A parameter has one of four
types; it can be read as another type where it is a text that spells a value
of that type.
-/

namespace Concordance

/-- The value of a parameter. -/
inductive Param where
  | bool (value : Bool)
  /-- A whole number of 64 bits with a sign. -/
  | long (value : Int)
  | double (value : Float)
  | string (value : String)

namespace Param

/-- The greatest whole number that a parameter can hold. -/
def maxLong : Nat := 9223372036854775807

/-- A count as a parameter; counts above the greatest whole number become it. -/
def ofCount (count : Nat) : Param := .long (min count maxLong)

/-- The text of a parameter in the text of its node. -/
def text : Param → String
  | bool true => "true"
  | bool false => "false"
  | long value => if value < 0 then "-" ++ toString value.natAbs else toString value.natAbs
  | double value => Decimal.text Decimal.plainStyle value
  | string value => value

def asLong? : Param → Option Int
  | long value => some value
  | string value => Decimal.signed64? value.toList
  | _ => none

/-- The floating-point number nearest to a whole number. -/
def floatOfInt (value : Int) : Float :=
  let magnitude := value.natAbs.toUInt64.toFloat
  if value < 0 then -magnitude else magnitude

def asDouble? : Param → Option Float
  | double value => some value
  | long value => some (floatOfInt value)
  | string value => Decimal.float? value.toList
  | bool _ => none

def asBool? : Param → Option Bool
  | bool value => some value
  | string value =>
    if value == "true" then some true
    else if value == "false" then some false
    else none
  | _ => none

/-- Equality of parameters; floating-point numbers compare by value, so that
not-a-number differs from itself and the two zeros are equal. -/
def same : Param → Param → Bool
  | bool first, bool second => first == second
  | long first, long second => first == second
  | double first, double second => first == second
  | string first, string second => first == second
  | _, _ => false

instance : BEq Param := ⟨same⟩

end Param

end Concordance
