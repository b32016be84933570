import Concordance.Decimal.Binary

/-!
# Shortest decimals

Every decimal in the interval of numbers that round to a floating-point number
reads back as it.  The shortest decimal is found grid by grid, from coarse
powers of ten to fine ones: on each grid only the two neighbours of the number
can be nearest, and the first grid with a neighbour in the interval wins.  Of
two neighbours in the interval the nearer one is taken; which of two equally
near ones, is up to the format.
-/

namespace Concordance

namespace Decimal

/-- The number `significand * 10 ^ exponent`. -/
structure Scaled where
  significand : Nat
  exponent : Int

/-- Which of two equally near decimals is taken. -/
inductive Tie where
  | greater
  | even
  deriving DecidableEq

/-- Whether the lower of two neighbours is taken, given how far both lie from
the number. -/
def Tie.takesLower (tie : Tie) (lower below above : Nat) : Bool :=
  below < above || (below == above && tie == even && lower % 2 == 0)

/-- Whether `multiple` units lie among the numbers that round to a binary
number, all counted in the same quarter steps.  The ends belong to the
interval when the mantissa is even. -/
def readsBack (number : Binary) (multiple step : Nat) : Bool :=
  let low := (4 * number.mantissa - if number.closerBelow then 1 else 2) * step
  let high := (4 * number.mantissa + 2) * step
  if number.mantissa % 2 = 0 then low ≤ multiple && multiple ≤ high
  else low < multiple && multiple < high

/-- The better of the two neighbours of a number on the grid of a power of
ten, if one of them reads back. -/
def onGrid (tie : Tie) (number : Binary) (grid : Int) : Option Nat :=
  let quarter := number.exponent - 2
  let step := twoTo quarter.toNat * tenTo (-grid).toNat
  let unit := twoTo (-quarter).toNat * tenTo grid.toNat
  let value := 4 * number.mantissa * step
  let below := value / unit
  let lower := readsBack number (below * unit) step
  let upper := readsBack number ((below + 1) * unit) step
  let takesLower := tie.takesLower below (value - below * unit) ((below + 1) * unit - value)
  if lower && (!upper || takesLower) then some below
  else if upper then some (below + 1)
  else none

/-- Try the grids from a power of ten downwards. -/
def search (tie : Tie) (number : Binary) : Nat → Int → Scaled
  | 0, grid => ⟨number.mantissa, grid⟩
  | grids + 1, grid =>
    match onGrid tie number grid with
    | some significand => ⟨significand, grid⟩
    | none => search tie number grids (grid - 1)

/-- A power of ten above a number, found from its power of two. -/
def coarsestGrid (number : Binary) : Int :=
  ((number.mantissa.log2 : Int) + number.exponent) * 30103 / 100000 + 2

/-- The shortest decimal that reads back as a number; it has at most 17 digits. -/
def shortest (tie : Tie) (number : Binary) : Scaled :=
  search tie number 24 (coarsestGrid number)

end Decimal

end Concordance
